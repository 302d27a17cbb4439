/-
Calls of `RunReport` (`burnin/main.go`) beside the engine. A call reads the
engine field by field, each read under a lock of its own, so the engine's
sections and a next start may come between two reads, and any number of calls
may be under way.

`Consistent` is what a reader of the reports relies on: a report is of one run,
and two reports of one run give the same verdict. It rests on two things that
nothing in the code ensures: no start while a call is under way, and no call
between the capture of the snapshots and the verdict (`Orderly`).
-/
import Burnin.Shutdown
import Burnin.VerdictFacts

namespace Burnin

/-- The next read of a call of `RunReport`. -/
inductive ReadPc where
  | snapshots | config | id | startedAt | endedAt | baseline | peak | verdict | returned
  deriving DecidableEq

/-- How many reads have been made. -/
def ReadPc.rank : ReadPc → Nat
  | .snapshots => 0
  | .config => 1
  | .id => 2
  | .startedAt => 3
  | .endedAt => 4
  | .baseline => 5
  | .peak => 6
  | .verdict => 7
  | .returned => 8

/-- A call of `RunReport`, with the orders of the loops of its
`GenerateVerdict`. -/
structure ReportCall where
  range₁ : (m : Workers) → Range m
  range₂ : (m : Workers) → Range m
  /-- the last run started when it read the snapshots -/
  run : Nat := 0
  reads : Reads := ⟨.none, .none, "", .none, .none, 0, 0, .none⟩
  next : ReadPc := .snapshots

namespace ReportCall

/-- The next read; without snapshots there is no other. -/
def read (c : ReportCall) (e : Engine) : ReportCall :=
  match c.next with
  | .snapshots =>
    match e.workerSnapshots with
    | .none => { c with next := .returned }
    | .some s => { c with run := e.runs.length - 1, reads := { c.reads with snapshots := .some s },
                          next := .config }
  | .config => { c with reads := { c.reads with runConfig := e.runCfg }, next := .id }
  | .id => { c with reads := { c.reads with runID := e.runID }, next := .startedAt }
  | .startedAt => { c with reads := { c.reads with runStartedAt := e.runStartedAt }, next := .endedAt }
  | .endedAt => { c with reads := { c.reads with runEndedAt := e.runEndedAt }, next := .baseline }
  | .baseline => { c with reads := { c.reads with baselineRSS := e.baselineRSS }, next := .peak }
  | .peak => { c with reads := { c.reads with peakRSS := e.peakRSS }, next := .verdict }
  | .verdict => { c with reads := { c.reads with verdict := e.verdictResult }, next := .returned }
  | .returned => c

/-- What the call returned, if it has and it is not nil. -/
def report (startupCfg : Config) (c : ReportCall) : Option (Summary × Verdict) :=
  if c.next = .returned then runReport startupCfg c.range₁ c.range₂ c.reads else .none

/-- The call is between its first and its last read. -/
def UnderWay (c : ReportCall) : Prop := c.next ≠ .snapshots ∧ c.next ≠ .returned

end ReportCall

/-- The engine and every call of `RunReport` so far. -/
structure Reporting where
  observed : Observed := {}
  calls : List ReportCall := []

inductive ReportAct where
  | engine (a : Act)
  | call (range₁ range₂ : (m : Workers) → Range m)
  /-- the next read of a call -/
  | read (k : Nat)

namespace Reporting

def step (s : Reporting) : ReportAct → Reporting
  | .engine a => { s with observed := s.observed.step a }
  | .call range₁ range₂ => { s with calls := s.calls ++ [{ range₁, range₂ }] }
  | .read k => { s with calls := s.calls.modify k fun c => c.read s.observed.engine }

def after (acts : List ReportAct) : Reporting := acts.foldl step {}

/-- Every report is of one run, and the reports of a run give one verdict. -/
structure Consistent (startupCfg : Config) (s : Reporting) : Prop where
  one_run : ∀ c ∈ s.calls, (c.report startupCfg).isSome = true →
    ∃ p, s.observed.outcomes[c.run]? = .some p ∧ c.reads.runID = p.runID ∧
      c.reads.runConfig = .some p.cfg ∧
      c.reads.snapshots = p.snapshots ∧ c.reads.verdict = p.verdict
  final : ∀ c ∈ s.calls, ∀ d ∈ s.calls, c.run = d.run → ∀ rc rd, c.report startupCfg = .some rc →
    d.report startupCfg = .some rd → rc.2.result = rd.2.result ∧ rc.2.passed = rd.2.passed

/-- A start is accepted in a settled engine, with no call of `RunReport` under
way; a call that finds snapshots finds a verdict beside them. -/
def Orderly (s : Reporting) : ReportAct → Prop
  | .engine a => s.observed.engine.StartsSettled a ∧
      match a with
      | .start _ _ _ => s.observed.engine.canStart = true → ∀ c ∈ s.calls, ¬ c.UnderWay
      | _ => True
  | .call _ _ => True
  | .read k => ∀ c, s.calls[k]? = .some c → c.next = .snapshots →
      s.observed.engine.workerSnapshots = .none ∨ s.observed.engine.verdictResult.isSome = true

end Reporting

/-! ## A call -/

/-- What the call has read so far is of the run that left `p`. -/
structure ReportCall.Matches (c : ReportCall) (p : RunOutcome) : Prop where
  snapshots : c.reads.snapshots = p.snapshots
  config : 1 < c.next.rank → c.reads.runConfig = .some p.cfg
  id : 2 < c.next.rank → c.reads.runID = p.runID
  baseline : 5 < c.next.rank → c.reads.baselineRSS = p.baselineRSS
  peak : 6 < c.next.rank → c.reads.peakRSS = p.peakRSS
  verdict : 7 < c.next.rank → c.reads.verdict = p.verdict

/-- The call has no snapshots, or reads the fields of a run whose verdict is
there; while under way, of the last one started. -/
def ReportCall.Steady (o : Observed) (c : ReportCall) : Prop :=
  (c.reads.snapshots = .none ∧ ¬ c.UnderWay) ∨
    ∃ p, o.outcomes[c.run]? = .some p ∧ p.verdict.isSome = true ∧ c.Matches p ∧ 0 < c.next.rank ∧
      (c.UnderWay → c.run + 1 = o.engine.runs.length)

namespace ReportCall

theorem Matches.read {c : ReportCall} {p : RunOutcome} {e : Engine} {pc : Pc} (h : c.Matches p)
    (hl : Leaves e pc p) (hv : p.verdict.isSome = true) (hu : c.UnderWay) :
    (c.read e).Matches p ∧ 0 < (c.read e).next.rank ∧ (c.read e).run = c.run := by
  obtain ⟨range₁, range₂, run, reads, next⟩ := c
  obtain ⟨h1, h2, h3, h4, h5, h6⟩ := h
  obtain ⟨hb, hp⟩ := hl.memory hv
  dsimp only at h2 h3 h4 h5
  -- The field that is read has the run's value, those before have it already.
  cases next with
  | snapshots => exact absurd rfl hu.1
  | returned => exact absurd rfl hu.2
  | config => exact ⟨⟨h1, fun _ => hl.runCfg, nofun, nofun, nofun, nofun⟩, Nat.succ_pos _, rfl⟩
  | id =>
    exact ⟨⟨h1, fun _ => h2 (by decide), fun _ => hl.runID, nofun, nofun, nofun⟩, Nat.succ_pos _, rfl⟩
  | startedAt | endedAt =>
    exact ⟨⟨h1, fun _ => h2 (by decide), fun _ => h3 (by decide), nofun, nofun, nofun⟩,
      Nat.succ_pos _, rfl⟩
  | baseline =>
    exact ⟨⟨h1, fun _ => h2 (by decide), fun _ => h3 (by decide), fun _ => hb, nofun, nofun⟩,
      Nat.succ_pos _, rfl⟩
  | peak =>
    exact ⟨⟨h1, fun _ => h2 (by decide), fun _ => h3 (by decide), fun _ => h4 (by decide),
      fun _ => hp, nofun⟩, Nat.succ_pos _, rfl⟩
  | verdict =>
    exact ⟨⟨h1, fun _ => h2 (by decide), fun _ => h3 (by decide), fun _ => h4 (by decide),
      fun _ => h5 (by decide), fun _ => hl.verdict⟩, Nat.succ_pos _, rfl⟩

/-- The first read: of snapshots that have a verdict beside them. -/
theorem steady_first {o : Observed} (h : o.Faithful) {c : ReportCall} (hc : c.reads.snapshots = .none)
    (hn : c.next = .snapshots)
    (hj : o.engine.workerSnapshots = .none ∨ o.engine.verdictResult.isSome = true) :
    (c.read o.engine).Steady o := by
  cases hs : o.engine.workerSnapshots with
  | none => exact .inl (by simp [ReportCall.read, hn, hs, hc, UnderWay])
  | some snapshots =>
    have hpos : 0 < o.engine.runs.length := List.length_pos_iff.mpr fun hr => by simp [h.fresh hr] at hs
    obtain ⟨i, hi⟩ : ∃ i, i + 1 = o.engine.runs.length := ⟨_, Nat.succ_pred_eq_of_pos hpos⟩
    obtain ⟨r, p, -, hp, hl⟩ := h.last hi
    have hread : c.read o.engine =
        { c with run := i, reads := { c.reads with snapshots := .some snapshots },
                 next := .config } := by
      simp [ReportCall.read, hn, hs, ← hi]
    rw [hread]
    refine .inr ⟨p, hp, ?_, ⟨?_, nofun, nofun, nofun, nofun, nofun⟩, Nat.succ_pos _, fun _ => hi⟩
    · rw [← hl.verdict]
      exact hj.resolve_left (by simp [hs])
    · rw [← hl.snapshots, hs]

theorem Steady.read {o : Observed} (h : o.Faithful) {c : ReportCall} (hc : c.Steady o)
    (hj : c.next = .snapshots → o.engine.workerSnapshots = .none ∨
      o.engine.verdictResult.isSome = true) :
    (c.read o.engine).Steady o := by
  rcases hc with ⟨hs, hu⟩ | ⟨p, hp, hv, hm, hpos, hlast⟩
  · by_cases hn : c.next = .snapshots
    · exact steady_first h hs hn (hj hn)
    · -- A call that has returned nil.
      have hret : c.next = .returned := by_contra fun hr => hu ⟨hn, hr⟩
      exact .inl (by simp [ReportCall.read, hret, hs, UnderWay])
  · by_cases hu : c.UnderWay
    · have hi := hlast hu
      obtain ⟨r, p', -, hp', hl⟩ := h.last hi
      obtain rfl : p' = p := Option.some.inj (hp'.symm.trans hp)
      obtain ⟨hm', hpos', hrun⟩ := hm.read hl hv hu
      exact .inr ⟨p', by rw [hrun]; exact hp, hv, hm', hpos', fun _ => by rw [hrun]; exact hi⟩
    · have hret : c.next = .returned := by
        by_contra hr
        refine hu ⟨fun hn => ?_, hr⟩
        rw [hn] at hpos
        cases hpos
      have hread : c.read o.engine = c := by simp [ReportCall.read, hret]
      rw [hread]
      exact .inr ⟨p, hp, hv, hm, hpos, hlast⟩

theorem Steady.step {o : Observed} (h : o.Faithful) {c : ReportCall} (hc : c.Steady o) (a : Act)
    (hu : c.UnderWay → (o.step a).engine.runs.length = o.engine.runs.length) : c.Steady (o.step a) := by
  rcases hc with hc | ⟨p, hp, hv, hm, hpos, hlast⟩
  · exact .inl hc
  · exact .inr ⟨p, h.outcomes_step hp hv a, hv, hm, hpos, fun hw => (hlast hw).trans (hu hw).symm⟩

end ReportCall

/-! ## All calls -/

theorem Observed.step_length (o : Observed) (a : Act) :
    (o.step a).engine.runs.length = o.engine.runs.length ∨
      ∃ cfg randomID now, a = .start cfg randomID now ∧ o.engine.canStart = true := by
  cases a with
  | start cfg randomID now =>
    by_cases hc : o.engine.canStart = true
    · exact .inr ⟨cfg, randomID, now, rfl, hc⟩
    · exact .inl (by simp [step, Engine.step, Engine.startRunFromConfig, hc])
  | stop =>
    rcases o.engine.step_stop with he | ⟨c, he⟩
    · exact .inl (by rw [step_engine, he])
    · exact .inl (by rw [step_engine, he, Engine.cancel_length])
  | run i ev now =>
    rcases o.engine.step_run i ev now with he | ⟨r, pc, -, -, hs⟩
    · exact .inl (by rw [step_engine, he])
    · exact .inl hs.length

namespace Reporting

structure Steady (s : Reporting) : Prop where
  faithful : s.observed.Faithful
  calls : ∀ (k : Nat) (c : ReportCall), s.calls[k]? = .some c → c.Steady s.observed

theorem steady_new : Steady {} := ⟨Observed.faithful_new, by simp⟩

theorem Steady.step {s : Reporting} {a : ReportAct} (h : s.Steady) (ha : s.Orderly a) :
    (s.step a).Steady := by
  obtain ⟨hf, hc⟩ := h
  cases a with
  | engine a =>
    obtain ⟨hs, hu⟩ := ha
    refine ⟨hf.step hs, fun k c hk => (hc k c hk).step hf a fun hw => ?_⟩
    rcases s.observed.step_length a with hlen | ⟨cfg, randomID, now, rfl, hcan⟩
    · exact hlen
    · exact absurd hw (hu hcan c (List.mem_of_getElem? hk))
  | call range₁ range₂ =>
    refine ⟨hf, fun k c hk => ?_⟩
    simp only [Reporting.step, List.getElem?_append] at hk
    split at hk
    · exact hc k c hk
    · rw [List.getElem?_singleton] at hk
      split at hk
      · cases hk
        exact .inl ⟨rfl, fun hu => hu.1 rfl⟩
      · cases hk
  | read k =>
    refine ⟨hf, fun j c' hj' => ?_⟩
    simp only [Reporting.step, List.getElem?_modify] at hj'
    obtain ⟨c, hj, rfl⟩ := Option.map_eq_some_iff.mp hj'
    by_cases hkj : k = j
    · subst hkj
      rw [if_pos rfl]
      exact (hc k c hj).read hf (ha c hj)
    · rw [if_neg hkj]
      exact hc j c hj

section
variable {startupCfg : Config}

/-- A report has all its reads of one run. -/
theorem Steady.of_report {s : Reporting} (h : s.Steady) {c : ReportCall} (hc : c ∈ s.calls)
    {r : Summary × Verdict} (hr : c.report startupCfg = .some r) :
    ∃ p snapshots, s.observed.outcomes[c.run]? = .some p ∧ p.snapshots = .some snapshots ∧ c.Matches p ∧
      c.next = .returned ∧
      r.2 = reconcile (generateVerdict c.range₁ c.range₂
        (summarize p.cfg snapshots c.reads) p.cfg) p.verdict := by
  obtain ⟨k, hk⟩ := List.getElem?_of_mem hc
  unfold ReportCall.report at hr
  split at hr
  · next hn =>
    rcases h.calls k c hk with ⟨hnone, -⟩ | ⟨p, hp, -, hm, -, -⟩
    · simp [runReport, hnone] at hr
    · obtain ⟨snapshots, hs, rfl⟩ := Option.map_eq_some_iff.mp hr
      refine ⟨p, snapshots, hp, hm.snapshots.symm.trans hs, hm, hn, ?_⟩
      simp only [hm.config (by rw [hn]; decide), hm.verdict (by rw [hn]; decide), Option.getD_some]
  · cases hr

theorem Steady.consistent {s : Reporting} (h : s.Steady) : s.Consistent startupCfg where
  one_run := fun c hc hr => by
    obtain ⟨r, hr⟩ := Option.isSome_iff_exists.mp hr
    obtain ⟨p, snapshots, hp, -, hm, hn, -⟩ := h.of_report hc hr
    have hrank : 7 < c.next.rank := by rw [hn]; decide
    exact ⟨p, hp, hm.id (by omega), hm.config (by omega), hm.snapshots, hm.verdict hrank⟩
  final := fun c hc d hd hrun rc rd hrc hrd => by
    obtain ⟨p, snapshots, hp, hs, hm, hn, hvc⟩ := h.of_report hc hrc
    obtain ⟨q, snapshots', hq, hs', hm', hn', hvd⟩ := h.of_report hd hrd
    rw [hrun, hq] at hp
    cases hp
    rw [hs] at hs'
    cases hs'
    have hrank : 7 < c.next.rank := by rw [hn]; decide
    have hrank' : 7 < d.next.rank := by rw [hn']; decide
    have hresources : (summarize p.cfg snapshots c.reads).resources =
        (summarize p.cfg snapshots d.reads).resources := by
      simp only [summarize, hm.baseline (by omega), hm.peak (by omega), hm'.baseline (by omega),
        hm'.peak (by omega)]
    have hworkers : (summarize p.cfg snapshots c.reads).workers =
        (summarize p.cfg snapshots d.reads).workers := rfl
    -- The same run, the same reads: only the orders of the loops may differ.
    have halike :=
      (generateVerdict_alike c.range₁ c.range₂ d.range₁ d.range₂ hworkers hresources
        p.cfg).reconcile p.verdict
    rw [hvc, hvd]
    exact ⟨halike.result, halike.passed⟩

end

end Reporting

open Reporting in
/-- **Reports are consistent and final** along every run of the engine and the
calls whose steps are all orderly. -/
theorem reports_consistent (startupCfg : Config) (acts : List ReportAct)
    (h : Past.Always (fun pre a => (after pre).Orderly a) acts) :
    ∀ pre, pre <+: acts → (after pre).Consistent startupCfg := fun _ hp =>
  Steady.consistent (Past.Always.invariant steady_new (fun _ _ hs ha => Steady.step hs ha)
    (h.of_prefix hp))

/-- A run to its end, then `n` reads of a report. -/
def reported (n : Nat) : List ReportAct :=
  (draining ++ drained).map ReportAct.engine ++ [.call .stored .stored] ++ List.replicate n (.read 0)

open Reporting in
theorem reported_succ (n : Nat) : after (reported (n + 1)) = (after (reported n)).step (.read 0) := by
  rw [reported, List.replicate_succ', ← List.append_assoc, after, List.foldl_append]
  rfl

set_option maxRecDepth 20000 in
open Reporting in
/-- The whole report, of eight reads, is there and passes. -/
theorem reports_consistent_reported :
    (∀ pre, pre <+: reported 8 → (after pre).Consistent defaultConfig) ∧
      (after (reported 8)).calls.map (fun c => (c.report defaultConfig).map (·.2.passed)) =
        [.some true] := by
  have hverdict : ∀ n, (after (reported n)).observed.engine.verdictResult.isSome = true := fun n => by
    induction n with
    | zero => decide +kernel
    | succ n ih => rw [reported_succ]; exact ih
  have hrun : Past.Always (fun pre a => (after pre).Orderly a) ((draining ++ drained).map .engine) := by
    intro pre a post he
    cases a with
    | call range₁ range₂ => trivial
    | read k =>
      have hmem : ReportAct.read k ∈ (draining ++ drained).map ReportAct.engine := by rw [he]; simp
      simp at hmem
    | engine a =>
      cases a with
      | start cfg randomID now =>
        cases pre with
        | nil =>
          exact ⟨fun _ r hr => absurd hr List.not_mem_nil, fun _ c hc => absurd hc List.not_mem_nil⟩
        | cons b pre =>
          have hmem : ReportAct.engine (.start cfg randomID now) ∈
              ((draining ++ drained).map ReportAct.engine).tail := by rw [he]; simp
          simp [draining, drained] at hmem
      | _ => exact ⟨trivial, trivial⟩
  have hreads : ∀ n, Past.Always (fun pre a => (after pre).Orderly a) (reported n) := fun n => by
    induction n with
    | zero =>
      rw [reported, List.replicate_zero, List.append_nil]
      exact Past.always_snoc.mpr ⟨hrun, trivial⟩
    | succ n ih =>
      rw [reported, List.replicate_succ', ← List.append_assoc]
      exact Past.always_snoc.mpr ⟨ih, fun _ _ _ => .inr (hverdict n)⟩
  exact ⟨reports_consistent defaultConfig _ (hreads 8), by decide +kernel⟩

/-- A report is made between the capture of a run that sent at half its rate
and the verdict, another after the verdict. -/
def reportedTwice : List ReportAct :=
  (draining ++ [Act.run 0 (.captured (sentFor 1800)) hour]).map ReportAct.engine ++
    [.call .stored .stored] ++ List.replicate 8 (.read 0) ++
    [.engine (.run 0 (.sampled 1 false) hour), .engine (.run 0 (.ranged .stored) hour),
      .call .stored .stored] ++
    List.replicate 8 (.read 1)

set_option maxRecDepth 20000 in
open Reporting in
/-- The first report of the run says that it passed, the second that it failed. -/
theorem report_before_verdict :
    (after reportedTwice).calls.map
      (fun c => (c.run, (c.report defaultConfig).map fun r => (r.2.result, r.2.passed))) =
        [(0, .some (.passed, true)), (0, .some (.failed, false))] ∧
      ¬ (after reportedTwice).Consistent defaultConfig := by
  have hreports : (after reportedTwice).calls.map
      (fun c => (c.run, (c.report defaultConfig).map fun r => (r.2.result, r.2.passed))) =
        [(0, .some (.passed, true)), (0, .some (.failed, false))] := by
    decide +kernel
  refine ⟨hreports, fun h => ?_⟩
  obtain ⟨c, l, hcalls, hc, hl⟩ := List.map_eq_cons_iff.mp hreports
  obtain ⟨d, l', rfl, hd, -⟩ := List.map_eq_cons_iff.mp hl
  obtain ⟨hrc, hc⟩ := Prod.mk.inj hc
  obtain ⟨hrd, hd⟩ := Prod.mk.inj hd
  obtain ⟨rc, hrepc, hc⟩ := Option.map_eq_some_iff.mp hc
  obtain ⟨rd, hrepd, hd⟩ := Option.map_eq_some_iff.mp hd
  have hsame :=
    (h.final c (by simp [hcalls]) d (by simp [hcalls]) (hrc.trans hrd.symm) rc rd hrepc hrepd).2
  rw [(Prod.mk.inj hc).2, (Prod.mk.inj hd).2] at hsame
  cases hsame

end Burnin
