/-
What each run leaves behind. The engine keeps one set of fields for all runs,
which a start clears and the sections of the current run fill; `Observed` keeps
beside it, for every run, what that run's own sections wrote (`RunOutcome`).

`Faithful` connects the two: while starts are settled, the engine's fields are
those of the last run started, and what a run has left once its verdict is there
stays (`outcomes_step`).
-/
import Burnin.EngineFacts

namespace Burnin

/-- What the sections of one run have written. -/
structure RunOutcome where
  cfg : Config
  runID : String
  snapshots : Option Snapshots := .none
  verdict : Option VerdictResult := .none
  /-- the memory that the verdict was computed from -/
  baselineRSS : UInt64 := 0
  peakRSS : UInt64 := 0

/-- One section of the run, from `pc`, which leaves the engine as `e`. -/
def RunOutcome.note (o : RunOutcome) (e : Engine) : Pc → Event → RunOutcome
  | .capture, .captured snapshots => { o with snapshots := .some snapshots }
  | .verdict, .ranged _ =>
    { o with verdict := e.verdictResult, baselineRSS := e.baselineRSS, peakRSS := e.peakRSS }
  | _, _ => o

/-- The engine, and the outcome of every run started so far. -/
structure Observed where
  engine : Engine := {}
  outcomes : List RunOutcome := []

namespace Observed

def step (o : Observed) (a : Act) : Observed where
  engine := o.engine.step a
  outcomes :=
    match a with
    | .start cfg _ _ =>
      if o.engine.canStart then o.outcomes ++ [{ cfg, runID := (o.engine.step a).runID }] else o.outcomes
    | .stop => o.outcomes
    | .run i ev _ =>
      match o.engine.runs[i]? with
      | .some r => o.outcomes.modify i fun p => p.note (o.engine.step a) r.pc ev
      | .none => o.outcomes

/-- The context of the run `i` is cancelled. -/
def cancel (o : Observed) (i : Nat) : Observed := { o with engine := o.engine.cancel i }

def after (acts : List Act) : Observed := acts.foldl step {}

@[simp] theorem step_engine (o : Observed) (a : Act) : (o.step a).engine = o.engine.step a := rfl

/-- Observing changes nothing. -/
theorem foldl_step_engine (o : Observed) (acts : List Act) :
    (acts.foldl step o).engine = acts.foldl Engine.step o.engine := by
  induction acts generalizing o with
  | nil => rfl
  | cons a acts ih => exact ih (o.step a)

theorem after_engine (acts : List Act) : (after acts).engine = Engine.after acts :=
  foldl_step_engine {} acts

end Observed

/-! ## What a section writes -/

/-- The places of a run after its verdict. -/
def Pc.judged : Pc → Bool
  | .summary | .deferred | .closing _ | .finished => true
  | _ => false

theorem Pc.Goes.judged {cancelled : Bool} {pc pc' : Pc} {ev : Event} (h : pc.Goes cancelled ev pc')
    (hj : pc.judged = true) : pc'.judged = true := by
  cases h <;> first | rfl | cases hj

theorem RunOutcome.note_of_none (o : RunOutcome) {e e' : Engine} {i : Nat} {r : Run} {now : Int}
    {pc : Pc} {ev : Event} (h : e.runLoop i r now pc ev = .none) : o.note e' pc ev = o := by
  unfold note
  split
  · cases h
  · cases h
  · rfl

theorem RunOutcome.note_judged (o : RunOutcome) (e : Engine) {pc : Pc} (ev : Event)
    (h : pc.judged = true) : o.note e pc ev = o := by
  cases pc <;> first | rfl | cases h

/-! ## The invariant -/

/-- The engine's fields are those that its current run, now at `pc`, has
written; the verdict is there only after the section that computes it. -/
structure Leaves (e : Engine) (pc : Pc) (p : RunOutcome) : Prop where
  runCfg : e.runCfg = .some p.cfg
  runID : e.runID = p.runID
  snapshots : e.workerSnapshots = p.snapshots
  verdict : e.verdictResult = p.verdict
  judged : p.verdict.isSome = true → pc.judged = true
  memory : p.verdict.isSome = true → e.baselineRSS = p.baselineRSS ∧ e.peakRSS = p.peakRSS

theorem Leaves.not_judged {e : Engine} {pc : Pc} {p : RunOutcome} (h : Leaves e pc p)
    (hpc : pc.judged = false) :
    ¬ p.verdict.isSome = true := fun hv => by
  rw [h.judged hv] at hpc
  cases hpc

theorem Leaves.section {e e' : Engine} {i : Nat} {r : Run} {now : Int} {pc pc' : Pc} {ev : Event}
    {p : RunOutcome} (h : Leaves e pc p) (hg : pc.Goes r.cancelled ev pc')
    (hl : e.runLoop i r now pc ev = .some e') :
    Leaves e' pc' (p.note e' pc ev) := by
  -- A section before the verdict that writes none of these fields.
  have early : pc.judged = false → e'.runCfg = e.runCfg → e'.runID = e.runID →
      e'.workerSnapshots = e.workerSnapshots → e'.verdictResult = e.verdictResult → Leaves e' pc' p := by
    intro hpc h1 h2 h3 h4
    exact ⟨h1.trans h.runCfg, h2.trans h.runID, h3.trans h.snapshots, h4.trans h.verdict,
      fun hv => absurd hv (h.not_judged hpc), fun hv => absurd hv (h.not_judged hpc)⟩
  cases hg with
  | verdict order =>
    cases Option.some.inj hl
    exact ⟨h.runCfg, h.runID, h.snapshots, rfl, fun _ => rfl, fun _ => ⟨rfl, rfl⟩⟩
  | captured snapshots =>
    cases Option.some.inj hl
    exact ⟨h.runCfg, h.runID, rfl, h.verdict, fun hv => absurd hv (h.not_judged rfl),
      fun hv => absurd hv (h.not_judged rfl)⟩
  | summary | deferred =>
    cases Option.some.inj hl
    exact ⟨h.runCfg, h.runID, h.snapshots, h.verdict, fun _ => rfl, h.memory⟩
  | closing done =>
    cases Option.some.inj hl
    cases done <;> exact ⟨h.runCfg, h.runID, h.snapshots, h.verdict, fun _ => rfl, h.memory⟩
  | stopped hc =>
    rw [Engine.runLoop, if_pos hc] at hl
    cases Option.some.inj hl
    exact early rfl rfl rfl rfl rfl
  | durationReached =>
    rw [Engine.runLoop] at hl
    split at hl
    · cases Option.some.inj hl
      exact early rfl rfl rfl rfl rfl
    · cases hl
  | _ =>
    cases Option.some.inj hl
    exact early rfl rfl rfl rfl rfl

namespace Observed

/-- There is one outcome for each run, and the engine's fields are those of the
last run started. -/
structure Faithful (o : Observed) : Prop where
  lifecycle : o.engine.Lifecycle
  length : o.outcomes.length = o.engine.runs.length
  fresh : o.engine.runs = [] → o.engine.workerSnapshots = .none
  current : ∀ (i : Nat) (r : Run) (p : RunOutcome), o.engine.runs[i]? = .some r →
    o.outcomes[i]? = .some p →
    i + 1 = o.engine.runs.length → Leaves o.engine r.pc p

/-- The last run started has left what the engine holds. -/
theorem Faithful.last {o : Observed} (h : o.Faithful) {i : Nat} (hl : i + 1 = o.engine.runs.length) :
    ∃ r p, o.engine.runs[i]? = .some r ∧ o.outcomes[i]? = .some p ∧ Leaves o.engine r.pc p := by
  have hr : o.engine.runs[i]? = .some (o.engine.runs.get ⟨i, by omega⟩) := by simp
  have hp : o.outcomes[i]? = .some (o.outcomes.get ⟨i, by rw [h.length]; omega⟩) := by simp
  exact ⟨_, _, hr, hp, h.current i _ _ hr hp hl⟩

theorem faithful_new : Faithful {} := ⟨Engine.lifecycle_new, rfl, fun _ => rfl, by simp⟩

theorem Faithful.cancel {o : Observed} (h : o.Faithful) (c : Nat) : (o.cancel c).Faithful := by
  have hlen := o.engine.cancel_length c
  refine ⟨h.lifecycle.cancel c, h.length.trans hlen.symm, fun hn => h.fresh ?_, fun i r p hr hp hl => ?_⟩
  · exact List.length_eq_zero_iff.mp (hlen.symm.trans (List.length_eq_zero_iff.mpr hn))
  simp only [Observed.cancel, Engine.cancel_runs, Option.map_eq_some_iff] at hr
  obtain ⟨r, hr, rfl⟩ := hr
  obtain ⟨h1, h2, h3, h4, h5, h6⟩ := h.current i r p hr hp (hl.trans hlen)
  exact ⟨h1, h2, h3, h4, h5, h6⟩

theorem Faithful.start {o : Observed} (h : o.Faithful) {cfg : Config} {randomID : String} {now : Int}
    (hc : o.engine.canStart = true) (hfin : o.engine.Settled) :
    (o.step (.start cfg randomID now)).Faithful := by
  have hlife : (o.engine.step (.start cfg randomID now)).Lifecycle := h.lifecycle.step fun _ => hfin
  refine ⟨hlife, ?_, ?_, fun i r p hr hp hl => ?_⟩
  · simp [step, Engine.step, Engine.startRunFromConfig, hc, h.length]
  · simp [step, Engine.step, Engine.startRunFromConfig, hc]
  · simp only [step, Engine.step, Engine.startRunFromConfig, hc, if_true] at hr hp hl ⊢
    obtain rfl : i = o.engine.runs.length := by simpa using hl
    rw [List.getElem?_concat_length] at hr
    rw [← h.length, List.getElem?_concat_length] at hp
    cases hr
    cases hp
    exact ⟨rfl, rfl, rfl, rfl, by simp, by simp⟩

theorem Faithful.section {o : Observed} (h : o.Faithful) (i : Nat) (ev : Event) (now : Int) :
    (o.step (.run i ev now)).Faithful := by
  cases hr : o.engine.runs[i]? with
  | none =>
    have hstep : o.step (.run i ev now) = o := by simp [step, Engine.step, hr]
    rwa [hstep]
  | some r =>
    cases hl : o.engine.runLoop i r now r.pc ev with
    | none =>
      have hmodify : (o.outcomes.modify i fun p => p) = o.outcomes := List.modify_id i o.outcomes
      have hstep : o.step (.run i ev now) = o := by
        simp [step, Engine.step, hr, hl, RunOutcome.note_of_none _ hl, hmodify]
      rwa [hstep]
    | some e' =>
      obtain ⟨pc, hg, hs⟩ := Engine.runLoop_goes hr hl
      have hstep : o.engine.step (.run i ev now) = e' := by simp [Engine.step, hr, hl]
      have hlast : i + 1 = o.engine.runs.length :=
        h.lifecycle.last hr hs.live
      have hlife : e'.Lifecycle := h.lifecycle.section hr hs
      refine ⟨by rwa [step_engine, hstep], ?_, fun hn => ?_, fun j r' p' hj hp' hl' => ?_⟩
      · simp [step, hr, hstep, h.length, hs.length]
      · rw [step_engine, hstep] at hn
        have hlen := hs.length
        rw [hn, ← hlast] at hlen
        cases hlen
      · simp only [step, hstep, hr] at hj hp' hl' ⊢
        obtain rfl : j = i := by
          rw [hs.length] at hl'
          omega
        rw [hs.runs, if_pos rfl] at hj
        cases hj
        simp only [List.getElem?_modify, if_true] at hp'
        obtain ⟨p, hp, rfl⟩ := Option.map_eq_some_iff.mp hp'
        exact (h.current j r p hr hp hlast).section hg hl

theorem Faithful.step {o : Observed} (h : o.Faithful) {a : Act} (ha : o.engine.StartsSettled a) :
    (o.step a).Faithful := by
  cases a with
  | start cfg randomID now =>
    by_cases hc : o.engine.canStart = true
    · exact h.start hc (ha hc)
    · have hstep : o.step (.start cfg randomID now) = o := by
        simp [Observed.step, Engine.step, Engine.startRunFromConfig, hc]
      rwa [hstep]
  | stop =>
    rcases o.engine.step_stop with he | ⟨c, he⟩
    · have hstep : o.step .stop = o := by rw [Observed.step, he]
      rwa [hstep]
    · have hstep : o.step .stop = o.cancel c := by rw [Observed.step, he, Observed.cancel]
      rw [hstep]
      exact h.cancel c
  | run i ev now => exact h.section i ev now

theorem faithful_after {acts : List Act}
    (hs : Past.Always (fun pre a => (Engine.after pre).StartsSettled a) acts) :
    (after acts).Faithful := by
  refine Past.Always.invariant (C := fun o a => o.engine.StartsSettled a) faithful_new
    (fun _ _ h ha => h.step ha) fun pre a post he => ?_
  have hpre : (Engine.after pre).StartsSettled a := hs pre a post he
  rwa [← after_engine] at hpre

/-- What a run has left once its verdict is there stays. -/
theorem Faithful.outcomes_step {o : Observed} (h : o.Faithful) {k : Nat} {p : RunOutcome}
    (hp : o.outcomes[k]? = .some p) (hv : p.verdict.isSome = true) (a : Act) :
    (o.step a).outcomes[k]? = .some p := by
  have hlt : k < o.outcomes.length := (List.getElem?_eq_some_iff.mp hp).1
  cases a with
  | start cfg randomID now =>
    simp only [Observed.step]
    split
    · rw [List.getElem?_append_left hlt, hp]
    · exact hp
  | stop => exact hp
  | run i ev now =>
    simp only [Observed.step]
    split
    · next r hr =>
      rw [List.getElem?_modify, hp]
      by_cases hik : i = k
      · subst hik
        have hj : r.pc.judged = true := by
          by_cases hlast : i + 1 = o.engine.runs.length
          · exact (h.current i r p hr hp hlast).judged hv
          · rw [h.lifecycle.earlier i r hr hlast]
            rfl
        simp [RunOutcome.note_judged p _ ev hj]
      · simp [hik]
    · exact hp

end Observed

end Burnin
