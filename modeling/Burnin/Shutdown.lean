/-
`GracefulShutdown` (`burnin/engine/engine.go`), on which the program's exit code
rests, against the `runLoop` that is under way when it is called.

It decides from one sample of the engine's state whether to wait. The sample is
its first section; the cancellation, the wait for the channel and the last
section, which reads the verdict, are steps that the sections of the run may come
between.
-/
import Burnin.Outcome

namespace Burnin

/-- Where a call of `GracefulShutdown` is, after its first section. -/
inductive ShutdownPc where
  /-- before `cancel()`, with the `runCancel` and `runDone` it has read -/
  | cancelling (cancel done : Option Nat)
  /-- in the `select` on `done` and the timer -/
  | waiting (done : Nat)
  /-- before its last section -/
  | reading
  | returned (passed : Bool)
  deriving DecidableEq

structure Shutdown where
  observed : Observed
  pc : ShutdownPc
  /-- the timer of 90 seconds fired -/
  timedOut : Bool := false

/-- The first section of `GracefulShutdown`. -/
def Observed.gracefulShutdown (o : Observed) : Shutdown where
  observed := o
  pc :=
    if o.engine.state = .running ∨ o.engine.state = .starting then
      .cancelling o.engine.runCancel o.engine.runDone
    else .reading

inductive ShutdownAct where
  /-- the call goes on, if the `select` does not hold it -/
  | call
  | timeout
  /-- a section of the run -/
  | run (event : Event) (now : Int)

namespace Shutdown

/-- `if done != nil { select ... }`. -/
def wait : Option Nat → ShutdownPc
  | .some done => .waiting done
  | .none => .reading

/-- The channel has been closed. -/
def closed (e : Engine) (done : Nat) : Bool := (e.closes[done]?).any (0 < ·)

/-- One step of the call or of the run `i`. -/
def step (i : Nat) (s : Shutdown) : ShutdownAct → Shutdown
  | .call =>
    match s.pc with
    | .cancelling (.some c) done => { s with observed := s.observed.cancel c, pc := wait done }
    | .cancelling .none done => { s with pc := wait done }
    | .waiting done => if closed s.observed.engine done then { s with pc := .reading } else s
    | .reading => { s with pc := .returned (s.observed.engine.verdictResult.any (·.passed)) }
    | .returned _ => s
  | .timeout =>
    match s.pc with
    | .waiting _ => { s with pc := .reading, timedOut := true }
    | _ => s
  | .run event now => { s with observed := s.observed.step (.run i event now) }


/-- The verdict of the run `i` is there, and passes. -/
def RunPassed (o : Observed) (i : Nat) : Prop :=
  ∃ p v, o.outcomes[i]? = .some p ∧ p.verdict = .some v ∧ v.passed = true

/-- If the call has returned, and not on the timer, then the run `i` has
finished and the result is whether its verdict passes. -/
def Reports (i : Nat) (s : Shutdown) : Prop :=
  ∀ passed, s.pc = .returned passed → s.timedOut = false →
    (∃ r, s.observed.engine.runs[i]? = .some r ∧ r.pc = .finished) ∧
      (passed = true ↔ RunPassed s.observed i)

theorem reports_of_ne {i : Nat} {s : Shutdown} (h : ∀ passed, s.pc ≠ .returned passed) : Reports i s :=
  fun passed hpc => absurd hpc (h passed)

/-! ## A call that waits -/

/-- The call has the channel of the run `i`, the last one, and is past its wait
only when that run has finished. -/
structure Waits (i : Nat) (s : Shutdown) : Prop where
  faithful : s.observed.Faithful
  last : i + 1 = s.observed.engine.runs.length
  own : match s.pc with
    | .cancelling _ done => done = .some i
    | .waiting done => done = i
    | .reading => s.timedOut = false → ∃ r, s.observed.engine.runs[i]? = .some r ∧ r.pc = .finished
    | .returned _ => True
  reports : Reports i s

theorem passed_iff {o : Observed} {i : Nat} (h : o.Faithful) (hl : i + 1 = o.engine.runs.length) :
    o.engine.verdictResult.any (·.passed) = true ↔ RunPassed o i := by
  obtain ⟨r, p, -, hp, hleaves⟩ := h.last hl
  rw [hleaves.verdict, Option.any_eq_true]
  simp only [RunPassed, hp, Option.some.injEq, ↓existsAndEq, true_and]

theorem step_finished {o : Observed} {i : Nat} {r : Run} (hr : o.engine.runs[i]? = .some r)
    (hpc : r.pc = .finished) (ev : Event) (now : Int) : o.step (.run i ev now) = o := by
  have hmodify : (o.outcomes.modify i fun p => p) = o.outcomes := List.modify_id i o.outcomes
  simp [Observed.step, Engine.step, hr, hpc, Engine.runLoop, RunOutcome.note, hmodify]

theorem finished_of_closed {o : Observed} {i : Nat} (h : o.Faithful) (hl : i + 1 = o.engine.runs.length)
    (hc : closed o.engine i = true) : ∃ r, o.engine.runs[i]? = .some r ∧ r.pc = .finished := by
  obtain ⟨r, -, hr, -, -⟩ := h.last hl
  refine ⟨r, hr, by_contra fun hpc => ?_⟩
  rw [closed, h.lifecycle.closed_once i r hr, if_neg hpc] at hc
  cases hc

theorem Waits.step {i : Nat} {s : Shutdown} (h : Waits i s) (a : ShutdownAct) :
    Waits i (s.step i a) := by
  obtain ⟨o, pc, timedOut⟩ := s
  obtain ⟨hf, hl, hown, hrep⟩ := h
  cases a with
  | call =>
    cases pc with
    | cancelling cancel done =>
      obtain rfl : done = .some i := hown
      cases cancel with
      | some c =>
        exact ⟨hf.cancel c, hl.trans (o.engine.cancel_length c).symm, rfl,
          reports_of_ne (by simp [Shutdown.step, wait])⟩
      | none => exact ⟨hf, hl, rfl, reports_of_ne (by simp [Shutdown.step, wait])⟩
    | waiting done =>
      obtain rfl : done = i := hown
      simp only [Shutdown.step]
      split
      · next hc => exact ⟨hf, hl, fun _ => finished_of_closed hf hl hc, reports_of_ne (by simp)⟩
      · exact ⟨hf, hl, rfl, hrep⟩
    | reading =>
      refine ⟨hf, hl, trivial, fun passed hpc ht => ⟨hown ht, ?_⟩⟩
      cases hpc
      exact passed_iff hf hl
    | returned passed => exact ⟨hf, hl, trivial, hrep⟩
  | timeout =>
    cases pc with
    | waiting done =>
      exact ⟨hf, hl, fun ht => absurd ht (by simp [Shutdown.step]),
        reports_of_ne (by simp [Shutdown.step])⟩
    | _ => exact ⟨hf, hl, hown, hrep⟩
  | run ev now =>
    by_cases hfin : ∃ r, o.engine.runs[i]? = .some r ∧ r.pc = .finished
    · obtain ⟨r, hr, hpc⟩ := hfin
      rw [Shutdown.step, step_finished hr hpc]
      exact ⟨hf, hl, hown, hrep⟩
    · -- The run goes on, so the call has not come past its wait.
      have hlen : (o.engine.step (.run i ev now)).runs.length = o.engine.runs.length := by
        rcases o.engine.step_run i ev now with he | ⟨r, pc', hr, -, hsec⟩
        · rw [he]
        · exact hsec.length
      refine ⟨hf.section i ev now, hl.trans hlen.symm, ?_,
        fun passed hpc ht => absurd (hrep passed hpc ht).1 hfin⟩
      cases pc with
      | reading => exact fun ht => absurd (hown ht) hfin
      | _ => exact hown

/-- A call that finds the run `i` starting or running waits for it. -/
theorem waits_gracefulShutdown {o : Observed} {i : Nat} (h : o.Faithful)
    (hl : i + 1 = o.engine.runs.length)
    (hst : o.engine.state = .running ∨ o.engine.state = .starting) : Waits i o.gracefulShutdown := by
  simp only [Observed.gracefulShutdown, if_pos hst]
  exact ⟨h, hl, h.lifecycle.current i hl, reports_of_ne (by simp)⟩

theorem Waits.foldl {i : Nat} {s : Shutdown} (h : Waits i s) (steps : List ShutdownAct) :
    Waits i (steps.foldl (Shutdown.step i) s) :=
  Past.Always.invariant (C := fun _ _ => True) h (fun _ a hw _ => hw.step a) fun _ _ _ _ => trivial

end Shutdown

open Shutdown in
/-- **When a graceful shutdown reports the run's verdict.** Called while the run
`i` has not finished, whatever the steps of the run that come between its own: it
returns only after the run has finished (or on the timer), and the result is
whether the run's verdict passes, exactly when it finds the engine in state
starting or running. -/
theorem shutdown_reports_iff (acts : List Act)
    (hs : Past.Always (fun pre a => (Engine.after pre).StartsSettled a) acts) {i : Nat} {r : Run}
    (hr : (Observed.after acts).engine.runs[i]? = .some r) (hlive : r.pc ≠ .finished) :
    (∀ steps : List ShutdownAct, Reports i
      (steps.foldl (step i) (Observed.after acts).gracefulShutdown)) ↔
      (Observed.after acts).engine.state = .running ∨
        (Observed.after acts).engine.state = .starting := by
  have hf := Observed.faithful_after hs
  have hl : i + 1 = (Observed.after acts).engine.runs.length :=
    hf.lifecycle.last hr hlive
  refine ⟨fun h => by_contra fun hst => ?_,
    fun hst steps => ((waits_gracefulShutdown hf hl hst).foldl steps).reports⟩
  -- In any other state it does not wait, and may return at once.
  have hcall := h [.call]
  simp only [Observed.gracefulShutdown, if_neg hst] at hcall
  obtain ⟨r', hr', hpc⟩ := (hcall _ rfl rfl).1
  have hr' : (Observed.after acts).engine.runs[i]? = .some r' := hr'
  rw [hr] at hr'
  cases hr'
  exact hlive hpc


open Shutdown in
/-- A call right after the start of a run waits for it. -/
theorem shutdown_reports_started :
    (Observed.after [.start defaultConfig "a" 0]).engine.state = .starting ∧
      ∀ steps : List ShutdownAct,
        Reports 0 (steps.foldl (step 0)
          (Observed.after [.start defaultConfig "a" 0]).gracefulShutdown) := by
  have hs : Past.Always (fun pre a => (Engine.after pre).StartsSettled a) [.start defaultConfig "a" 0] :=
    (Past.always_snoc (H := [])).mpr ⟨Past.always_nil, fun _ r hr => absurd hr List.not_mem_nil⟩
  exact ⟨rfl, (shutdown_reports_iff _ hs (i := 0) (r := { cfg := defaultConfig }) rfl nofun).mpr
    (.inr rfl)⟩

/-- Every worker has sent what its rate gives in so many seconds, and lost
nothing. -/
def sentFor (seconds : Int) : Snapshots where
  entries := allWorkerNames.map fun name =>
    let sent := .ofInt (seconds * defaultConfig.getWorkerRate name)
    ⟨name, { sent, received := sent }⟩
  nodupKeys := by simp [List.NodupKeys, List.keys, allWorkerNames]

/-- The duration of the defaults. -/
def hour : Int := 3600 * 10 ^ 9

/-- A run of one hour up to the drain of its shutdown. -/
def draining : List Act :=
  [.start defaultConfig "a" 0, .run 0 .next 0, .run 0 .next 0, .run 0 .next 0, .run 0 .next 0,
    .run 0 .next 0, .run 0 .durationReached hour, .run 0 .next hour]

/-- The rest of it. -/
def drained : List Act :=
  [.run 0 (.captured (sentFor 3600)) hour, .run 0 (.sampled 1 false) hour, .run 0 (.ranged .stored) hour,
    .run 0 .next hour, .run 0 .next hour, .run 0 .next hour]

set_option maxRecDepth 20000 in
open Shutdown in
/-- Called during the drain, it returns false at once; the run has not finished,
and passes in the end. -/
theorem shutdown_while_draining :
    (Observed.after draining).engine.state = .stopping ∧
      (Observed.after draining).engine.runs.map (·.pc) = [.capture] ∧
      ((Observed.after draining).gracefulShutdown.step 0 .call).pc = .returned false ∧
      ¬ Reports 0 ((Observed.after draining).gracefulShutdown.step 0 .call) ∧
      (Observed.after (draining ++ drained)).engine.runs.map (·.pc) = [.finished] ∧
      (Observed.after (draining ++ drained)).outcomes.map (fun p => p.verdict.map (·.passed)) =
        [.some true] := by
  have hpc : ((Observed.after draining).engine.runs[0]?).map (·.pc) = .some .capture := by decide +kernel
  have hcall : ((Observed.after draining).gracefulShutdown.step 0 .call).pc = .returned false := by
    decide +kernel
  refine ⟨by decide +kernel, by decide +kernel, hcall, fun h => ?_, by decide +kernel, by decide +kernel⟩
  obtain ⟨r, hr, hfin⟩ := (h false hcall (by decide +kernel)).1
  have hr : (Observed.after draining).engine.runs[0]? = .some r := hr
  rw [hr, Option.map_some, hfin] at hpc
  cases hpc

end Burnin
