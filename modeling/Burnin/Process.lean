/-
The program as a whole (`burnin/main.go`): the main goroutine, from the point at
which the server is up to `os.Exit`, against the requests that the server serves
and the sections of the runs.

The exit code is decided from two reads of the engine's verdict, the first of
them at the end of `GracefulShutdown`. `Phase` says what each place of the main
goroutine knows about those reads; it is kept by every step that starts no run
behind the back of the shutdown (`Orderly`). `Alone` follows a `-run` invocation
that nobody disturbs.
-/
import Burnin.Shutdown
import Burnin.Consistent

namespace Burnin

/-- How the program was invoked: the configuration that it loaded, and `-run`. -/
structure Invocation where
  cfg : Config
  autoRun : Bool

/-- Where the main goroutine is, after the server has been started. -/
inductive MainPc where
  /-- before `if *runFlag` -/
  | launching
  /-- in `waitForExit` -/
  | waiting
  /-- before the first section of `GracefulShutdown` -/
  | leaving
  | shuttingDown (pc : ShutdownPc)
  | exited (code : Nat)
  deriving DecidableEq

structure Process where
  observed : Observed := {}
  pc : MainPc := .launching
  /-- the state that `GracefulShutdown` found the engine in -/
  found : Option State := .none
  /-- the timer of `GracefulShutdown` fired -/
  timedOut : Bool := false

inductive ProcessAct where
  /-- `if *runFlag`, with the id and the time of the run that it starts -/
  | launch (randomID : String) (now : Int)
  /-- `waitForExit` receives a signal -/
  | signal
  /-- `waitForExit` receives a tick -/
  | tick
  /-- the next section of the main goroutine, from `GracefulShutdown` on -/
  | main
  | timeout
  /-- a request to the server, or a section of a run -/
  | engine (act : Act)

/-- `HasWarnings`. -/
def Engine.hasWarnings (e : Engine) : Bool := e.verdictResult.any (·.result = .passedWithWarnings)

namespace Process

/-- The call of `GracefulShutdown`, for its own steps. -/
def shutdown (p : Process) (pc : ShutdownPc) : Shutdown :=
  { observed := p.observed, pc, timedOut := p.timedOut }

/-- The process after a step of the call. -/
def ofShutdown (p : Process) (s : Shutdown) : Process :=
  { p with observed := s.observed, pc := .shuttingDown s.pc, timedOut := s.timedOut }

/-- One step. A goroutine that waits for something else stays where it is. -/
def step (inv : Invocation) (p : Process) : ProcessAct → Process
  | .launch randomID now =>
    match p.pc with
    | .launching =>
      if inv.autoRun then
        match p.observed.engine.startRunFromConfig inv.cfg randomID now with
        | .ok _ => { p with observed := p.observed.step (.start inv.cfg randomID now), pc := .waiting }
        | .error _ => { p with pc := .exited 1 }
      else { p with pc := .waiting }
    | _ => p
  | .signal =>
    match p.pc with
    | .waiting => { p with pc := .leaving }
    | _ => p
  | .tick =>
    match p.pc with
    | .waiting =>
      if inv.autoRun ∧ inv.cfg.durationParsed > 0 ∧
          (p.observed.engine.state = .stopped ∨ p.observed.engine.state = .error) then
        { p with pc := .leaving }
      else p
    | _ => p
  | .main =>
    match p.pc with
    | .leaving =>
      { p.ofShutdown p.observed.gracefulShutdown with found := .some p.observed.engine.state }
    | .shuttingDown (.returned passed) =>
      { p with pc := .exited (if !passed then 1 else if p.observed.engine.hasWarnings then 2 else 0) }
    | .shuttingDown pc => p.ofShutdown ((p.shutdown pc).step 0 .call)
    | _ => p
  | .timeout =>
    match p.pc with
    | .shuttingDown pc => p.ofShutdown ((p.shutdown pc).step 0 .timeout)
    | _ => p
  | .engine act =>
    match p.pc with
    | .exited _ => p
    | _ => { p with observed := p.observed.step act }

def after (inv : Invocation) (acts : List ProcessAct) : Process := acts.foldl (step inv) {}

theorem after_append (inv : Invocation) (acts more : List ProcessAct) :
    after inv (acts ++ more) = more.foldl (step inv) (after inv acts) := List.foldl_append

end Process

/-! ## The exit code -/

namespace Process

/-- The code for a verdict. -/
def exitCode : Option VerdictResult → Nat
  | .none => 1
  | .some v =>
    match v.result with
    | .passed => 0
    | .passedWithWarnings => 2
    | .failed => 1

/-- `GracefulShutdown` was called, found no run between its measurement and its
end, and did not wait in vain. -/
def Waited (p : Process) : Prop := (∃ s, p.found = .some s ∧ s ≠ .stopping) ∧ p.timedOut = false

/-- What the main goroutine knows at each place. -/
def Phase (p : Process) : Prop :=
  match p.pc with
  | .launching => p.found = .none
  | .waiting | .leaving => True
  | .shuttingDown (.cancelling cancel done) =>
    ∃ i, i + 1 = p.observed.engine.runs.length ∧ cancel = .some i ∧ done = .some i
  | .shuttingDown (.waiting done) =>
    ∃ r, p.observed.engine.runs[done]? = .some r ∧ done + 1 = p.observed.engine.runs.length ∧
      r.cancelled = true
  | .shuttingDown .reading => p.Waited → p.observed.engine.Final
  | .shuttingDown (.returned passed) =>
    p.observed.engine.Final ∧ passed = p.observed.engine.verdictResult.any (·.passed) ∨
      passed = false ∧ ¬ p.Waited
  | .exited code =>
    p.observed.engine.Final ∧ code = exitCode p.observed.engine.verdictResult ∨ code = 1 ∧ ¬ p.Waited

/-- A step that starts no run while another has not closed its channel, and none
once `GracefulShutdown` has looked at the engine. -/
def Orderly (p : Process) : ProcessAct → Prop
  | .launch _ _ => p.pc = .launching → p.observed.engine.canStart = true → p.observed.engine.Settled
  | .engine act =>
    p.observed.engine.StartsSettled act ∧
      ((∃ pc, p.pc = .shuttingDown pc) → ¬ p.observed.engine.Accepts act)
  | _ => True

structure Invariant (p : Process) : Prop where
  consistent : p.observed.Consistent
  phase : p.Phase

theorem code_of_verdict {e : Engine} (h : ∀ v, e.verdictResult = .some v → v.Coherent) :
    (if !e.verdictResult.any (·.passed) then 1 else if e.hasWarnings then 2 else 0) =
      exitCode e.verdictResult := by
  unfold Engine.hasWarnings exitCode
  cases hv : e.verdictResult with
  | none => rfl
  | some v =>
    have hcoherent : v.passed = true ↔ v.result ≠ .failed := h v hv
    cases hres : v.result <;> simp_all

theorem Invariant.gracefulShutdown {p : Process} (h : p.Invariant) :
    Invariant { p.ofShutdown p.observed.gracefulShutdown with
      found := .some p.observed.engine.state } := by
  refine ⟨h.consistent, ?_⟩
  have hlife := h.consistent.faithful.lifecycle
  simp only [ofShutdown, Observed.gracefulShutdown, Phase]
  split_ifs with hst
  · -- A run is under way, so the engine is not as `New` made it.
    have hruns : p.observed.engine.runs ≠ [] := by
      intro hnone
      rw [h.consistent.fresh hnone] at hst
      simp at hst
    have hpos := List.length_pos_iff.mpr hruns
    have hlast : p.observed.engine.runs.length - 1 + 1 = p.observed.engine.runs.length := by omega
    exact ⟨_, hlast, h.consistent.cancels _ hlast, hlife.current _ hlast⟩
  · intro hw
    obtain ⟨⟨s, hs, hne⟩, -⟩ := hw
    cases hs
    exact h.consistent.final_of_state (fun hr => hst (.inl hr)) (fun hr => hst (.inr hr)) hne

theorem Phase.read {p : Process} (hc : p.observed.Consistent) (h : p.Waited → p.observed.engine.Final) :
    p.observed.engine.Final ∧
        p.observed.engine.verdictResult.any (·.passed) = p.observed.engine.verdictResult.any (·.passed) ∨
      p.observed.engine.verdictResult.any (·.passed) = false ∧ ¬ p.Waited := by
  by_cases hw : p.Waited
  · exact .inl ⟨h hw, rfl⟩
  · cases hv : p.observed.engine.verdictResult with
    | none => exact .inr ⟨rfl, hw⟩
    | some v => exact .inl ⟨hc.final_of_verdict hv, rfl⟩

theorem Invariant.call {p : Process} (h : p.Invariant) {pc : ShutdownPc} (hpc : p.pc = .shuttingDown pc)
    (hnot : ∀ passed, pc ≠ .returned passed) :
    (p.ofShutdown ((p.shutdown pc).step 0 .call)).Invariant := by
  obtain ⟨hc, hphase⟩ := h
  simp only [Phase, hpc] at hphase
  cases pc with
  | cancelling cancel done =>
    obtain ⟨i, hlast, rfl, rfl⟩ := hphase
    refine ⟨hc.cancel i, ?_⟩
    obtain ⟨r, -, hr, -, -⟩ := hc.faithful.last hlast
    refine ⟨{ r with cancelled := true }, ?_, ?_, rfl⟩
    · simp [ofShutdown, shutdown, Shutdown.step, Observed.cancel, Engine.cancel_runs, hr]
    · simp [ofShutdown, shutdown, Shutdown.step, Observed.cancel, hlast]
  | waiting done =>
    obtain ⟨r, hr, hlast, hcancelled⟩ := hphase
    have hstep : (p.shutdown (.waiting done)).step 0 .call =
        if Shutdown.closed p.observed.engine done then p.shutdown .reading
        else p.shutdown (.waiting done) := rfl
    rw [hstep]
    split
    · next hclosed =>
      refine ⟨hc, fun _ => .of_last hc.faithful.lifecycle fun i r' hr' hl => ?_⟩
      obtain rfl : i = done := by
        have hl : i + 1 = p.observed.engine.runs.length := hl
        omega
      obtain ⟨r₀, hr₀, hfin⟩ := Shutdown.finished_of_closed hc.faithful hlast hclosed
      cases hr₀.symm.trans hr'
      rw [hfin]
      rfl
    · exact ⟨hc, r, hr, hlast, hcancelled⟩
  | reading => exact ⟨hc, Phase.read hc hphase⟩
  | returned passed => exact absurd rfl (hnot passed)

theorem Invariant.exit {p : Process} (h : p.Invariant) {passed : Bool}
    (hpc : p.pc = .shuttingDown (.returned passed)) :
    Invariant { p with
      pc := .exited (if !passed then 1 else if p.observed.engine.hasWarnings then 2 else 0) } := by
  obtain ⟨hc, hphase⟩ := h
  simp only [Phase, hpc] at hphase
  refine ⟨hc, ?_⟩
  rcases hphase with ⟨hfinal, rfl⟩ | ⟨rfl, hw⟩
  · exact .inl ⟨hfinal, code_of_verdict hc.coherent⟩
  · exact .inr ⟨rfl, hw⟩

theorem Invariant.timeout {p : Process} (h : p.Invariant) {pc : ShutdownPc}
    (hpc : p.pc = .shuttingDown pc) :
    (p.ofShutdown ((p.shutdown pc).step 0 .timeout)).Invariant := by
  obtain ⟨hc, hphase⟩ := h
  simp only [Phase, hpc] at hphase
  cases pc with
  | waiting done => exact ⟨hc, fun hw => absurd hw.2 (by simp [ofShutdown, Shutdown.step, shutdown])⟩
  | _ => exact ⟨hc, hphase⟩

theorem Invariant.engine {p : Process} (h : p.Invariant) {act : Act} (ha : p.Orderly (.engine act))
    (hpc : ∀ code, p.pc ≠ .exited code) : Invariant { p with observed := p.observed.step act } := by
  obtain ⟨hc, hphase⟩ := h
  obtain ⟨hsettled, hquiet⟩ := ha
  refine ⟨hc.step hsettled, ?_⟩
  obtain ⟨o, pc, found, timedOut⟩ := p
  cases pc with
  | launching => exact hphase
  | waiting | leaving => trivial
  | exited code => exact absurd rfl (hpc code)
  | shuttingDown pc =>
    have hno : ¬ o.engine.Accepts act := hquiet ⟨pc, rfl⟩
    have hlen : (o.engine.step act).runs.length = o.engine.runs.length := Engine.length_step hno
    cases pc with
    | cancelling cancel done =>
      obtain ⟨i, hlast, hcancel, hdone⟩ := hphase
      exact ⟨i, hlast.trans hlen.symm, hcancel, hdone⟩
    | waiting done =>
      obtain ⟨r, hr, hlast, hcancelled⟩ := hphase
      obtain ⟨r', hr', hc'⟩ := Engine.cancelled_step hno hr hcancelled
      exact ⟨r', hr', hlast.trans hlen.symm, hc'⟩
    | reading => exact fun hw => ((hphase hw).step hno).1
    | returned passed =>
      rcases hphase with ⟨hfinal, hpassed⟩ | hnot
      · obtain ⟨hfinal', hv⟩ := hfinal.step hno
        exact .inl ⟨hfinal', by rw [Observed.step_engine, hv]; exact hpassed⟩
      · exact .inr hnot

theorem Invariant.launch {inv : Invocation} {p : Process} (h : p.Invariant)
    {randomID : String} {now : Int} (ha : p.Orderly (.launch randomID now)) :
    (p.step inv (.launch randomID now)).Invariant := by
  obtain ⟨o, pc, found, timedOut⟩ := p
  cases pc with
  | launching =>
    obtain rfl : found = .none := h.phase
    simp only [Process.step]
    split
    · split
      · exact ⟨h.consistent.step (ha rfl), trivial⟩
      · exact ⟨h.consistent, .inr ⟨rfl, by simp [Waited]⟩⟩
    · exact ⟨h.consistent, trivial⟩
  | _ => exact h

theorem Invariant.step {inv : Invocation} {p : Process} (h : p.Invariant) {a : ProcessAct}
    (ha : p.Orderly a) : (p.step inv a).Invariant := by
  cases a with
  | launch randomID now => exact h.launch ha
  | signal =>
    simp only [Process.step]
    split
    · exact ⟨h.consistent, trivial⟩
    · exact h
  | tick =>
    simp only [Process.step]
    split
    · split
      · exact ⟨h.consistent, trivial⟩
      · exact h
    · exact h
  | main =>
    simp only [Process.step]
    split
    · exact h.gracefulShutdown
    · next passed hpc => exact h.exit hpc
    · next pc hnot hpc => exact h.call hpc hnot
    · exact h
  | timeout =>
    simp only [Process.step]
    split
    · next pc hpc => exact h.timeout hpc
    · exact h
  | engine act =>
    simp only [Process.step]
    split
    · exact h
    · next hpc => exact h.engine ha hpc

theorem invariant_after {inv : Invocation} {acts : List ProcessAct}
    (h : Past.Always (fun pre a => (after inv pre).Orderly a) acts) : (after inv acts).Invariant :=
  Past.Always.invariant (C := Orderly) ⟨Observed.consistent_new, rfl⟩ (fun _ _ hi ha => hi.step ha) h

end Process

/-! ## A `-run` that is left alone -/


/-- No signal comes, and no request for another run. -/
def ProcessAct.Unattended : ProcessAct → Prop
  | .signal => False
  | .engine (.start _ _ _) => False
  | _ => True

namespace Process

/-- One run has been started, of the configuration that the program loaded, and
the shutdown did not have to wait for it. -/
structure Ran (inv : Invocation) (p : Process) : Prop where
  ended : p.observed.engine.Ended
  cfgs : p.observed.outcomes.map (·.cfg) = [inv.cfg]
  found : ∀ s, p.found = .some s → s ≠ .stopping
  inTime : p.timedOut = false

/-- Where an unattended program is. -/
def Alone (inv : Invocation) (p : Process) : Prop :=
  match p.pc with
  | .launching => p.observed.engine.runs = [] ∧ p.found = .none ∧ p.timedOut = false ∧
      p.observed.outcomes = []
  | .waiting => p.observed.outcomes.map (·.cfg) = [inv.cfg] ∧ p.found = .none ∧ p.timedOut = false
  | .leaving => p.Ran inv
  | .shuttingDown pc => p.Ran inv ∧ p.found.isSome = true ∧
      (pc = .reading ∨ ∃ passed, pc = .returned passed)
  | .exited _ => p.Ran inv ∧ p.found.isSome = true

theorem not_accepts_of_unattended {e : Engine} {act : Act}
    (h : (ProcessAct.engine act).Unattended) : ¬ e.Accepts act := by
  cases act with
  | start cfg randomID now => exact absurd h id
  | _ => exact id

theorem orderly_of_alone {inv : Invocation} {p : Process} (h : p.Alone inv) {a : ProcessAct}
    (ha : a.Unattended) : p.Orderly a := by
  cases a with
  | launch randomID now =>
    intro hpc _ r hr
    simp only [Alone, hpc] at h
    rw [h.1] at hr
    exact absurd hr List.not_mem_nil
  | engine act =>
    refine ⟨?_, fun _ => not_accepts_of_unattended ha⟩
    cases act with
    | start cfg randomID now => exact absurd ha id
    | _ => trivial
  | _ => trivial

theorem Ran.engine {inv : Invocation} {p : Process} (h : p.Ran inv)
    (hc : p.observed.Consistent) {act : Act} (hno : ¬ p.observed.engine.Accepts act) :
    Ran inv { p with observed := p.observed.step act } :=
  ⟨h.ended.step hc.faithful.lifecycle hno, (Observed.cfgs_step hno).trans h.cfgs, h.found, h.inTime⟩

theorem Alone.engine {inv : Invocation} {p : Process} (h : p.Alone inv)
    (hc : p.observed.Consistent) {act : Act} (ha : (ProcessAct.engine act).Unattended)
    (hpc : ∀ code, p.pc ≠ .exited code) :
    Alone inv { p with observed := p.observed.step act } := by
  obtain ⟨o, pc, found, timedOut⟩ := p
  have hno : ¬ o.engine.Accepts act := not_accepts_of_unattended ha
  cases pc with
  | launching =>
    obtain ⟨hruns, hfound, htime, hout⟩ := h
    refine ⟨?_, hfound, htime, ?_⟩
    · have hlen := Engine.length_step hno
      have hruns : o.engine.runs = [] := hruns
      rw [hruns] at hlen
      exact List.length_eq_zero_iff.mp hlen
    · have hcfgs := Observed.cfgs_step hno
      have hout : o.outcomes = [] := hout
      rw [hout] at hcfgs
      exact List.map_eq_nil_iff.mp hcfgs
  | waiting =>
    obtain ⟨hcfgs, hrest⟩ := h
    exact ⟨(Observed.cfgs_step hno).trans hcfgs, hrest⟩
  | leaving => exact Ran.engine h hc hno
  | shuttingDown pc =>
    obtain ⟨hran, hrest⟩ := h
    exact ⟨hran.engine hc hno, hrest⟩
  | exited code => exact absurd rfl (hpc code)

theorem Alone.launch {inv : Invocation} {p : Process} (h : p.Alone inv) (hc : p.observed.Consistent)
    (hauto : inv.autoRun = true) (randomID : String) (now : Int) :
    Alone inv (p.step inv (.launch randomID now)) := by
  obtain ⟨o, pc, found, timedOut⟩ := p
  cases pc with
  | launching =>
    obtain ⟨hruns, hfound, htime, hout⟩ := h
    -- The engine is as `New` made it, so the start is accepted.
    have hcan : o.engine.canStart = true := by
      rw [hc.fresh hruns]
      rfl
    have hout : o.outcomes = [] := hout
    simp only [Process.step, hauto, if_true, Engine.startRunFromConfig, hcan]
    exact ⟨by simp [Observed.step, hcan, hout], hfound, htime⟩
  | _ => exact h

theorem Alone.main {inv : Invocation} {p : Process} (h : p.Alone inv) :
    Alone inv (p.step inv .main) := by
  obtain ⟨o, pc, found, timedOut⟩ := p
  cases pc with
  | leaving =>
    have hran : Ran inv ⟨o, .leaving, found, timedOut⟩ := h
    have hnot : ¬ (o.engine.state = .running ∨ o.engine.state = .starting) := by
      rcases hran.ended with hst | hst <;> rw [show o.engine.state = _ from hst] <;> simp
    have hne : o.engine.state ≠ .stopping := by
      rcases hran.ended with hst | hst <;> rw [show o.engine.state = _ from hst] <;> simp
    refine ⟨⟨hran.ended, hran.cfgs, fun s hs => ?_, rfl⟩, rfl, .inl (if_neg hnot)⟩
    cases hs
    exact hne
  | shuttingDown pc =>
    obtain ⟨hran, hfound, hpc⟩ := h
    rcases hpc with rfl | ⟨passed, rfl⟩
    · exact ⟨⟨hran.ended, hran.cfgs, hran.found, hran.inTime⟩, hfound, .inr ⟨_, rfl⟩⟩
    · exact ⟨⟨hran.ended, hran.cfgs, hran.found, hran.inTime⟩, hfound⟩
  | _ => exact h

theorem Alone.step {inv : Invocation} {p : Process} (h : p.Alone inv) (hc : p.observed.Consistent)
    (hauto : inv.autoRun = true) {a : ProcessAct} (ha : a.Unattended) : Alone inv (p.step inv a) := by
  cases a with
  | launch randomID now => exact h.launch hc hauto randomID now
  | signal => exact absurd ha id
  | tick =>
    obtain ⟨o, pc, found, timedOut⟩ := p
    cases pc with
    | waiting =>
      obtain ⟨hcfgs, hfound, htime⟩ := h
      simp only [Process.step]
      split_ifs with hended
      · refine ⟨hended.2.2, hcfgs, fun s hs => ?_, htime⟩
        cases hfound.symm.trans hs
      · exact ⟨hcfgs, hfound, htime⟩
    | _ => exact h
  | main => exact h.main
  | timeout =>
    obtain ⟨o, pc, found, timedOut⟩ := p
    cases pc with
    | shuttingDown pc =>
      obtain ⟨hran, hfound, hpc⟩ := h
      rcases hpc with rfl | ⟨passed, rfl⟩
      · exact ⟨hran, hfound, .inl rfl⟩
      · exact ⟨hran, hfound, .inr ⟨passed, rfl⟩⟩
    | _ => exact h
  | engine act =>
    simp only [Process.step]
    split
    · exact h
    · next hpc => exact h.engine hc ha hpc

theorem alone_after {inv : Invocation} (hauto : inv.autoRun = true) {acts : List ProcessAct}
    (h : ∀ a ∈ acts, a.Unattended) : (after inv acts).Invariant ∧ (after inv acts).Alone inv := by
  have hacts : Past.Always (fun _ (a : ProcessAct) => a.Unattended) acts :=
    fun pre a post he => h a (by rw [he]; simp)
  have h₀ : Invariant {} ∧ Alone inv {} := ⟨⟨Observed.consistent_new, rfl⟩, rfl, rfl, rfl, rfl⟩
  refine Past.Always.invariant (I := fun p : Process => p.Invariant ∧
    p.Alone inv) (C := fun _ a => a.Unattended)
    h₀ (fun p a hp ha => ?_) hacts
  exact ⟨hp.1.step (orderly_of_alone hp.2 ha), hp.2.step hp.1.consistent hauto ha⟩

theorem orderly_unattended {inv : Invocation} (hauto : inv.autoRun = true) {acts : List ProcessAct}
    (h : ∀ a ∈ acts, a.Unattended) : Past.Always (fun pre a => (after inv pre).Orderly a) acts := by
  intro pre a post he
  have hpre : ∀ b ∈ pre, b.Unattended := fun b hb => h b (by rw [he]; simp [hb])
  exact orderly_of_alone (alone_after hauto hpre).2 (h a (by rw [he]; simp))

end Process

/-- The program with the defaults and `-run`. -/
def defaultRun : Invocation := ⟨defaultConfig, true⟩

/-- It runs its hour, sees at the next tick that the run is over, and leaves. -/
def unattendedHour : List ProcessAct :=
  .launch "a" 0 :: ((draining ++ drained).tail.map .engine ++ [.tick, .main, .main, .main])

theorem unattended_unattendedHour : ∀ a ∈ unattendedHour, a.Unattended := by
  simp [unattendedHour, draining, drained, ProcessAct.Unattended]

set_option maxRecDepth 20000 in
theorem exited_unattendedHour : (Process.after defaultRun unattendedHour).pc = .exited 0 := by
  decide +kernel

open Process in
/-- **The exit code is the last run's verdict**, once the server is up. Whatever
the order of requests, signals, ticks and sections, if every run started finds the
done channels of the earlier ones closed, and none is started once
`GracefulShutdown` has looked at the engine: the program exits with 0, 2 or 1 as
the verdict of the last run started is PASSED, PASSED_WITH_WARNINGS or FAILED (or
there is none), and no run is left that could still change it. The only other
exits are with code 1, when the run that `-run` asks for is refused, when the
shutdown finds a run between its measurement and its end, or when it times out. -/
theorem exit_code_of_last_run (inv : Invocation) {acts : List ProcessAct}
    (h : Past.Always (fun pre a => (after inv pre).Orderly a) acts) {code : Nat}
    (hexit : (after inv acts).pc = .exited code) :
    (code = exitCode (after inv acts).observed.lastVerdict ∧ (after inv acts).observed.engine.Final) ∨
      code = 1 ∧ ((after inv acts).found = .none ∨ (after inv acts).found = .some .stopping ∨
        (after inv acts).timedOut = true) := by
  obtain ⟨hc, hphase⟩ := invariant_after h
  simp only [Phase, hexit] at hphase
  rcases hphase with ⟨hfinal, hcode⟩ | ⟨hcode, hw⟩
  · exact .inl ⟨by rw [hc.lastVerdict]; exact hcode, hfinal⟩
  · refine .inr ⟨hcode, ?_⟩
    simp only [Waited, not_and_or, not_exists, not_not, Bool.not_eq_false] at hw
    rcases hw with hfound | htimeout
    · cases hf : (after inv acts).found with
      | none => exact .inl rfl
      | some s => exact .inr (.inl (by rw [(hfound s).resolve_left (fun hne => hne hf)]))
    · exact .inr (.inr htimeout)

open Process in
theorem exit_code_unattendedHour :
    (after defaultRun unattendedHour).pc = .exited 0 ∧
      ((0 = exitCode (after defaultRun unattendedHour).observed.lastVerdict ∧
          (after defaultRun unattendedHour).observed.engine.Final) ∨
        0 = 1 ∧ ((after defaultRun unattendedHour).found = .none ∨
          (after defaultRun unattendedHour).found = .some .stopping ∨
          (after defaultRun unattendedHour).timedOut = true)) :=
  ⟨exited_unattendedHour,
    exit_code_of_last_run defaultRun
      (orderly_unattended rfl unattended_unattendedHour) exited_unattendedHour⟩

open Process in
/-- **A bounded run that is left alone decides the exit code.** With `-run` and
no signal and no other start, whatever the sections of the run, ticks and stop
requests come in between: if the program exits, it has run exactly one run, of
the configuration it loaded, that run has published that it is over, and the
code is that of the run's verdict. -/
theorem unattended_exit_code (inv : Invocation) (hauto : inv.autoRun = true) {acts : List ProcessAct}
    (h : ∀ a ∈ acts, a.Unattended) {code : Nat} (hexit : (after inv acts).pc = .exited code) :
    ∃ p, (after inv acts).observed.outcomes = [p] ∧ p.cfg = inv.cfg ∧
      (after inv acts).observed.engine.Ended ∧
      code = exitCode p.verdict := by
  obtain ⟨⟨hc, hphase⟩, halone⟩ := alone_after hauto h
  simp only [Phase, hexit] at hphase
  simp only [Alone, hexit] at halone
  obtain ⟨hran, hfound⟩ := halone
  obtain ⟨s, hs⟩ := Option.isSome_iff_exists.mp hfound
  obtain ⟨p, hp, hcfg⟩ := List.map_eq_singleton_iff.mp hran.cfgs
  have hwaited : (after inv acts).Waited := ⟨⟨s, hs, hran.found s hs⟩, hran.inTime⟩
  have hlast : (after inv acts).observed.lastVerdict = p.verdict := by
    rw [Observed.lastVerdict, hp]
    rfl
  rcases hphase with ⟨-, hcode⟩ | ⟨-, hnot⟩
  · exact ⟨p, hp, hcfg, hran.ended, by rw [hcode, ← hlast, hc.lastVerdict]⟩
  · exact absurd hwaited hnot

open Process in
theorem unattended_exit_unattendedHour :
    ∃ p, (after defaultRun unattendedHour).observed.outcomes = [p] ∧ p.cfg = defaultConfig ∧
      (after defaultRun unattendedHour).observed.engine.Ended ∧ 0 = exitCode p.verdict :=
  unattended_exit_code defaultRun rfl unattended_unattendedHour exited_unattendedHour

end Burnin
