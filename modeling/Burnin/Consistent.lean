/-
What the steps of the engine do to its verdict, on which the exit code rests.

`step_cases` says what a step can do that accepts no start: nothing, a
cancellation, or a section of a run. From it: once every run is past its verdict
(`Final`), the engine's verdict stays until the next start, and so does the state
once the last run has published that it is over (`Ended`). `Consistent` collects
what holds besides `Faithful` of every engine that settled starts have reached.
-/
import Burnin.Outcome
import Burnin.VerdictFacts

namespace Burnin

/-- A verdict's two fields say the same. -/
def VerdictResult.Coherent (v : VerdictResult) : Prop := v.passed = true ↔ v.result ≠ .failed

theorem computeVerdict_coherent (cfg : Config) (d : Int) (baseline peak : UInt64)
    (snaps : List (Sigma fun _ : WorkerName => WorkerSnapshot)) :
    (computeVerdict cfg d baseline peak snaps).Coherent := by
  simp only [VerdictResult.Coherent, computeVerdict, foldl_fail]
  split <;> split <;> simp

/-- A section of a run keeps `runCancel`, and writes the verdict in the section
of that name only. -/
theorem Engine.runLoop_verdict {e e' : Engine} {i : Nat} {r : Run} {now : Int} {pc : Pc} {ev : Event}
    (h : e.runLoop i r now pc ev = .some e') :
    e'.runCancel = e.runCancel ∧
      (e'.verdictResult = e.verdictResult ∨
        pc.judged = false ∧ ∃ v : VerdictResult, e'.verdictResult = .some v ∧ v.Coherent) := by
  unfold Engine.runLoop at h
  split at h
  case h_8 | h_9 =>
    split at h
    · cases h
      exact ⟨rfl, .inl rfl⟩
    · cases h
  case h_13 =>
    cases h
    exact ⟨rfl, .inr ⟨rfl, _, rfl, computeVerdict_coherent _ _ _ _ _⟩⟩
  case h_16 done =>
    cases h
    cases done <;> exact ⟨rfl, .inl rfl⟩
  case h_17 => cases h
  all_goals
    cases h
    exact ⟨rfl, .inl rfl⟩

/-- A place between publishing and closing. -/
def Pc.unsettled : Pc → Bool
  | .deferred | .closing _ => true
  | _ => false

instance (e : Engine) : Decidable e.Settled :=
  decidable_of_iff (∀ r ∈ e.runs, r.pc.unsettled = false) <| forall₂_congr fun r _ => by
    cases r.pc <;> simp [Pc.unsettled]

instance (e : Engine) (a : Act) : Decidable (e.StartsSettled a) :=
  match a with
  | .start _ _ _ => inferInstanceAs (Decidable (_ → _))
  | .stop | .run _ _ _ => .isTrue trivial

/-- A step that accepts a start. -/
def Engine.Accepts (e : Engine) : Act → Prop
  | .start _ _ _ => e.canStart = true
  | _ => False

/-- What a step does that accepts no start. -/
theorem Engine.step_cases {e : Engine} {a : Act} (h : ¬ e.Accepts a) :
    e.step a = e ∨ (∃ c, e.step a = e.cancel c) ∨
      ∃ (i : Nat) (r : Run) (ev : Event) (now : Int) (pc : Pc), e.runs[i]? = .some r ∧
        e.runLoop i r now r.pc ev = .some (e.step a) ∧ r.pc.Goes r.cancelled ev pc ∧
          Section e (e.step a) i r pc := by
  cases a with
  | start cfg randomID now =>
    have hc : ¬ e.canStart = true := h
    exact .inl (by simp [Engine.step, Engine.startRunFromConfig, hc])
  | stop =>
    rcases e.step_stop with he | he
    · exact .inl he
    · exact .inr (.inl he)
  | run i ev now =>
    cases hr : e.runs[i]? with
    | none => exact .inl (by simp [Engine.step, hr])
    | some r =>
      cases hl : e.runLoop i r now r.pc ev with
      | none => exact .inl (by simp [Engine.step, hr, hl])
      | some e' =>
        have hstep : e.step (.run i ev now) = e' := by simp [Engine.step, hr, hl]
        rw [hstep]
        obtain ⟨pc, hg, hs⟩ := Engine.runLoop_goes hr hl
        exact .inr (.inr ⟨i, r, ev, now, pc, hr, hl, hg, hs⟩)

/-- No run is before its verdict any more. -/
def Engine.Final (e : Engine) : Prop := ∀ r ∈ e.runs, r.pc.judged = true

theorem Engine.Final.of_last {e : Engine} (h : e.Lifecycle)
    (hlast : ∀ (i : Nat) (r : Run), e.runs[i]? = .some r → i + 1 = e.runs.length →
      r.pc.judged = true) : e.Final := by
  intro r hr
  obtain ⟨i, hi⟩ := List.getElem?_of_mem hr
  by_cases hl : i + 1 = e.runs.length
  · exact hlast i r hi hl
  · rw [h.earlier i r hi hl]
    rfl

theorem Engine.Final.step {e : Engine} {a : Act} (h : e.Final) (hno : ¬ e.Accepts a) :
    (e.step a).Final ∧ (e.step a).verdictResult = e.verdictResult := by
  rcases Engine.step_cases hno with he | ⟨c, he⟩ | ⟨i, r, ev, now, pc, hr, hl, hg, hs⟩
  · rw [he]
    exact ⟨h, rfl⟩
  · rw [he]
    refine ⟨fun r' hr' => ?_, rfl⟩
    obtain ⟨j, hj⟩ := List.getElem?_of_mem hr'
    rw [Engine.cancel_runs, Option.map_eq_some_iff] at hj
    obtain ⟨r, hr, rfl⟩ := hj
    exact h r (List.mem_of_getElem? hr)
  · have hjudged := h r (List.mem_of_getElem? hr)
    refine ⟨fun r' hr' => ?_, ?_⟩
    · obtain ⟨j, hj⟩ := List.getElem?_of_mem hr'
      rw [hs.runs] at hj
      split at hj
      · cases hj
        exact hg.judged hjudged
      · exact h r' (List.mem_of_getElem? hj)
    · rcases (Engine.runLoop_verdict hl).2 with hv | ⟨hnot, -⟩
      · exact hv
      · rw [hjudged] at hnot
        cases hnot

theorem Engine.length_step {e : Engine} {a : Act} (hno : ¬ e.Accepts a) :
    (e.step a).runs.length = e.runs.length := by
  rcases Engine.step_cases hno with he | ⟨c, he⟩ | ⟨i, r, ev, now, pc, hr, hl, hg, hs⟩
  · rw [he]
  · rw [he, Engine.cancel_length]
  · exact hs.length

theorem Engine.cancelled_step {e : Engine} {a : Act} (hno : ¬ e.Accepts a) {i : Nat} {r : Run}
    (hr : e.runs[i]? = .some r) (hc : r.cancelled = true) :
    ∃ r', (e.step a).runs[i]? = .some r' ∧ r'.cancelled = true := by
  rcases Engine.step_cases hno with he | ⟨c, he⟩ | ⟨j, s, ev, now, pc, hj, hl, hg, hs⟩
  · exact ⟨r, by rw [he]; exact hr, hc⟩
  · exact ⟨{ r with cancelled := r.cancelled || decide (c = i) },
      by rw [he, Engine.cancel_runs, hr]; rfl, by simp [hc]⟩
  · rw [hs.runs]
    split
    · next hij =>
      subst hij
      cases hr.symm.trans hj
      exact ⟨_, rfl, hc⟩
    · exact ⟨r, hr, hc⟩

namespace Observed

/-- What the exit code rests on, besides `Faithful`: an engine that has started
no run is as `New` made it, its verdict is coherent, and `runCancel` is the last
run's. -/
structure Consistent (o : Observed) : Prop where
  faithful : o.Faithful
  fresh : o.engine.runs = [] → o.engine = {}
  coherent : ∀ v, o.engine.verdictResult = .some v → v.Coherent
  cancels : ∀ i, i + 1 = o.engine.runs.length → o.engine.runCancel = .some i

theorem consistent_new : Consistent {} := ⟨faithful_new, fun _ => rfl, by simp, by simp⟩

theorem Consistent.cancel {o : Observed} (h : o.Consistent) (c : Nat) : (o.cancel c).Consistent := by
  refine ⟨h.faithful.cancel c, fun hn => ?_, h.coherent, fun i hi => h.cancels i ?_⟩
  · have hnone : o.engine.runs = [] := by simpa [Observed.cancel, Engine.cancel] using hn
    simp [Observed.cancel, h.fresh hnone, Engine.cancel]
  · rw [hi]
    exact o.engine.cancel_length c

theorem Consistent.step {o : Observed} (h : o.Consistent) {a : Act} (ha : o.engine.StartsSettled a) :
    (o.step a).Consistent := by
  by_cases hacc : o.engine.Accepts a
  · cases a with
    | start cfg randomID now =>
      have hc : o.engine.canStart = true := hacc
      refine ⟨h.faithful.step ha, ?_, ?_, ?_⟩ <;>
        simp [Observed.step, Engine.step, Engine.startRunFromConfig, hc]
    | stop => cases hacc
    | run i ev now => cases hacc
  · refine ⟨h.faithful.step ha, fun hn => ?_, fun v hv => ?_, fun i hi => ?_⟩
    · -- An engine without runs has nothing to cancel and no section to take.
      have hnone : o.engine.runs = [] := by
        have hlen := Engine.length_step hacc
        rw [step_engine] at hn
        rw [hn] at hlen
        exact List.length_eq_zero_iff.mp hlen.symm
      have hnew := h.fresh hnone
      rw [step_engine]
      cases a with
      | start cfg randomID now => exact absurd (show o.engine.canStart = true by rw [hnew]; rfl) hacc
      | stop =>
        rw [hnew]
        rfl
      | run i ev now =>
        rw [hnew]
        rfl
    · rw [step_engine] at hv
      rcases Engine.step_cases hacc with he | ⟨c, he⟩ | ⟨i, r, ev, now, pc, hr, hl, hg, hs⟩
      · exact h.coherent v (he ▸ hv)
      · rw [he] at hv
        exact h.coherent v hv
      · rcases (Engine.runLoop_verdict hl).2 with hkept | ⟨-, w, hw, hcoherent⟩
        · exact h.coherent v (hkept ▸ hv)
        · rw [hw] at hv
          cases hv
          exact hcoherent
    · rw [step_engine, Engine.length_step hacc] at hi
      rw [step_engine, ← h.cancels i hi]
      rcases Engine.step_cases hacc with he | ⟨c, he⟩ | ⟨i, r, ev, now, pc, hr, hl, hg, hs⟩
      · rw [he]
      · rw [he]
        rfl
      · exact (Engine.runLoop_verdict hl).1

theorem consistent_after {acts : List Act}
    (hs : Past.Always (fun pre a => (Engine.after pre).StartsSettled a) acts) :
    (after acts).Consistent := by
  refine Past.Always.invariant (C := fun o a => o.engine.StartsSettled a) consistent_new
    (fun _ _ h ha => h.step ha) fun pre a post he => ?_
  have hpre : (Engine.after pre).StartsSettled a := hs pre a post he
  rwa [← after_engine] at hpre

/-- The verdict of the last run started. -/
def lastVerdict (o : Observed) : Option VerdictResult := o.outcomes.getLast?.bind (·.verdict)

theorem Consistent.lastVerdict {o : Observed} (h : o.Consistent) :
    o.lastVerdict = o.engine.verdictResult := by
  have hlength := h.faithful.length
  by_cases hnone : o.engine.runs = []
  · have hout : o.outcomes = [] := by
      rw [hnone] at hlength
      exact List.length_eq_zero_iff.mp hlength
    rw [Observed.lastVerdict, hout, h.fresh hnone]
    rfl
  · have hpos := List.length_pos_iff.mpr hnone
    obtain ⟨r, p, -, hp, hleaves⟩ := h.faithful.last (i := o.engine.runs.length - 1) (by omega)
    rw [Observed.lastVerdict, List.getLast?_eq_getElem?, hlength, hp, hleaves.verdict]
    rfl

/-- With a verdict, every run is past it. -/
theorem Consistent.final_of_verdict {o : Observed} (h : o.Consistent) {v : VerdictResult}
    (hv : o.engine.verdictResult = .some v) : o.engine.Final := by
  refine .of_last h.faithful.lifecycle fun i r hr hl => ?_
  obtain ⟨r', p, hr', -, hleaves⟩ := h.faithful.last hl
  cases hr.symm.trans hr'
  exact hleaves.judged (by rw [← hleaves.verdict, hv]; rfl)

/-- In any state but three, every run is past its verdict. -/
theorem Consistent.final_of_state {o : Observed} (h : o.Consistent) (hrun : o.engine.state ≠ .running)
    (hstart : o.engine.state ≠ .starting) (hstop : o.engine.state ≠ .stopping) : o.engine.Final := by
  refine .of_last h.faithful.lifecycle fun i r hr hl => ?_
  have hst := h.faithful.lifecycle.state i r hr hl
  cases hpc : r.pc <;> rw [hpc] at hst <;> first
    | rfl
    | exact absurd (List.mem_singleton.mp hst) ‹_›

end Observed

/-- The last run has published a state from which another may be started. -/
def Engine.Ended (e : Engine) : Prop := e.state = .stopped ∨ e.state = .error

theorem Engine.Ended.step {e : Engine} (h : e.Ended) (hlife : e.Lifecycle) {a : Act}
    (hno : ¬ e.Accepts a) : (e.step a).Ended := by
  rcases Engine.step_cases hno with he | ⟨c, he⟩ | ⟨i, r, ev, now, pc, hr, -, hg, hs⟩
  · rwa [he]
  · rw [he]
    exact h
  · have hst := hlife.state i r hr (hlife.last hr hs.live)
    have hst' := hs.state hst
    revert hg hst
    generalize r.pc = pc₀
    intro hg hst
    cases hg with
    | deferred done | closing done => simpa [Engine.Ended, Pc.states] using hst'
    | _ => rcases h with h | h <;> simp [Pc.states, h] at hst

theorem RunOutcome.note_cfg (o : RunOutcome) (e : Engine) (pc : Pc) (ev : Event) :
    (o.note e pc ev).cfg = o.cfg := by
  unfold RunOutcome.note
  split <;> rfl

theorem Observed.cfgs_step {o : Observed} {a : Act} (hno : ¬ o.engine.Accepts a) :
    (o.step a).outcomes.map (·.cfg) = o.outcomes.map (·.cfg) := by
  cases a with
  | start cfg randomID now =>
    have hc : ¬ o.engine.canStart = true := hno
    simp [Observed.step, hc]
  | stop => rfl
  | run i ev now =>
    simp only [Observed.step]
    split
    · refine List.ext_getElem? fun j => ?_
      simp only [List.getElem?_map, List.getElem?_modify]
      by_cases hij : i = j <;> cases o.outcomes[j]? <;> simp [hij, RunOutcome.note_cfg]
    · rfl

end Burnin
