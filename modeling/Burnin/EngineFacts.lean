/-
Run exclusivity of the engine: one `runLoop` at a time, each deferred section
on the fields of its own run, each `runDone` channel closed once.

The engine guards this with its state alone, and publishes a state from which
a run may be started (`setError`, and the deferred section itself) before the
run that publishes it is over. `runLoop_goes` says what one section of a run
can do; from it, `Lifecycle` is kept by every step that does not start a run in
that interval.
-/
import Burnin.Engine
import Burnin.Lib.Past

namespace Burnin

/-- The states of the engine in which its current run is at a given place. -/
def Pc.states : Pc → List State
  | .build | .consumers | .warmup | .startProducers | .markRunning => [.starting]
  | .measure => [.running]
  | .stopProducers | .capture | .lastSample | .verdict | .summary => [.stopping]
  | .deferred => [.starting, .stopping, .error]
  | .closing _ | .finished => [.stopped, .error]

/-- Where a section leaves its run. -/
inductive Pc.Goes (cancelled : Bool) : Pc → Event → Pc → Prop
  | build : Goes cancelled .build .next .consumers
  | failed (msg : Message) : Goes cancelled .consumers (.consumersFailed msg) .deferred
  | consumers : Goes cancelled .consumers .next (if cancelled then .deferred else .warmup)
  | warmup : Goes cancelled .warmup .next (if cancelled then .deferred else .startProducers)
  | startProducers : Goes cancelled .startProducers .next .markRunning
  | markRunning : Goes cancelled .markRunning .next .measure
  | sampled (sys : UInt64) (baseline : Bool) : Goes cancelled .measure (.sampled sys baseline) .measure
  | stopped (h : cancelled = true) : Goes cancelled .measure .next .stopProducers
  | durationReached : Goes cancelled .measure .durationReached .stopProducers
  | stopProducers : Goes cancelled .stopProducers .next .capture
  | captured (snapshots : Snapshots) : Goes cancelled .capture (.captured snapshots) .lastSample
  | lastSample (sys : UInt64) (baseline : Bool) : Goes cancelled .lastSample
      (.sampled sys baseline) .verdict
  | verdict (order : (m : Snapshots) → Range m) : Goes cancelled .verdict (.ranged order) .summary
  | summary : Goes cancelled .summary .next .deferred
  | deferred (done : Option Nat) : Goes cancelled .deferred .next (.closing done)
  | closing (done : Option Nat) : Goes cancelled (.closing done) .next .finished

namespace Engine

/-! ## One step -/

theorem goto_runs (e : Engine) {i : Nat} {r : Run} (h : e.runs[i]? = .some r) (pc : Pc) (j : Nat) :
    (e.goto i pc).runs[j]? = if j = i then .some { r with pc } else e.runs[j]? := by
  simp only [goto, List.getElem?_modify]
  by_cases hj : i = j
  · subst hj; simp [h]
  · have hj' : ¬ j = i := fun he => hj he.symm
    simp [hj, hj']

theorem cancel_runs (e : Engine) (i j : Nat) :
    (e.cancel i).runs[j]? = (e.runs[j]?).map fun r =>
      { r with cancelled := r.cancelled || decide (i = j) } := by
  simp only [cancel, List.getElem?_modify]
  by_cases hij : i = j <;> cases e.runs[j]? <;> simp [hij]

@[simp] theorem cancel_length (e : Engine) (i : Nat) : (e.cancel i).runs.length = e.runs.length := by
  simp [cancel]

theorem step_stop (e : Engine) : e.step .stop = e ∨ ∃ c, e.step .stop = e.cancel c := by
  simp only [step, stopRun]
  split
  · next e' hs =>
    split at hs
    · cases hs
      split
      · next c _ => exact .inr ⟨c, rfl⟩
      · exact .inl rfl
    · cases hs
  · exact .inl rfl

theorem closeDone_runs (e : Engine) (done : Option Nat) : (e.closeDone done).runs = e.runs := by
  cases done <;> rfl

/-- What one section of the run `i` does: it moves the run on, keeps `runDone`,
keeps the state in step with the run, and closes a channel only at its end. -/
structure Section (e e' : Engine) (i : Nat) (r : Run) (pc : Pc) : Prop where
  runs : ∀ j, e'.runs[j]? = if j = i then .some { r with pc } else e.runs[j]?
  length : e'.runs.length = e.runs.length
  runDone : e'.runDone = e.runDone
  live : r.pc ≠ .finished
  state : e.state ∈ r.pc.states → e'.state ∈ pc.states
  closing : ∀ done, pc = .closing done → done = e.runDone
  closes : (pc ≠ .finished ∧ e'.closes = e.closes) ∨
    ∃ done, r.pc = .closing done ∧ pc = .finished ∧ e'.closes = (e.closeDone done).closes

theorem runLoop_goes {e e' : Engine} {i : Nat} {r : Run} {now : Int} {ev : Event}
    (hr : e.runs[i]? = .some r) (h : e.runLoop i r now r.pc ev = .some e') :
    ∃ pc, r.pc.Goes r.cancelled ev pc ∧ Section e e' i r pc := by
  obtain ⟨pc₀, hpc⟩ : ∃ pc₀, r.pc = pc₀ := ⟨_, rfl⟩
  -- A section that changes other fields, then goes on to `pc`.
  have move : ∀ {e₁ : Engine} {pc : Pc}, pc₀.Goes r.cancelled ev pc → some (e₁.goto i pc) = some e' →
      e₁.runs = e.runs → e₁.runDone = e.runDone → e₁.closes = e.closes → pc₀ ≠ .finished →
      (e.state ∈ pc₀.states → e₁.state ∈ pc.states) → pc ≠ .finished →
      (∀ done, pc = .closing done → done = e.runDone) → ∃ pc, r.pc.Goes r.cancelled ev pc ∧
        Section e e' i r pc := by
    intro e₁ pc hg h h1 h2 h3 h4 h5 h6 h7
    obtain rfl := Option.some.inj h
    refine ⟨pc, hpc ▸ hg, fun j => ?_, ?_, h2, hpc ▸ h4, hpc ▸ h5, h7, .inl ⟨h6, h3⟩⟩
    · rw [goto_runs e₁ (by rw [h1]; exact hr), h1]
    · simp [goto, h1]
  rw [hpc] at h
  unfold runLoop at h
  split at h
  case h_1 => exact move .build h rfl rfl rfl (by simp) (by simp [Pc.states]) (by simp) (by simp)
  case h_2 =>
    exact move (.failed _) h rfl rfl rfl (by simp) (by simp [Pc.states, setError]) (by simp) (by simp)
  case h_3 =>
    exact move .consumers h rfl rfl rfl (by simp) (by split <;> simp +contextual [Pc.states])
      (by split <;> simp)
      (by split <;> simp)
  case h_4 =>
    exact move .warmup h rfl rfl rfl (by simp) (by split <;> simp +contextual [Pc.states])
      (by split <;> simp)
      (by split <;> simp)
  case h_5 =>
    exact move .startProducers h rfl rfl rfl (by simp) (by simp [Pc.states]) (by simp) (by simp)
  case h_6 => exact move .markRunning h rfl rfl rfl (by simp) (by simp [Pc.states]) (by simp) (by simp)
  case h_7 =>
    -- The memory tracker's round leaves the run where it is.
    obtain rfl := Option.some.inj h
    refine ⟨.measure, by rw [hpc]; exact .sampled _ _, fun j => ?_, rfl, rfl, by simp [hpc],
      by rw [hpc]; exact id, by simp, .inl ⟨by simp, rfl⟩⟩
    by_cases hj : j = i
    · subst hj
      rw [if_pos rfl, ← hpc]
      exact hr
    · rw [if_neg hj]
      rfl
  case h_8 =>
    split at h
    · next hc =>
        exact move (.stopped hc) h rfl rfl rfl (by simp) (by simp [Pc.states]) (by simp) (by simp)
    · cases h
  case h_9 =>
    split at h
    · exact move .durationReached h rfl rfl rfl (by simp) (by simp [Pc.states]) (by simp) (by simp)
    · cases h
  case h_10 =>
    exact move .stopProducers h rfl rfl rfl (by simp) (by simp [Pc.states]) (by simp) (by simp)
  case h_11 => exact move (.captured _) h rfl rfl rfl (by simp) (by simp [Pc.states]) (by simp) (by simp)
  case h_12 =>
    exact move (.lastSample _ _) h rfl rfl rfl (by simp) (by simp [Pc.states, sample])
      (by simp) (by simp)
  case h_13 =>
    exact move (.verdict _) h rfl rfl rfl (by simp) (by simp [Pc.states, storeVerdict])
      (by simp) (by simp)
  case h_14 =>
    exact move .summary h rfl rfl rfl (by simp) (by simp +contextual [Pc.states]) (by simp) (by simp)
  case h_15 =>
    refine move (.deferred _) h rfl rfl rfl (by simp) (fun _ => ?_) (by simp) (by simp)
    by_cases he : e.state = .error <;> simp [Pc.states, he]
  case h_16 done =>
    obtain rfl := Option.some.inj h
    refine ⟨.finished, hpc ▸ .closing done, fun j => ?_, ?_, ?_, by simp [hpc], fun hs => ?_, by simp,
      .inr ⟨done, hpc, rfl, rfl⟩⟩
    · rw [goto_runs _ (by rw [closeDone_runs]; exact hr), closeDone_runs]
    · simp [goto, closeDone_runs]
    · cases done <;> rfl
    · rw [hpc] at hs
      cases done <;> exact hs
  case h_17 => cases h

theorem step_of_isSome {e : Engine} {i : Nat} {r : Run} (hr : e.runs[i]? = .some r)
    (ev : Event) (now : Int) (h : (e.runLoop i r now r.pc ev).isSome = true) :
    ∃ pc, r.pc.Goes r.cancelled ev pc ∧ Section e (e.step (.run i ev now)) i r pc := by
  obtain ⟨e', he⟩ := Option.isSome_iff_exists.mp h
  have hstep : e.step (.run i ev now) = e' := by simp [step, hr, he]
  rw [hstep]
  exact runLoop_goes hr he

/-- **A step of a run** is a section of it, or leaves the engine as it is. -/
theorem step_run (e : Engine) (i : Nat) (ev : Event) (now : Int) :
    e.step (.run i ev now) = e ∨
      ∃ r pc, e.runs[i]? = .some r ∧ r.pc.Goes r.cancelled ev pc ∧
        Section e (e.step (.run i ev now)) i r pc := by
  cases hr : e.runs[i]? with
  | none => exact .inl (by simp [step, hr])
  | some r =>
    cases hl : e.runLoop i r now r.pc ev with
    | none => exact .inl (by simp [step, hr, hl])
    | some e' =>
      obtain ⟨pc, hg, hs⟩ := step_of_isSome hr ev now (Option.isSome_of_eq_some hl)
      exact .inr ⟨r, pc, rfl, hg, hs⟩

/-! ## The invariant -/

/-- Run exclusivity, in one state: at most one `runLoop` has not finished, a
deferred section works on the fields of its own run and closes the channel of
its own run, and a channel is closed once when its run has finished and not
before. -/
structure Exclusive (e : Engine) : Prop where
  single : ∀ (i j : Nat) (r s : Run), e.runs[i]? = .some r → e.runs[j]? = .some s →
    r.pc ≠ .finished → s.pc ≠ .finished → i = j
  deferred_own : ∀ (i : Nat) (r : Run), e.runs[i]? = .some r → r.pc = .deferred → e.runDone = .some i
  closing_own : ∀ (i : Nat) (r : Run) (done : Option Nat), e.runs[i]? = .some r → r.pc = .closing done →
    done = .some i
  closed_once : ∀ (i : Nat) (r : Run), e.runs[i]? = .some r →
    e.closes[i]? = .some (if r.pc = .finished then 1 else 0)

/-- The last run is the current one, in a state that fits its place; those
before it have finished. -/
structure Lifecycle (e : Engine) : Prop where
  length : e.closes.length = e.runs.length
  current : ∀ i, i + 1 = e.runs.length → e.runDone = .some i
  earlier : ∀ (i : Nat) (r : Run), e.runs[i]? = .some r → i + 1 ≠ e.runs.length → r.pc = .finished
  state : ∀ (i : Nat) (r : Run), e.runs[i]? = .some r → i + 1 = e.runs.length → e.state ∈ r.pc.states
  closing_own : ∀ (i : Nat) (r : Run) (done : Option Nat), e.runs[i]? = .some r → r.pc = .closing done →
    done = .some i
  closed_once : ∀ (i : Nat) (r : Run), e.runs[i]? = .some r →
    e.closes[i]? = .some (if r.pc = .finished then 1 else 0)

theorem Lifecycle.last {e : Engine} (h : Lifecycle e) {i : Nat} {r : Run} (hr : e.runs[i]? = .some r)
    (hlive : r.pc ≠ .finished) : i + 1 = e.runs.length :=
  by_contra fun hn => hlive (h.earlier i r hr hn)

theorem Lifecycle.others {e : Engine} (h : Lifecycle e) {i j : Nat} {r s : Run}
    (hr : e.runs[i]? = .some r) (hlive : r.pc ≠ .finished) (hs : e.runs[j]? = .some s)
    (hne : j ≠ i) : s.pc = .finished := by
  have hlast := h.last hr hlive
  exact h.earlier j s hs (by omega)

theorem Lifecycle.exclusive {e : Engine} (h : Lifecycle e) : Exclusive e where
  single := fun i j r s hr hs hi hj => by
    have h1 := h.last hr hi
    have h2 := h.last hs hj
    omega
  deferred_own := fun i r hr hpc =>
    h.current i (by_contra fun hn => by rw [h.earlier i r hr hn] at hpc; cases hpc)
  closing_own := h.closing_own
  closed_once := h.closed_once

theorem lifecycle_new : Lifecycle {} :=
  ⟨rfl, by simp, by simp, by simp, by simp, by simp⟩

theorem Lifecycle.section {e e' : Engine} {i : Nat} {r : Run} {pc : Pc} (h : Lifecycle e)
    (hr : e.runs[i]? = .some r) (hs : Section e e' i r pc) : Lifecycle e' := by
  have hlast := h.last hr hs.live
  refine
    { length := ?_, current := fun j hj => ?_, earlier := fun j r' hj hn => ?_,
      state := fun j r' hj hl => ?_
      closing_own := fun j r' done hj hd => ?_, closed_once := fun j r' hj => ?_ }
  · rw [hs.length, ← h.length]
    rcases hs.closes with ⟨-, hc⟩ | ⟨done, -, -, hc⟩
    · rw [hc]
    · rw [hc]
      cases done <;> simp [closeDone]
  · rw [hs.runDone]
    exact h.current j (by rw [hj, hs.length])
  · rw [hs.length] at hn
    rw [hs.runs, if_neg (by omega)] at hj
    exact h.earlier j r' hj hn
  · rw [hs.length] at hl
    rw [hs.runs, if_pos (by omega)] at hj
    obtain rfl := Option.some.inj hj
    exact hs.state (h.state i r hr hlast)
  · rw [hs.runs] at hj
    by_cases hji : j = i
    · rw [if_pos hji] at hj
      obtain rfl := Option.some.inj hj
      rw [hs.closing done hd, hji, h.current i hlast]
    · rw [if_neg hji] at hj
      exact h.closing_own j r' done hj hd
  · rw [hs.runs] at hj
    rcases hs.closes with ⟨hpc, hc⟩ | ⟨done, hd, hpc, hc⟩
    · rw [hc]
      by_cases hji : j = i
      · rw [if_pos hji] at hj
        obtain rfl := Option.some.inj hj
        rw [hji, h.closed_once i r hr, if_neg hs.live, if_neg hpc]
      · rw [if_neg hji] at hj
        exact h.closed_once j r' hj
    · -- The close: of the run's own channel, so the others stay as they are.
      obtain rfl := h.closing_own i r done hr hd
      rw [hc]
      simp only [closeDone, List.getElem?_modify]
      by_cases hji : j = i
      · rw [if_pos hji] at hj
        obtain rfl := Option.some.inj hj
        rw [hji, h.closed_once i r hr]
        simp [hs.live, hpc]
      · rw [if_neg hji] at hj
        have hij : ¬ i = j := fun he => hji he.symm
        rw [h.closed_once j r' hj]
        simp [hij]

theorem Lifecycle.cancel {e : Engine} (h : Lifecycle e) (c : Nat) : Lifecycle (e.cancel c) := by
  have hruns : ∀ (j : Nat) (r' : Run), (e.cancel c).runs[j]? = .some r' →
      ∃ r : Run, e.runs[j]? = .some r ∧ r'.pc = r.pc := by
    intro j r' hj
    rw [cancel_runs, Option.map_eq_some_iff] at hj
    obtain ⟨r, hr, rfl⟩ := hj
    exact ⟨r, hr, rfl⟩
  refine
    { length := by rw [cancel_length]; exact h.length,
      current := fun j hj => h.current j (by rw [hj, cancel_length])
      earlier := fun j r' hj hn => ?_, state := fun j r' hj hl => ?_
      closing_own := fun j r' done hj hd => ?_, closed_once := fun j r' hj => ?_ }
  · obtain ⟨r, hr, hpc⟩ := hruns j r' hj
    exact hpc.trans (h.earlier j r hr (by rwa [cancel_length] at hn))
  · obtain ⟨r, hr, hpc⟩ := hruns j r' hj
    rw [hpc]
    exact h.state j r hr (by rwa [cancel_length] at hl)
  · obtain ⟨r, hr, hpc⟩ := hruns j r' hj
    exact h.closing_own j r done hr (hpc ▸ hd)
  · obtain ⟨r, hr, hpc⟩ := hruns j r' hj
    rw [hpc]
    exact h.closed_once j r hr

theorem startRunFromConfig_ok {e e' : Engine} {cfg : Config} {randomID : String} {now : Int}
    (h : e.startRunFromConfig cfg randomID now = .ok e') :
    e.canStart = true ∧ e'.state = .starting ∧ e'.runDone = .some e.closes.length ∧
      e'.runs = e.runs ++ [{ cfg := cfg }] ∧ e'.closes = e.closes ++ [0] := by
  unfold startRunFromConfig at h
  split at h
  next hc =>
    cases h
    exact ⟨hc, rfl, rfl, rfl, rfl⟩
  next => cases h

theorem startRunFromConfig_runs {e e' : Engine} {cfg : Config} {randomID : String} {now : Int}
    (h : e.startRunFromConfig cfg randomID now = .ok e') {j : Nat} {r : Run}
    (hj : e'.runs[j]? = .some r) :
    (j = e.runs.length ∧ r = { cfg := cfg }) ∨ (j < e.runs.length ∧ e.runs[j]? = .some r) := by
  obtain ⟨-, -, -, hruns, -⟩ := startRunFromConfig_ok h
  rw [hruns] at hj
  rcases Nat.lt_trichotomy j e.runs.length with hlt | rfl | hgt
  · rw [List.getElem?_append_left hlt] at hj
    exact .inr ⟨hlt, hj⟩
  · rw [List.getElem?_concat_length] at hj
    exact .inl ⟨rfl, (Option.some.inj hj).symm⟩
  · rw [List.getElem?_eq_none (by simp; omega)] at hj
    cases hj

theorem Lifecycle.start {e e' : Engine} (h : Lifecycle e) {cfg : Config} {randomID : String} {now : Int}
    (hs : e.startRunFromConfig cfg randomID now = .ok e') (hfin : ∀ r ∈ e.runs, r.pc = .finished) :
    Lifecycle e' := by
  obtain ⟨-, hstate, hdone, hruns, hcloses⟩ := startRunFromConfig_ok hs
  have hlen : e'.runs.length = e.runs.length + 1 := by rw [hruns, List.length_append]; rfl
  refine
    { length := ?_, current := fun j hj => ?_, earlier := fun j r hj hn => ?_,
      state := fun j r hj hl => ?_
      closing_own := fun j r done hj hd => ?_, closed_once := fun j r hj => ?_ }
  · rw [hlen, hcloses, List.length_append, h.length]
    rfl
  · rw [hdone, h.length]
    congr 1
    omega
  · rcases startRunFromConfig_runs hs hj with ⟨rfl, -⟩ | ⟨-, hr⟩
    · omega
    · exact hfin r (List.mem_of_getElem? hr)
  · rcases startRunFromConfig_runs hs hj with ⟨-, rfl⟩ | ⟨hlt, -⟩
    · rw [hstate]
      simp [Pc.states]
    · omega
  · rcases startRunFromConfig_runs hs hj with ⟨-, rfl⟩ | ⟨-, hr⟩
    · cases hd
    · exact h.closing_own j r done hr hd
  · rw [hcloses]
    rcases startRunFromConfig_runs hs hj with ⟨rfl, rfl⟩ | ⟨hlt, hr⟩
    · rw [← h.length, List.getElem?_concat_length]
      rfl
    · rw [List.getElem?_append_left (by rw [h.length]; exact hlt)]
      exact h.closed_once j r hr

/-! ## Runs of the machine -/

/-- No run is between publishing a state from which a run may be started and
closing its channel. -/
def Settled (e : Engine) : Prop := ∀ r ∈ e.runs, r.pc ≠ .deferred ∧ ∀ done, r.pc ≠ .closing done

/-- A start request is accepted in a settled engine only. -/
def StartsSettled (e : Engine) : Act → Prop
  | .start _ _ _ => e.canStart = true → e.Settled
  | _ => True

/-- In a settled engine that may start a run, every run has finished. -/
theorem Lifecycle.finished {e : Engine} (h : Lifecycle e) (hc : e.canStart = true) (hs : e.Settled) :
    ∀ r ∈ e.runs, r.pc = .finished := by
  intro r hr
  obtain ⟨i, hi⟩ := List.getElem?_of_mem hr
  by_cases hl : i + 1 = e.runs.length
  · have hst := h.state i r hi hl
    obtain ⟨hd, hcl⟩ := hs r hr
    simp only [canStart, Bool.or_eq_true, beq_iff_eq] at hc
    cases hpc : r.pc with
    | deferred => exact absurd hpc hd
    | closing done => exact absurd hpc (hcl done)
    | finished => rfl
    | _ =>
      rw [hpc] at hst
      simp only [Pc.states, List.mem_singleton] at hst
      rw [hst] at hc
      simp at hc
  · exact h.earlier i r hi hl

theorem Lifecycle.step {e : Engine} {a : Act} (h : Lifecycle e) (ha : e.StartsSettled a) :
    Lifecycle (e.step a) := by
  cases a with
  | start cfg randomID now =>
    simp only [Engine.step]
    split
    · next e' hs =>
        exact h.start hs (h.finished (startRunFromConfig_ok hs).1 (ha (startRunFromConfig_ok hs).1))
    · exact h
  | stop =>
    rcases e.step_stop with he | ⟨c, he⟩
    · rwa [he]
    · rw [he]
      exact h.cancel c
  | run i ev now =>
    rcases e.step_run i ev now with he | ⟨r, pc, hr, -, hs⟩
    · rw [he]
      exact h
    · exact h.section hr hs

/-- A start in an engine that is not settled makes a second live run. -/
theorem not_exclusive_of_start {e : Engine} {a : Act} (ha : ¬ e.StartsSettled a) :
    ¬ Exclusive (e.step a) := by
  cases a with
  | stop => exact absurd trivial ha
  | run i ev now => exact absurd trivial ha
  | start cfg randomID now =>
    simp only [StartsSettled, Settled, not_forall] at ha
    obtain ⟨hc, r, hr, hpc⟩ := ha
    obtain ⟨i, hi⟩ := List.getElem?_of_mem hr
    have hlt : i < e.runs.length := (List.getElem?_eq_some_iff.mp hi).1
    intro hx
    have hstep : (e.step (.start cfg randomID now)).runs = e.runs ++ [{ cfg := cfg }] := by
      simp [Engine.step, startRunFromConfig, hc]
    have h1 : (e.step (.start cfg randomID now)).runs[i]? = .some r := by
      rw [hstep, List.getElem?_append_left hlt, hi]
    have h2 : (e.step (.start cfg randomID now)).runs[e.runs.length]? = .some { cfg := cfg } := by
      rw [hstep, List.getElem?_concat_length]
    have := hx.single i e.runs.length r { cfg := cfg } h1 h2 (fun hf => by simp [hf] at hpc) (by simp)
    omega

end Engine

open Engine in
/-- **When runs are exclusive.** Run exclusivity holds in every state that a
run of the machine reaches exactly when every start request it accepts finds
no `runLoop` between publishing a state from which a run may be started and
closing its channel. -/
theorem exclusive_iff (acts : List Act) :
    (∀ pre, pre <+: acts → Exclusive (after pre)) ↔
      Past.Always (fun pre a => (after pre).StartsSettled a) acts :=
  Past.always_iff lifecycle_new (fun _ _ h ha => h.step ha) (fun _ h => h.exclusive)
    fun _ _ _ ha => not_exclusive_of_start ha

/-- The consumers of a first run do not start, and a second run is started
between its `setError` and its deferred section; then both end. -/
def earlyRestart : List Act :=
  [.start defaultConfig "a" 0, .run 0 .next 1,
    .run 0 (.consumersFailed ⟨"start consumers: %v", [.str "refused"]⟩) 2,
    .start defaultConfig "b" 3, .run 0 .next 4, .run 0 .next 5,
    .run 1 .next 6, .run 1 (.consumersFailed ⟨"start consumers: %v", [.str "refused"]⟩) 7,
    .run 1 .next 8, .run 1 .next 9]

open Engine in
/-- Two runs are live, the first's deferred section stops the second one and
takes its channel, and that channel is closed twice. -/
theorem early_restart_not_exclusive :
    ¬ Exclusive (after (earlyRestart.take 4)) ∧
      ((after (earlyRestart.take 5)).state = .stopped ∧
        (after (earlyRestart.take 5)).runEndedAt = .some 4 ∧
        (after (earlyRestart.take 5)).runs.map (·.pc) = [.closing (.some 1), .build]) ∧
      (after earlyRestart).closes = [0, 2] := by
  refine ⟨fun h => ?_, by decide +kernel, by decide +kernel⟩
  have h0 : ((after (earlyRestart.take 4)).runs[0]?).map (·.pc) = .some .deferred := by decide +kernel
  have h1 : ((after (earlyRestart.take 4)).runs[1]?).map (·.pc) = .some .build := by decide +kernel
  obtain ⟨r, hr, hpr⟩ := Option.map_eq_some_iff.mp h0
  obtain ⟨t, ht, hpt⟩ := Option.map_eq_some_iff.mp h1
  have := h.single 0 1 r t hr ht (by simp [hpr]) (by simp [hpt])
  omega

end Burnin
