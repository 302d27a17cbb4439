/-
Runs do not leak into each other. The engine has one set of fields for all its
runs, and a start clears some of them only: the times at which the producers were
started and stopped, for one, stay from the run before. Still, while starts are
settled, each run leaves what it would have left in an engine of its own
(`run_isolated`): `alone` takes the steps that concern one run out of a history,
and `Twin` relates the shared engine to the one that takes these steps only.
-/
import Burnin.Consistent
import Burnin.Shutdown

namespace Burnin

/-- A step, as the run `i` alone would take it: its own start and sections, and
the stop requests that come while it is the last run. -/
def Engine.own (i : Nat) (e : Engine) : Act → List Act
  | .start cfg randomID now => if e.canStart ∧ e.runs.length = i then [.start cfg randomID now] else []
  | .stop => if e.runs.length = i + 1 then [.stop] else []
  | .run j ev now => if j = i ∧ i < e.runs.length then [.run 0 ev now] else []

/-- The steps of a history that concern the run `i`. -/
def alone (i : Nat) (acts : List Act) : List Act :=
  Past.collect (fun pre a => (Engine.after pre).own i a) acts

theorem alone_snoc (i : Nat) (acts : List Act) (a : Act) :
    alone i (acts ++ [a]) = alone i acts ++ (Engine.after acts).own i a := Past.collect_snoc _ _ _

/-- The channel of a run that is alone is the first. -/
def Pc.alone : Pc → Pc
  | .closing done => .closing (done.map fun _ => 0)
  | pc => pc

/-- The places between the two times of the measurement. -/
def Pc.measuring : Pc → Bool
  | .markRunning | .measure | .stopProducers | .capture | .lastSample | .verdict => true
  | _ => false

/-- The places between the end of the measurement and the verdict. -/
def Pc.measured : Pc → Bool
  | .capture | .lastSample | .verdict => true
  | _ => false

def Run.alone (r : Run) : Run := { r with pc := r.pc.alone }

/-- The fields of two engines whose last runs are in the same place, as far as
that run reads them. -/
structure Shared (pc : Pc) (e e₀ : Engine) : Prop where
  state : e₀.state = e.state
  runID : e₀.runID = e.runID
  snapshots : e₀.workerSnapshots = e.workerSnapshots
  verdict : e₀.verdictResult = e.verdictResult
  baselineRSS : e₀.baselineRSS = e.baselineRSS
  peakRSS : e₀.peakRSS = e.peakRSS
  started : pc.measuring = true → e₀.producersStartedAt = e.producersStartedAt
  stopped : pc.measured = true → e₀.producersStoppedAt = e.producersStoppedAt

/-- The second engine has one run, which is where the run `i` of the first is. -/
structure Twin (i : Nat) (r : Run) (e e₀ : Engine) : Prop where
  run : e₀.runs = [r.alone]
  runCancel : e₀.runCancel = .some 0
  runDone : e₀.runDone = .some 0
  shared : i + 1 = e.runs.length → Shared r.pc e e₀

/-- Whether a run goes on does not depend on the engine. -/
theorem Engine.runLoop_isSome_alone (e e₀ : Engine) (i : Nat) (r : Run) (now : Int) (ev : Event) :
    (e₀.runLoop 0 r.alone now r.alone.pc ev).isSome = (e.runLoop i r now r.pc ev).isSome := by
  obtain ⟨cfg, cancelled, pc⟩ := r
  cases pc with
  | measure =>
    cases ev with
    | next => cases cancelled <;> rfl
    | durationReached =>
      by_cases hd : cfg.durationParsed > 0 <;> simp [Run.alone, Pc.alone, Engine.runLoop, hd]
    | _ => rfl
  | _ => cases ev <;> rfl

/-- Two engines go on to `pc` from fields that agree. -/
theorem Twin.goto {i : Nat} {r : Run} {e e₀ e₁ e₂ : Engine} (h : Twin i r e e₀) {pc pc₀ : Pc}
    (hpc : pc.alone = pc₀) (hruns : e₂.runs = e₀.runs) (hcancel : e₂.runCancel = e₀.runCancel)
    (hdone : e₂.runDone = e₀.runDone) (hshared : Shared pc e₁ e₂) :
    Twin i { r with pc } (e₁.goto i pc) (e₂.goto 0 pc₀) := by
  refine ⟨?_, hcancel.trans h.runCancel, hdone.trans h.runDone, fun _ => ?_⟩
  · simp [Engine.goto, hruns, h.run, Run.alone, hpc]
  · obtain ⟨h1, h2, h3, h4, h5, h6, h7, h8⟩ := hshared
    exact ⟨h1, h2, h3, h4, h5, h6, h7, h8⟩

theorem Twin.section {i : Nat} {r : Run} {e e₀ e' : Engine} (h : Twin i r e e₀) (hlife : e.Lifecycle)
    (hr : e.runs[i]? = .some r) (hlast : i + 1 = e.runs.length) {now : Int} {ev : Event} {pc : Pc}
    (hg : r.pc.Goes r.cancelled ev pc) (hs : Engine.Section e e' i r pc)
    (hl : e.runLoop i r now r.pc ev = .some e') :
    ∃ e₀', e₀.runLoop 0 r.alone now r.alone.pc ev = .some e₀' ∧ Twin i { r with pc } e' e₀' := by
  obtain ⟨h1, h2, h3, h4, h5, h6, h7, h8⟩ := h.shared hlast
  -- At a place where a time is not read, there is nothing to say about it.
  have no : ∀ {P : Prop}, false = true → P := fun hm => absurd hm Bool.false_ne_true
  have hcurrent := hlife.current i hlast
  have hclosing := hlife.closing_own i r
  have hdeferred := hs.closing
  obtain ⟨cfg, cancelled, pc₀⟩ := r
  simp only at hg hl h7 h8 hclosing
  cases hg with
  | sampled sys baseline =>
    cases hl
    refine ⟨_, rfl, ?_⟩
    refine ⟨h.run, h.runCancel, h.runDone, fun _ => ⟨h1, h2, h3, h4, ?_, ?_, h7, h8⟩⟩
    · simp only [Engine.sample, h5]
    · simp only [Engine.sample, h6]
  | stopped hc =>
    obtain rfl : cancelled = true := hc
    cases hl
    exact ⟨_, rfl, h.goto rfl rfl rfl rfl ⟨rfl, h2, h3, h4, h5, h6, fun _ => h7 rfl, no⟩⟩
  | durationReached =>
    rw [Engine.runLoop] at hl
    split at hl
    · next hd =>
      cases hl
      refine ⟨_, if_pos hd, h.goto rfl rfl rfl rfl ⟨rfl, h2, h3, h4, h5, h6, fun _ => h7 rfl, no⟩⟩
    · cases hl
  | build =>
    cases hl
    exact ⟨_, rfl, h.goto rfl rfl rfl rfl ⟨h1, h2, h3, h4, h5, h6, no, no⟩⟩
  | failed msg =>
    cases hl
    exact ⟨_, rfl, h.goto rfl rfl rfl rfl ⟨rfl, h2, h3, h4, h5, h6, no, no⟩⟩
  | consumers | warmup =>
    cases hl
    refine ⟨_, rfl, h.goto ?_ rfl rfl rfl ⟨h1, h2, h3, h4, h5, h6, ?_, ?_⟩⟩
    all_goals cases cancelled <;> first | rfl | exact no
  | startProducers =>
    cases hl
    exact ⟨_, rfl, h.goto rfl rfl rfl rfl ⟨h1, h2, h3, h4, h5, h6, fun _ => rfl, no⟩⟩
  | markRunning =>
    cases hl
    exact ⟨_, rfl, h.goto rfl rfl rfl rfl ⟨rfl, h2, h3, h4, h5, h6, fun _ => h7 rfl, no⟩⟩
  | stopProducers =>
    cases hl
    exact ⟨_, rfl, h.goto rfl rfl rfl rfl ⟨h1, h2, h3, h4, h5, h6, fun _ => h7 rfl, fun _ => rfl⟩⟩
  | captured snapshots =>
    cases hl
    exact ⟨_, rfl, h.goto rfl rfl rfl rfl ⟨h1, h2, rfl, h4, h5, h6, fun _ => h7 rfl, fun _ => h8 rfl⟩⟩
  | lastSample sys baseline =>
    cases hl
    refine ⟨_, rfl, h.goto rfl rfl rfl rfl ⟨h1, h2, h3, h4, ?_, ?_, fun _ => h7 rfl, fun _ => h8 rfl⟩⟩
    · simp only [Engine.sample, h5]
    · simp only [Engine.sample, h6]
  | verdict order =>
    cases hl
    refine ⟨_, rfl, h.goto rfl rfl rfl rfl ⟨h1, h2, h3, ?_, h5, h6, no, no⟩⟩
    have hentries : (order (e₀.workerSnapshots.getD ∅)).entries =
        (order (e.workerSnapshots.getD ∅)).entries := by
      rw [h3]
    simp only [Engine.storeVerdict, Run.alone, hentries, h5, h6, h7 rfl, h8 rfl]
  | summary =>
    cases hl
    exact ⟨_, rfl, h.goto rfl rfl rfl rfl ⟨h1, h2, h3, h4, h5, h6, no, no⟩⟩
  | deferred done =>
    cases hl
    obtain rfl : done = e.runDone := hdeferred done rfl
    have hdone : (Pc.closing e.runDone).alone = .closing e₀.runDone := by
      rw [hcurrent, h.runDone]
      rfl
    refine ⟨_, rfl, h.goto hdone rfl rfl rfl ⟨?_, h2, h3, h4, h5, h6, no, no⟩⟩
    simp only [h1]
  | closing done =>
    cases hl
    obtain rfl : done = .some i := hclosing done hr rfl
    exact ⟨_, rfl, h.goto rfl rfl rfl rfl ⟨h1, h2, h3, h4, h5, h6, no, no⟩⟩

/-- What the run `i` has left in the first engine is all there is in the second. -/
def Alike (i : Nat) (o o₀ : Observed) : Prop :=
  ∃ r p, o.engine.runs[i]? = .some r ∧ o.outcomes[i]? = .some p ∧ o₀.outcomes = [p] ∧
    Twin i r o.engine o₀.engine

theorem RunOutcome.note_alone (p : RunOutcome) {e e₀ : Engine} (pc : Pc) (ev : Event)
    (hv : e₀.verdictResult = e.verdictResult) (hb : e₀.baselineRSS = e.baselineRSS)
    (hp : e₀.peakRSS = e.peakRSS) :
    p.note e₀ pc.alone ev = p.note e pc ev := by
  cases pc with
  | verdict => cases ev <;> simp [Pc.alone, RunOutcome.note, hv, hb, hp]
  | _ => cases ev <;> rfl

theorem Engine.step_stop_eq {e : Engine} {c : Nat} (h : e.runCancel = .some c) :
    e.step .stop = if e.state = .starting ∨ e.state = .running then e.cancel c else e := by
  simp only [Engine.step, Engine.stopRun, h]
  split_ifs <;> rfl

section
variable {i : Nat} {o o₀ : Observed}

theorem Alike.section (h : Alike i o o₀) (hc : o.Consistent) (ev : Event) (now : Int) :
    Alike i (o.step (.run i ev now)) (o₀.step (.run 0 ev now)) := by
  obtain ⟨r, p, hr, hp, hout, htwin⟩ := h
  have hr₀ : o₀.engine.runs[0]? = .some r.alone := by rw [htwin.run]; rfl
  have hsome := o.engine.runLoop_isSome_alone o₀.engine i r now ev
  cases hl : o.engine.runLoop i r now r.pc ev with
  | none =>
    -- The run waits for another event, in both.
    rw [hl, Option.isSome_none] at hsome
    have hl₀ := Option.isSome_eq_false_iff.mp hsome
    rw [Option.isNone_iff_eq_none] at hl₀
    refine ⟨r, p, ?_, ?_, ?_, ?_⟩
    · simp [Observed.step, Engine.step, hr, hl]
    · simp [Observed.step, hr, hp, RunOutcome.note_of_none p hl]
    · simp [Observed.step, hr₀, hout, RunOutcome.note_of_none p hl₀]
    · simpa [Observed.step, Engine.step, hr, hl, hr₀, hl₀] using htwin
  | some e' =>
    obtain ⟨pc, hg, hs⟩ := Engine.runLoop_goes hr hl
    have hlast := hc.faithful.lifecycle.last hr hs.live
    obtain ⟨e₀', hl₀, htwin'⟩ := htwin.section hc.faithful.lifecycle hr hlast hg hs hl
    have hshared := htwin'.shared (hlast.trans hs.length.symm)
    have hstep : (o.step (.run i ev now)).engine = e' := by simp [Engine.step, hr, hl]
    have hstep₀ : (o₀.step (.run 0 ev now)).engine = e₀' := by simp [Engine.step, hr₀, hl₀]
    refine ⟨{ r with pc }, p.note e' r.pc ev, ?_, ?_, ?_, ?_⟩
    · rw [hstep, hs.runs, if_pos rfl]
    · rw [Observed.step_engine] at hstep
      simp [Observed.step, hr, hp, hstep]
    · rw [Observed.step_engine] at hstep₀
      simp only [Observed.step, hr₀, hout, hstep₀]
      exact congrArg (fun q => [q])
        (p.note_alone r.pc ev hshared.verdict hshared.baselineRSS hshared.peakRSS)
    · rw [hstep, hstep₀]
      exact htwin'

theorem Alike.other (h : Alike i o o₀) (hc : o.Consistent) {j : Nat} (hj : j ≠ i) (ev : Event)
    (now : Int) : Alike i (o.step (.run j ev now)) o₀ := by
  obtain ⟨r, p, hr, hp, hout, htwin⟩ := h
  have houtcome : (o.step (.run j ev now)).outcomes[i]? = .some p := by
    simp only [Observed.step]
    split
    · simp [hj, hp]
    · exact hp
  rcases o.engine.step_run j ev now with he | ⟨s, pc, hs, -, hsec⟩
  · exact ⟨r, p, by rw [Observed.step_engine, he]; exact hr, houtcome, hout,
      by rw [Observed.step_engine, he]; exact htwin⟩
  · have hlast := hc.faithful.lifecycle.last hs hsec.live
    refine ⟨r, p, ?_, houtcome, hout, htwin.run, htwin.runCancel, htwin.runDone, fun hl => ?_⟩
    · rw [Observed.step_engine, hsec.runs, if_neg hj.symm, hr]
    · rw [Observed.step_engine, hsec.length] at hl
      omega

theorem Alike.stop (h : Alike i o o₀) (hc : o.Consistent) (hlast : i + 1 = o.engine.runs.length) :
    Alike i (o.step .stop) (o₀.step .stop) := by
  obtain ⟨r, p, hr, hp, hout, htwin⟩ := h
  have hshared := htwin.shared hlast
  have he := Engine.step_stop_eq (hc.cancels i hlast)
  have he₀ := Engine.step_stop_eq htwin.runCancel
  rw [hshared.state] at he₀
  by_cases hst : o.engine.state = .starting ∨ o.engine.state = .running
  · rw [if_pos hst] at he he₀
    refine ⟨{ r with cancelled := true }, p, ?_, hp, hout, ?_⟩
    · rw [Observed.step_engine, he, Engine.cancel_runs, hr]
      simp
    · rw [Observed.step_engine, Observed.step_engine, he, he₀]
      obtain ⟨h1, h2, h3, h4, h5, h6, h7, h8⟩ := hshared
      refine ⟨?_, htwin.runCancel, htwin.runDone, fun _ => ⟨h1, h2, h3, h4, h5, h6, h7, h8⟩⟩
      simp [Engine.cancel, htwin.run, Run.alone]
  · rw [if_neg hst] at he he₀
    exact ⟨r, p, by rw [Observed.step_engine, he]; exact hr, hp, hout,
      by rw [Observed.step_engine, Observed.step_engine, he, he₀]; exact htwin⟩

theorem Alike.stopOther (h : Alike i o o₀) (hc : o.Consistent) (hlast : i + 1 ≠ o.engine.runs.length) :
    Alike i (o.step .stop) o₀ := by
  obtain ⟨r, p, hr, hp, hout, htwin⟩ := h
  have hlt := (List.getElem?_eq_some_iff.mp hr).1
  have he := Engine.step_stop_eq (hc.cancels (o.engine.runs.length - 1) (by omega))
  have hkept : ∀ e', e' = o.engine ∨ e' = o.engine.cancel (o.engine.runs.length - 1) →
      e'.runs[i]? = .some r ∧ e'.runs.length = o.engine.runs.length := by
    intro e' he'
    rcases he' with rfl | rfl
    · exact ⟨hr, rfl⟩
    · rw [Engine.cancel_runs, hr, Engine.cancel_length]
      have hne : ¬ o.engine.runs.length - 1 = i := by omega
      simp [hne]
  obtain ⟨hr', hlen⟩ := hkept (o.engine.step .stop) (by rw [he]; split_ifs <;> simp)
  exact ⟨r, p, hr', hp, hout, htwin.run, htwin.runCancel, htwin.runDone,
    fun hl => absurd (hl.trans hlen) hlast⟩

theorem Alike.start (h : Alike i o o₀) (cfg : Config) (randomID : String) (now : Int) :
    Alike i (o.step (.start cfg randomID now)) o₀ := by
  obtain ⟨r, p, hr, hp, hout, htwin⟩ := h
  have hlt := (List.getElem?_eq_some_iff.mp hr).1
  have hlt' := (List.getElem?_eq_some_iff.mp hp).1
  by_cases hcan : o.engine.canStart = true
  · refine ⟨r, p, ?_, ?_, hout, htwin.run, htwin.runCancel, htwin.runDone, fun hl => ?_⟩
    · simp [Engine.step, Engine.startRunFromConfig, hcan, List.getElem?_append_left hlt, hr]
    · simp [Observed.step, hcan, List.getElem?_append_left hlt', hp]
    · simp [Engine.step, Engine.startRunFromConfig, hcan] at hl
      omega
  · have hstep : o.step (.start cfg randomID now) = o := by
      simp [Observed.step, Engine.step, Engine.startRunFromConfig, hcan]
    rw [hstep]
    exact ⟨r, p, hr, hp, hout, htwin⟩

theorem alike_start (hc : o.Consistent) (hcan : o.engine.canStart = true)
    (hlen : o.engine.runs.length = i) (cfg : Config) (randomID : String) (now : Int) :
    Alike i (o.step (.start cfg randomID now)) (Observed.step {} (.start cfg randomID now)) := by
  have hlen' : o.outcomes.length = i := hc.faithful.length.trans hlen
  refine ⟨{ cfg := cfg }, { cfg := cfg, runID := if cfg.runID = "" then randomID else cfg.runID },
    ?_, ?_, rfl, ?_⟩
  · simp [Engine.step, Engine.startRunFromConfig, hcan, ← hlen]
  · simp [Observed.step, Engine.step, Engine.startRunFromConfig, hcan, ← hlen']
  · simp only [Observed.step_engine, Engine.step, Engine.startRunFromConfig, hcan, if_true]
    exact ⟨rfl, rfl, rfl, fun _ =>
      ⟨rfl, rfl, rfl, rfl, rfl, rfl, by simp [Pc.measuring], by simp [Pc.measured]⟩⟩

theorem Alike.step (h : Alike i o o₀) (hc : o.Consistent) (a : Act) :
    Alike i (o.step a) ((o.engine.own i a).foldl Observed.step o₀) := by
  obtain ⟨r, p, hr, -⟩ := id h
  have hlt := (List.getElem?_eq_some_iff.mp hr).1
  cases a with
  | start cfg randomID now =>
    have hown : o.engine.own i (.start cfg randomID now) = [] := if_neg fun hs => by omega
    rw [hown]
    exact h.start cfg randomID now
  | stop =>
    simp only [Engine.own]
    split
    · next hlast => exact h.stop hc hlast.symm
    · next hlast => exact h.stopOther hc fun hl => hlast hl.symm
  | run j ev now =>
    simp only [Engine.own]
    split
    · next hj =>
      obtain ⟨rfl, -⟩ := hj
      exact h.section hc ev now
    · next hj => exact h.other hc (fun he => hj ⟨he, hlt⟩) ev now

end

theorem alone_eq_nil {i : Nat} {acts : List Act} (h : (Engine.after acts).runs.length ≤ i) :
    alone i acts = [] := by
  induction acts using List.reverseRecOn with
  | nil => rfl
  | append_singleton acts a ih =>
    have hafter : Engine.after (acts ++ [a]) = (Engine.after acts).step a := by simp [Engine.after]
    rw [hafter] at h
    by_cases hacc : (Engine.after acts).Accepts a
    · cases a with
      | start cfg randomID now =>
        have hcan : (Engine.after acts).canStart = true := hacc
        simp only [Engine.step, Engine.startRunFromConfig, hcan, if_true, List.length_append,
          List.length_singleton] at h
        rw [alone_snoc, ih (by omega), Engine.own, if_neg (by omega)]
        rfl
      | stop => cases hacc
      | run j ev now => cases hacc
    · rw [Engine.length_step hacc] at h
      rw [alone_snoc, ih h]
      cases a with
      | start cfg randomID now =>
        have hcan : ¬ (Engine.after acts).canStart = true := hacc
        exact if_neg fun hs => hcan hs.1
      | stop => exact if_neg (by omega)
      | run j ev now => exact if_neg (by omega)

/-- **Runs are isolated.** While starts are settled, whatever the requests and
however many runs came before or after it: what a run leaves (its id, snapshots,
verdict, and the memory that the verdict was computed from) is what it leaves in a
new engine that takes the steps of this run and no others. -/
theorem run_isolated (acts : List Act)
    (hs : Past.Always (fun pre a => (Engine.after pre).StartsSettled a) acts) {i : Nat}
    (hi : i < (Engine.after acts).runs.length) :
    ∃ p, (Observed.after acts).outcomes[i]? = .some p ∧
      (Observed.after (alone i acts)).outcomes = [p] := by
  have hall : i < (Engine.after acts).runs.length →
      Alike i (Observed.after acts) (Observed.after (alone i acts)) := by
    clear hi
    induction acts using List.reverseRecOn with
    | nil => exact fun hi => absurd hi (Nat.not_lt_zero i)
    | append_singleton acts a ih =>
      obtain ⟨hacts, ha⟩ := Past.always_snoc.mp hs
      have hc := Observed.consistent_after hacts
      have hengine := Observed.after_engine acts
      have hafter : Observed.after (acts ++ [a]) = (Observed.after acts).step a := by
        simp [Observed.after]
      have halone : Observed.after (alone i (acts ++ [a])) =
          (((Observed.after acts).engine.own i a).foldl Observed.step
            (Observed.after (alone i acts))) := by
        rw [alone_snoc, Observed.after, List.foldl_append, hengine]
        rfl
      rw [← Observed.after_engine, hafter, halone]
      intro hi
      by_cases hlt : i < (Engine.after acts).runs.length
      · exact (ih hacts hlt).step hc a
      · -- The step is the start of this very run.
        have hacc : (Observed.after acts).engine.Accepts a := by
          by_contra hno
          rw [Observed.step_engine, Engine.length_step hno, hengine] at hi
          exact hlt hi
        cases a with
        | start cfg randomID now =>
          have hcan : (Observed.after acts).engine.canStart = true := hacc
          have hlen : (Observed.after acts).engine.runs.length = i := by
            simp only [Observed.step_engine, Engine.step, Engine.startRunFromConfig, hcan, if_true,
              List.length_append, List.length_singleton] at hi
            rw [hengine] at hi ⊢
            omega
          have hown : (Observed.after acts).engine.own i (.start cfg randomID now) =
              [.start cfg randomID now] :=
            if_pos ⟨hcan, hlen⟩
          rw [hown, alone_eq_nil (not_lt.mp hlt)]
          exact alike_start hc hcan hlen cfg randomID now
        | stop => cases hacc
        | run j ev now => cases hacc
  obtain ⟨r, p, -, hp, hout, -⟩ := hall hi
  exact ⟨p, hp, hout⟩

/-- The steps of a first run, as those of a second. -/
def Act.second : Act → Act
  | .run _ ev now => .run 1 ev now
  | a => a

/-- A run whose consumers do not start, then one that runs its hour. -/
def failedThenHour : List Act :=
  earlyRestart.take 3 ++ [.run 0 .next 4, .run 0 .next 5] ++ (draining ++ drained).map Act.second

set_option maxRecDepth 20000 in
/-- The second run passes, as it would alone. -/
theorem isolated_failedThenHour :
    ∃ p, (Observed.after failedThenHour).outcomes[1]? = .some p ∧
      (Observed.after (alone 1 failedThenHour)).outcomes = [p] ∧
        p.verdict.map (·.passed) = .some true := by
  have hs : Past.Always (fun pre a => (Engine.after pre).StartsSettled a) failedThenHour := by
    decide +kernel
  have hpassed : (Observed.after failedThenHour).outcomes[1]?.map (fun p => p.verdict.map (·.passed)) =
      .some (.some true) := by decide +kernel
  obtain ⟨p, hp, halone⟩ := run_isolated failedThenHour hs (i := 1) (by decide +kernel)
  rw [hp] at hpassed
  exact ⟨p, hp, halone, Option.some.inj hpassed⟩

end Burnin
