/-
The memory gate over a whole run: `memoryTracker` (`burnin/engine/engine.go`),
whose rounds the engine takes as steps, and the last look in `shutdownWorkers`.

The tracker and the verdict work on two fields that all runs share, and the
tracker asks `e.runCfg` how long to wait for its baseline. While starts are
settled these are the run's own: the verdict is computed from the largest reading
of the run and from the first one that its own configuration admits as a baseline
(`memory_warning_iff`). `Tracking` runs the tracker beside the engine: it notes
its own start, takes a round whenever the run measures, and stores a baseline by
its own rule.
-/
import Burnin.Consistent
import Burnin.Shutdown

namespace Burnin

/-- A reading of `m.Sys`. -/
structure Reading where
  time : Int
  sys : UInt64
  /-- in a round of `memoryTracker`, and not by `shutdownWorkers` -/
  round : Bool
  /-- it was stored as the baseline -/
  baseline : Bool
  deriving DecidableEq

/-- `deadline`, from `e.runCfg`. -/
def baselineAfter : Option Config → Int
  | .some cfg =>
    if cfg.durationParsed > 0 ∧ cfg.durationParsed < 300 * 10 ^ 9 then 10 * 10 ^ 9 else 300 * 10 ^ 9
  | .none => 300 * 10 ^ 9

/-- Where the run `i` is. -/
def Engine.pcOf (e : Engine) (i : Nat) : Option Pc := (e.runs[i]?).map (·.pc)

/-- The readings that a step adds to those of the run `i`. -/
def Engine.reads (i : Nat) (e : Engine) : Act → List Reading
  | .run j (.sampled sys baseline) now =>
    if j = i then
      match e.pcOf i with
      | .some .measure => [⟨now, sys, true, baseline⟩]
      | .some .lastSample => [⟨now, sys, false, false⟩]
      | _ => []
    else []
  | _ => []

/-- The readings of the run `i`, in order. -/
def readings (i : Nat) (acts : List Act) : List Reading :=
  Past.collect (fun pre a => (Engine.after pre).reads i a) acts

theorem readings_snoc (i : Nat) (acts : List Act) (a : Act) :
    readings i (acts ++ [a]) = readings i acts ++ (Engine.after acts).reads i a :=
      Past.collect_snoc _ _ _

/-- `if !baselineSet && time.Since(start) >= deadline`, in a round of the memory
tracker of the run `i`. -/
def Engine.Tracks (i : Nat) (start : Int) (e : Engine) (before : List Reading) : Act → Prop
  | .run j (.sampled _ baseline) now =>
    j = i → e.pcOf i = .some .measure →
      baseline = (!before.any (·.baseline) && decide (baselineAfter e.runCfg ≤ now - start))
  | _ => True

/-- The largest reading. -/
def peakOf (rs : List Reading) : UInt64 :=
  rs.foldl (fun peak r => if r.sys > peak then r.sys else peak) 0

/-- The reading stored last as the baseline. -/
def baselineOf (rs : List Reading) : UInt64 := rs.foldl (fun b r => if r.baseline then r.sys else b) 0

/-- The engine's two fields hold what the readings give. -/
structure Weighs (rs : List Reading) (baseline peak : UInt64) : Prop where
  peak : peak = peakOf rs
  baseline : baseline = baselineOf rs

theorem Weighs.sample {rs : List Reading} {e : Engine}
    (h : Weighs rs e.baselineRSS e.peakRSS) (time : Int) (sys : UInt64) (round b : Bool) :
    Weighs (rs ++ [⟨time, sys, round, b⟩]) (e.sample sys b).baselineRSS (e.sample sys b).peakRSS := by
  obtain ⟨hp, hb⟩ := h
  refine ⟨?_, ?_⟩
  · simp only [Engine.sample, peakOf, List.foldl_append, List.foldl_cons, List.foldl_nil]
    rw [← peakOf, hp]
  · simp only [Engine.sample, baselineOf, List.foldl_append, List.foldl_cons, List.foldl_nil]
    rw [← baselineOf, hb]

/-- A section that is no reading leaves the two fields. -/
theorem Engine.runLoop_memory {e e' : Engine} {i : Nat} {r : Run} {now : Int} {ev : Event}
    (h : e.runLoop i r now r.pc ev = .some e') (hev : ∀ sys b, ev ≠ .sampled sys b) :
    e'.baselineRSS = e.baselineRSS ∧ e'.peakRSS = e.peakRSS := by
  unfold Engine.runLoop at h
  split at h
  case h_7 | h_12 => exact absurd rfl (hev _ _)
  case h_8 | h_9 =>
    split at h
    · cases h
      exact ⟨rfl, rfl⟩
    · cases h
  case h_16 done _ =>
    cases h
    cases done <;> exact ⟨rfl, rfl⟩
  case h_17 => cases h
  all_goals
    cases h
    exact ⟨rfl, rfl⟩

/-- The readings of the run `i` are what the engine, while it is the last run,
and what it has left, once it has a verdict, hold. -/
structure Weighed (i : Nat) (acts : List Act) : Prop where
  before : (Engine.after acts).runs.length ≤ i → readings i acts = []
  current : i + 1 = (Engine.after acts).runs.length →
    Weighs (readings i acts) (Engine.after acts).baselineRSS (Engine.after acts).peakRSS
  left : ∀ p, (Observed.after acts).outcomes[i]? = .some p → p.verdict.isSome = true →
    Weighs (readings i acts) p.baselineRSS p.peakRSS

theorem Engine.reads_eq_nil {i : Nat} {e : Engine} {a : Act}
    (h : ∀ sys b now, a = .run i (.sampled sys b) now → e.pcOf i ≠ .some .measure ∧
      e.pcOf i ≠ .some .lastSample) :
    e.reads i a = [] := by
  unfold Engine.reads
  split
  · next j sys b now =>
    split
    · next hj =>
      subst hj
      obtain ⟨hm, hl⟩ := h sys b now rfl
      split
      · next hpc => exact absurd hpc hm
      · next hpc => exact absurd hpc hl
      · rfl
    · rfl
  · rfl

theorem Engine.reads_of_none {i : Nat} {e : Engine} {r : Run} (hr : e.runs[i]? = .some r)
    {now : Int} {ev : Event} (hl : e.runLoop i r now r.pc ev = .none) :
    e.reads i (.run i ev now) = [] := by
  refine Engine.reads_eq_nil fun sys b now' he => ?_
  cases he
  simp only [Engine.pcOf, hr, Option.map_some, ne_eq, Option.some.injEq]
  refine ⟨fun hpc => ?_, fun hpc => ?_⟩ <;> rw [hpc] at hl <;> cases hl

section
variable {i : Nat} {acts : List Act}

theorem weighed_nil : Weighed i [] :=
  ⟨fun _ => rfl, fun h => absurd h (Nat.succ_ne_zero i), fun p hp => by simp [Observed.after] at hp⟩

theorem after_snoc (a : Act) : Engine.after (acts ++ [a]) = (Engine.after acts).step a := by
  simp [Engine.after]

theorem observed_after_snoc (a : Act) : Observed.after (acts ++ [a]) = (Observed.after acts).step a := by
  simp [Observed.after]

/-- A step that leaves the readings, the two fields (while the run is the last)
and what the run has left. -/
theorem Weighed.frame (h : Weighed i acts) {a : Act} (hreads : (Engine.after acts).reads i a = [])
    (hlen : (Engine.after acts).runs.length ≤ ((Engine.after acts).step a).runs.length)
    (hcurrent : i + 1 = ((Engine.after acts).step a).runs.length →
      i + 1 = (Engine.after acts).runs.length ∧
        ((Engine.after acts).step a).baselineRSS = (Engine.after acts).baselineRSS ∧
        ((Engine.after acts).step a).peakRSS = (Engine.after acts).peakRSS ∨
      (Engine.after acts).runs.length = i ∧ ((Engine.after acts).step a).baselineRSS = 0 ∧
        ((Engine.after acts).step a).peakRSS = 0)
    (hleft : ∀ p, ((Observed.after acts).step a).outcomes[i]? = .some p → p.verdict.isSome = true →
      (Observed.after acts).outcomes[i]? = .some p) : Weighed i (acts ++ [a]) := by
  refine ⟨fun hl => ?_, fun hl => ?_, fun p hp hv => ?_⟩
  · rw [after_snoc] at hl
    rw [readings_snoc, hreads, h.before (by omega)]
    rfl
  · rw [after_snoc] at hl ⊢
    rw [readings_snoc, hreads, List.append_nil]
    rcases hcurrent hl with ⟨hl', hb, hp⟩ | ⟨hl', hb, hp⟩
    · rw [hb, hp]
      exact h.current hl'
    · rw [hb, hp, h.before hl'.le]
      exact ⟨rfl, rfl⟩
  · rw [observed_after_snoc] at hp
    rw [readings_snoc, hreads, List.append_nil]
    exact h.left p (hleft p hp hv) hv

theorem Weighed.start (h : Weighed i acts) (hf : (Observed.after acts).Faithful) (cfg : Config)
    (randomID : String) (now : Int) : Weighed i (acts ++ [.start cfg randomID now]) := by
  have hlength := hf.length
  rw [Observed.after_engine] at hlength
  by_cases hcan : (Engine.after acts).canStart = true
  · refine h.frame rfl ?_ (fun hl => .inr ?_) fun p hp hv => ?_
    · simp [Engine.step, Engine.startRunFromConfig, hcan]
    · simp [Engine.step, Engine.startRunFromConfig, hcan] at hl ⊢
      omega
    · simp only [Observed.step, Observed.after_engine, hcan, if_true] at hp
      rcases Nat.lt_or_ge i (Observed.after acts).outcomes.length with hlt | hge
      · rwa [List.getElem?_append_left hlt] at hp
      · rw [List.getElem?_append_right hge, List.getElem?_singleton] at hp
        split at hp
        · cases hp
          cases hv
        · cases hp
  · have hstep : (Engine.after acts).step (.start cfg randomID now) = Engine.after acts := by
      simp [Engine.step, Engine.startRunFromConfig, hcan]
    refine h.frame rfl (by rw [hstep]) (fun hl => .inl ?_) fun p hp _ => ?_
    · rw [hstep] at hl ⊢
      exact ⟨hl, rfl, rfl⟩
    · simpa [Observed.step, Observed.after_engine, hcan] using hp

theorem Weighed.stop (h : Weighed i acts) : Weighed i (acts ++ [.stop]) := by
  refine h.frame rfl ?_ (fun hl => .inl ?_) fun p hp _ => hp
  · rw [Engine.length_step id]
  · rw [Engine.length_step id] at hl
    rcases (Engine.after acts).step_stop with he | ⟨c, he⟩
    · rw [he]
      exact ⟨hl, rfl, rfl⟩
    · rw [he]
      exact ⟨hl, rfl, rfl⟩

theorem Weighed.section (h : Weighed i acts) (hf : (Observed.after acts).Faithful) {r : Run}
    (hr : (Engine.after acts).runs[i]? = .some r) {ev : Event} {now : Int} {e' : Engine}
    (hl : (Engine.after acts).runLoop i r now r.pc ev = .some e') :
    Weighed i (acts ++ [.run i ev now]) := by
  have hengine := Observed.after_engine acts
  have hstep : (Engine.after acts).step (.run i ev now) = e' := by simp [Engine.step, hr, hl]
  obtain ⟨pc, hg, hs⟩ := Engine.runLoop_goes hr hl
  have hlast : i + 1 = (Engine.after acts).runs.length := (hengine ▸ hf.lifecycle).last hr hs.live
  have hpcOf : (Engine.after acts).pcOf i = .some r.pc := by simp [Engine.pcOf, hr]
  have hcurrent : Weighs (readings i (acts ++ [.run i ev now])) e'.baselineRSS e'.peakRSS := by
    rw [readings_snoc]
    by_cases hev : ∃ sys b, ev = .sampled sys b
    · obtain ⟨sys, b, rfl⟩ := hev
      simp only [Engine.reads, if_true, hpcOf]
      revert hl hg
      generalize r.pc = pc₀
      intro hl hg
      cases hg with
      | sampled =>
        cases hl
        exact (h.current hlast).sample now sys true b
      | lastSample =>
        cases hl
        exact (h.current hlast).sample now sys false false
    · have hnot : ∀ sys b, ev ≠ .sampled sys b := fun sys b he => hev ⟨sys, b, he⟩
      obtain ⟨hb, hp⟩ := Engine.runLoop_memory hl hnot
      rw [Engine.reads_eq_nil fun sys b now' he => absurd (Act.run.inj he).2.1 (hnot sys b),
        List.append_nil, hb, hp]
      exact h.current hlast
  refine ⟨fun hle => ?_, fun _ => ?_, fun p' hp' hv' => ?_⟩
  · rw [after_snoc, hstep, hs.length] at hle
    omega
  · rw [after_snoc, hstep]
    exact hcurrent
  · obtain ⟨r', p, hr', hp, hleaves⟩ := hf.last (i := i) (by rw [hengine]; exact hlast)
    rw [hengine, hr] at hr'
    cases hr'
    simp only [observed_after_snoc, Observed.step, hengine, hr, hstep, List.getElem?_modify, if_true, hp,
      Option.map_eq_map, Option.map_some, Option.some.injEq] at hp'
    subst hp'
    by_cases hjudged : r.pc.judged = true
    · -- The run is past its verdict, and reads nothing more.
      rw [RunOutcome.note_judged p _ ev hjudged] at hv' ⊢
      have hpast : ∀ q : Pc, q.judged = false → (Engine.after acts).pcOf i ≠ .some q := by
        intro q hq he
        rw [hpcOf] at he
        cases he
        rw [hjudged] at hq
        cases hq
      rw [readings_snoc, Engine.reads_eq_nil fun _ _ _ _ => ⟨hpast _ rfl, hpast _ rfl⟩, List.append_nil]
      exact h.left p hp hv'
    · have hnone := hleaves.not_judged (Bool.eq_false_iff.mpr hjudged)
      revert hv'
      unfold RunOutcome.note
      split
      · exact fun hv' => absurd hv' hnone
      · exact fun _ => hcurrent
      · exact fun hv' => absurd hv' hnone

theorem Weighed.step (h : Weighed i acts) (hf : (Observed.after acts).Faithful) (a : Act) :
    Weighed i (acts ++ [a]) := by
  cases a with
  | start cfg randomID now => exact h.start hf cfg randomID now
  | stop => exact h.stop
  | run j ev now =>
    have hengine := Observed.after_engine acts
    cases hr : (Engine.after acts).runs[j]? with
    | none =>
      have hstep : (Engine.after acts).step (.run j ev now) = Engine.after acts := by
        simp [Engine.step, hr]
      refine h.frame (Engine.reads_eq_nil fun sys b now' he => ?_) (by rw [hstep])
        (fun hl => .inl ?_) fun p hp _ => ?_
      · cases he
        simp [Engine.pcOf, hr]
      · rw [hstep] at hl ⊢
        exact ⟨hl, rfl, rfl⟩
      · simpa [Observed.step, hengine, hr] using hp
    | some r =>
      cases hl : (Engine.after acts).runLoop j r now r.pc ev with
      | none =>
        have hstep : (Engine.after acts).step (.run j ev now) = Engine.after acts := by
          simp [Engine.step, hr, hl]
        have hmodify : ((Observed.after acts).outcomes.modify j fun p => p) =
            (Observed.after acts).outcomes :=
          List.modify_id j _
        refine h.frame ?_ (by rw [hstep]) (fun hle => .inl ?_) fun p hp _ => ?_
        · by_cases hj : j = i
          · subst hj
            exact Engine.reads_of_none hr hl
          · exact Engine.reads_eq_nil fun sys b now' he => absurd (Act.run.inj he).1 hj
        · rw [hstep] at hle ⊢
          exact ⟨hle, rfl, rfl⟩
        · simpa [Observed.step, hengine, hr, hstep, RunOutcome.note_of_none _ hl, hmodify] using hp
      | some e' =>
        by_cases hj : j = i
        · subst hj
          exact h.section hf hr hl
        · -- The other run is the last one.
          have hstep : (Engine.after acts).step (.run j ev now) = e' := by simp [Engine.step, hr, hl]
          obtain ⟨pc, -, hs⟩ := Engine.runLoop_goes hr hl
          have hlast : j + 1 = (Engine.after acts).runs.length :=
            (hengine ▸ hf.lifecycle).last hr hs.live
          refine h.frame (Engine.reads_eq_nil fun sys b now' he => absurd (Act.run.inj he).1 hj) ?_
            (fun hle => ?_) fun p hp _ => ?_
          · rw [hstep, hs.length]
          · rw [hstep, hs.length] at hle
            omega
          · simpa [Observed.step, hengine, hr, hj] using hp

end

theorem weighed_after (i : Nat) {acts : List Act}
    (hs : Past.Always (fun pre a => (Engine.after pre).StartsSettled a) acts) : Weighed i acts := by
  induction acts using List.reverseRecOn with
  | nil => exact weighed_nil
  | append_singleton acts a ih =>
    obtain ⟨hacts, -⟩ := Past.always_snoc.mp hs
    exact (ih hacts).step (Observed.faithful_after hacts) a

/-! ## The baseline -/

/-- A round at or after the deadline. -/
def Reading.due (wait start : Int) (r : Reading) : Bool := r.round && decide (wait ≤ r.time - start)

/-- The readings are stored as the tracker stores them. -/
def Ruled (wait start : Int) (rs : List Reading) : Prop :=
  Past.Always (fun pre r => r.baseline = (!pre.any (·.baseline) && r.due wait start)) rs

/-- The first reading that is due is the baseline. -/
theorem Ruled.baselineOf {wait start : Int} {rs : List Reading} (h : Ruled wait start rs) :
    rs.any (·.baseline) = rs.any (·.due wait start) ∧
      Burnin.baselineOf rs = (rs.find? (·.due wait start)).elim 0 (·.sys) := by
  induction rs using List.reverseRecOn with
  | nil => exact ⟨rfl, rfl⟩
  | append_singleton rs r ih =>
    obtain ⟨hrs, hr⟩ := Past.always_snoc.mp h
    obtain ⟨hany, hbase⟩ := ih hrs
    have hsnoc : Burnin.baselineOf (rs ++ [r]) = if r.baseline then r.sys else Burnin.baselineOf rs := by
      simp [Burnin.baselineOf]
    rw [hany] at hr
    refine ⟨?_, ?_⟩
    · simp only [List.any_append, hany, hr, List.any_cons, List.any_nil, Bool.or_false]
      cases rs.any (·.due wait start) <;> simp
    · rw [hsnoc, hbase, hr, List.find?_append]
      cases hfind : rs.find? (·.due wait start) with
      | some s =>
        have hsome : rs.any (·.due wait start) = true := by
          rw [List.any_eq_true]
          exact ⟨s, List.mem_of_find?_eq_some hfind, List.find?_some hfind⟩
        simp [hsome]
      | none =>
        have hnone : rs.any (·.due wait start) = false := by
          rw [List.any_eq_false]
          exact List.find?_eq_none.mp hfind
        cases hdue : r.due wait start <;> simp [hnone, hdue]

theorem Engine.cfg_step {e : Engine} {a : Act} {i : Nat} {r r' : Run} (hr : e.runs[i]? = .some r)
    (hr' : (e.step a).runs[i]? = .some r') : r'.cfg = r.cfg := by
  have hlt := (List.getElem?_eq_some_iff.mp hr).1
  by_cases hacc : e.Accepts a
  · cases a with
    | start cfg randomID now =>
      have hcan : e.canStart = true := hacc
      simp only [Engine.step, Engine.startRunFromConfig, hcan, if_true,
        List.getElem?_append_left hlt, hr] at hr'
      cases hr'
      rfl
    | stop => cases hacc
    | run j ev now => cases hacc
  · rcases Engine.step_cases hacc with he | ⟨c, he⟩ | ⟨j, s, ev, now, pc, hs, -, -, hsec⟩
    · rw [he, hr] at hr'
      cases hr'
      rfl
    · rw [he, Engine.cancel_runs, hr] at hr'
      cases hr'
      rfl
    · rw [hsec.runs] at hr'
      split at hr'
      · next hij =>
        subst hij
        cases hr.symm.trans hs
        cases hr'
        rfl
      · cases hr.symm.trans hr'
        rfl

theorem Observed.cfg_step {o : Observed} {a : Act} {i : Nat} {p p' : RunOutcome}
    (hp : o.outcomes[i]? = .some p) (hp' : (o.step a).outcomes[i]? = .some p') : p'.cfg = p.cfg := by
  have hlt := (List.getElem?_eq_some_iff.mp hp).1
  cases a with
  | start cfg randomID now =>
    simp only [Observed.step] at hp'
    split at hp'
    · rw [List.getElem?_append_left hlt, hp] at hp'
      cases hp'
      rfl
    · cases hp.symm.trans hp'
      rfl
  | stop =>
    cases hp.symm.trans hp'
    rfl
  | run j ev now =>
    have hcfgs := congrArg (fun l => l[i]?) (Observed.cfgs_step (o := o) (a := .run j ev now) id)
    simp only [List.getElem?_map, hp, hp', Option.map_some, Option.some.injEq] at hcfgs
    exact hcfgs

/-- The tracker of the run `i`, started at `start`, follows its own rule along a
history; it reads the configuration in the engine. -/
def MemoryTracked (i : Nat) (start : Int) (acts : List Act) : Prop :=
  Past.Always (fun pre a => (Engine.after pre).Tracks i start (readings i pre) a) acts

/-- So the rule is that of the run's own configuration. -/
theorem ruled_after {i : Nat} {start : Int} {acts : List Act}
    (hs : Past.Always (fun pre a => (Engine.after pre).StartsSettled a) acts)
    (ht : MemoryTracked i start acts) {p : RunOutcome}
    (hp : (Observed.after acts).outcomes[i]? = .some p) :
    Ruled (baselineAfter (.some p.cfg)) start (readings i acts) := by
  induction acts using List.reverseRecOn generalizing p with
  | nil => simp [Observed.after] at hp
  | append_singleton acts a ih =>
    obtain ⟨hacts, -⟩ := Past.always_snoc.mp hs
    obtain ⟨htracked, ha⟩ := Past.always_snoc.mp ht
    have hf := Observed.faithful_after hacts
    have hengine := Observed.after_engine acts
    rw [observed_after_snoc] at hp
    rw [readings_snoc]
    rcases Nat.lt_or_ge i (Observed.after acts).outcomes.length with hlt | hge
    · obtain ⟨q, hq⟩ : ∃ q, (Observed.after acts).outcomes[i]? = .some q :=
        ⟨_, List.getElem?_eq_getElem hlt⟩
      have hruled := ih hacts htracked hq
      have hcfg := Observed.cfg_step hq hp
      rw [← hcfg] at hruled
      cases hreads : (Engine.after acts).reads i a with
      | nil => rwa [List.append_nil]
      | cons r rest =>
        obtain ⟨rfl, hr⟩ : rest = [] ∧ r.baseline = (!(readings i acts).any (·.baseline) &&
            r.due (baselineAfter (.some p.cfg)) start) := by
          unfold Engine.reads at hreads
          split at hreads
          · next j sys b now =>
            split at hreads
            · next hj =>
              split at hreads
              · next hpc =>
                cases hreads
                have hb := ha hj hpc
                -- The run is live, so it is the last, and the engine has its configuration.
                have hpcOf := hpc
                simp only [Engine.pcOf, Option.map_eq_some_iff] at hpcOf
                obtain ⟨r₀, hr₀, hmeasure⟩ := hpcOf
                have hlast := (hengine ▸ hf.lifecycle).last hr₀ (by rw [hmeasure]; simp)
                obtain ⟨r₁, q', -, hq', hleaves⟩ := hf.last (i := i) (by rw [hengine]; exact hlast)
                cases hq.symm.trans hq'
                have hrunCfg := hleaves.runCfg
                rw [hengine] at hrunCfg
                rw [hrunCfg] at hb
                rw [hcfg]
                exact ⟨rfl, by simpa [Reading.due] using hb⟩
              · cases hreads
                exact ⟨rfl, by simp [Reading.due]⟩
              · cases hreads
            · cases hreads
          · cases hreads
        exact Past.always_snoc.mpr ⟨hruled, hr⟩
    · -- The run is started by this step, or later.
      have hlen := hf.length
      rw [hengine] at hlen
      have hnone := (weighed_after i hacts).before (by omega)
      have hreads : (Engine.after acts).reads i a = [] := by
        refine Engine.reads_eq_nil fun sys b now _ => ?_
        have hrun : (Engine.after acts).runs[i]? = .none := List.getElem?_eq_none (by omega)
        simp [Engine.pcOf, hrun]
      rw [hnone, hreads]
      exact Past.always_nil

/-! ## The verdict -/

/-- A verdict was computed from the configuration of its run and the memory that
was noted with it. -/
structure Computed (o : Observed) : Prop where
  cfg : ∀ (i : Nat) (r : Run) (p : RunOutcome), o.engine.runs[i]? = .some r →
    o.outcomes[i]? = .some p → r.cfg = p.cfg
  verdict : ∀ p ∈ o.outcomes, ∀ v, p.verdict = .some v →
    ∃ d snaps, v = computeVerdict p.cfg d p.baselineRSS p.peakRSS snaps

/-- A section notes a verdict only where it computes one. -/
theorem RunOutcome.note_verdict (p : RunOutcome) {e : Engine} {j : Nat} {r : Run}
    (hr : e.runs[j]? = .some r) (ev : Event) (now : Int) {v : VerdictResult}
    (hv : (p.note (e.step (.run j ev now)) r.pc ev).verdict = .some v) :
    (p.verdict = .some v ∧ (p.note (e.step (.run j ev now)) r.pc ev).baselineRSS = p.baselineRSS ∧
        (p.note (e.step (.run j ev now)) r.pc ev).peakRSS = p.peakRSS) ∨
      ∃ d snaps, v = computeVerdict r.cfg d (p.note (e.step (.run j ev now)) r.pc ev).baselineRSS
        (p.note (e.step (.run j ev now)) r.pc ev).peakRSS snaps := by
  obtain ⟨cfg, cancelled, pc⟩ := r
  cases pc with
  | capture => cases ev <;> exact .inl ⟨hv, rfl, rfl⟩
  | verdict =>
    cases ev with
    | ranged order =>
      have hstep : e.step (.run j (.ranged order) now) = (e.storeVerdict cfg order).goto j .summary := by
        simp [Engine.step, hr, Engine.runLoop]
      rw [hstep] at hv ⊢
      cases hv
      exact .inr ⟨_, _, rfl⟩
    | _ => exact .inl ⟨hv, rfl, rfl⟩
  | _ => exact .inl ⟨hv, rfl, rfl⟩

theorem Computed.step {o : Observed} (h : Computed o) (hf : o.Faithful) {a : Act}
    (ha : o.engine.StartsSettled a) : Computed (o.step a) := by
  have hlength := hf.length
  have hlength' := (hf.step ha).length
  refine ⟨fun i r' p' hr' hp' => ?_, fun p' hmem v hv => ?_⟩
  · rcases Nat.lt_or_ge i o.outcomes.length with hlt | hge
    · obtain ⟨p, hp⟩ : ∃ p, o.outcomes[i]? = .some p := ⟨_, List.getElem?_eq_getElem hlt⟩
      obtain ⟨r, hr⟩ : ∃ r, o.engine.runs[i]? = .some r := ⟨_, List.getElem?_eq_getElem (hlength ▸ hlt)⟩
      rw [Observed.cfg_step hp hp', ← h.cfg i r p hr hp]
      exact Engine.cfg_step hr hr'
    · -- Only an accepted start adds a run.
      have hlt := (List.getElem?_eq_some_iff.mp hr').1
      by_cases hacc : o.engine.Accepts a
      · cases a with
        | start cfg randomID now =>
          have hcan : o.engine.canStart = true := hacc
          simp only [Observed.step, Engine.step, Engine.startRunFromConfig, hcan, if_true] at hr' hp'
          rw [List.getElem?_append_right hge] at hp'
          rw [List.getElem?_append_right (hlength ▸ hge), ← hlength] at hr'
          rw [List.getElem?_singleton] at hp' hr'
          split at hp'
          · next hzero =>
            rw [if_pos hzero] at hr'
            cases hp'
            cases hr'
            rfl
          · cases hp'
        | stop => cases hacc
        | run j ev now => cases hacc
      · rw [Observed.step_engine, Engine.length_step hacc] at hlt
        omega
  · obtain ⟨i, hi⟩ := List.getElem?_of_mem hmem
    cases a with
    | start cfg randomID now =>
      simp only [Observed.step] at hmem
      split at hmem
      · rcases List.mem_append.mp hmem with hold | hnew
        · exact h.verdict p' hold v hv
        · cases List.mem_singleton.mp hnew
          cases hv
      · exact h.verdict p' hmem v hv
    | stop => exact h.verdict p' hmem v hv
    | run j ev now =>
      simp only [Observed.step] at hi
      split at hi
      · next r hr =>
        by_cases hij : j = i
        · subst hij
          cases hp : o.outcomes[j]? with
          | none => simp [hp] at hi
          | some p =>
            have hnote : p' = p.note (o.engine.step (.run j ev now)) r.pc ev := by
              simpa [hp] using hi.symm
            subst hnote
            rw [RunOutcome.note_cfg]
            rcases p.note_verdict hr ev now hv with ⟨hold, hb, hpk⟩ | hnew
            · rw [hb, hpk]
              exact h.verdict p (List.mem_of_getElem? hp) v hold
            · rwa [h.cfg j r p hr hp] at hnew
        · have hold : o.outcomes[i]? = .some p' := by simpa [hij] using hi
          exact h.verdict p' (List.mem_of_getElem? hold) v hv
      · exact h.verdict p' (List.mem_of_getElem? hi) v hv

theorem computed_after {acts : List Act}
    (hs : Past.Always (fun pre a => (Engine.after pre).StartsSettled a) acts) :
    Computed (Observed.after acts) := by
  induction acts using List.reverseRecOn with
  | nil => exact ⟨by simp [Observed.after], by simp [Observed.after]⟩
  | append_singleton acts a ih =>
    obtain ⟨hacts, ha⟩ := Past.always_snoc.mp hs
    rw [observed_after_snoc]
    refine (ih hacts).step (Observed.faithful_after hacts) ?_
    rw [Observed.after_engine]
    exact ha

theorem lt_peakOf {x : ℚ} (hx : 0 ≤ x) (rs : List Reading) :
    x < (peakOf rs).toNat ↔ ∃ r ∈ rs, x < r.sys.toNat := by
  induction rs using List.reverseRecOn with
  | nil => simpa [peakOf] using hx
  | append_singleton rs r ih =>
    have hsnoc : (peakOf (rs ++ [r])).toNat = max (peakOf rs).toNat r.sys.toNat := by
      simp only [peakOf, List.foldl_append, List.foldl_cons, List.foldl_nil]
      split
      · next hgt => rw [max_eq_right (UInt64.lt_iff_toNat_lt.mp hgt).le]
      · next hle => rw [max_eq_left (not_lt.mp fun hlt => hle (UInt64.lt_iff_toNat_lt.mpr hlt))]
    rw [hsnoc, Nat.cast_max, lt_max_iff, ih]
    simp [or_and_right, exists_or]

/-- When a run passes with a warning, with the tracker's rule and the range of the
factor as assumptions. -/
theorem warning_iff_of_tracked {acts : List Act}
    (hs : Past.Always (fun pre a => (Engine.after pre).StartsSettled a) acts) {i : Nat}
    {start : Int} (ht : MemoryTracked i start acts) {p : RunOutcome}
    (hp : (Observed.after acts).outcomes[i]? = .some p) {v : VerdictResult}
    (hv : p.verdict = .some v) (hfactor : 1 ≤ p.cfg.thresholds.maxMemoryGrowthFactor) :
    v.result = .passedWithWarnings ↔
      v.passed = true ∧ ∃ b, (readings i acts).find? (·.due (baselineAfter (.some p.cfg)) start) =
        .some b ∧ 0 < b.sys ∧
        ∃ r ∈ readings i acts, p.cfg.thresholds.maxMemoryGrowthFactor * b.sys.toNat < r.sys.toNat := by
  classical
  obtain ⟨hpeak, hbase⟩ := (weighed_after i hs).left p hp (by rw [hv]; rfl)
  obtain ⟨-, hfirst⟩ := (ruled_after hs ht hp).baselineOf
  obtain ⟨d, snaps, rfl⟩ := (computed_after hs).verdict p (List.mem_of_getElem? hp) v hv
  have hgrew : MemoryGrew p.cfg p.baselineRSS p.peakRSS ↔
      ∃ b, (readings i acts).find? (·.due (baselineAfter (.some p.cfg)) start) = .some b ∧ 0 < b.sys ∧
        ∃ r ∈ readings i acts, p.cfg.thresholds.maxMemoryGrowthFactor * b.sys.toNat < r.sys.toNat := by
    rw [hbase, hfirst, hpeak]
    cases hfind : (readings i acts).find? (·.due (baselineAfter (.some p.cfg)) start) with
    | none => simp [MemoryGrew]
    | some b =>
      simp only [Option.elim_some, Option.some.injEq, exists_eq_left', MemoryGrew]
      refine and_congr_right fun hpos => ?_
      have hpos' : (0 : ℚ) < b.sys.toNat := by exact_mod_cast UInt64.lt_iff_toNat_lt.mp hpos
      rw [memoryGrowth, lt_div_iff₀ hpos', lt_peakOf (mul_nonneg (zero_le_one.trans hfactor) hpos'.le)]
  rw [computeVerdict_result hfactor, ← hgrew]
  split_ifs with hpassed hm
  · simp [hpassed, hm]
  · simp [hpassed, hm]
  · simp [hpassed]

/-! ## The tracker takes its own steps -/

/-- `start` and `baselineSet` of `memoryTracker`. -/
structure MemoryTracker where
  start : Int
  baselineSet : Bool := false

/-- The engine with the memory trackers of its runs. -/
structure Tracking where
  /-- What the engine has done. -/
  acts : List Act := []
  trackers : Nat → Option MemoryTracker := fun _ => .none

inductive TrackAct where
  | start (c : AcceptedConfig) (randomID : String) (now : Int)
  | stop
  /-- a section of the run `i` itself -/
  | run (i : Nat) (event : Event) (now : Int)
  /-- the tracker of the run `i` begins: `start := time.Now()` -/
  | begins (i : Nat) (now : Int)
  /-- a round of it, which reads `sys` -/
  | round (i : Nat) (sys : UInt64) (now : Int)

namespace Tracking

def engine (t : Tracking) : Engine := Engine.after t.acts

/-- The engine takes a step. -/
def take (t : Tracking) (a : Act) : Tracking := { t with acts := t.acts ++ [a] }

/-- The tracker of the run `i`, while the run measures. -/
def tracker (t : Tracking) (i : Nat) : Option MemoryTracker :=
  if t.engine.pcOf i = .some .measure then t.trackers i else .none

/-- A section is taken for a round. -/
def isRound (t : Tracking) (i : Nat) : Event → Bool
  | .sampled _ _ => decide (t.engine.pcOf i = .some .measure)
  | _ => false

/-- `!baselineSet && time.Since(start) >= deadline`. -/
def setsBaseline (t : Tracking) (m : MemoryTracker) (now : Int) : Bool :=
  !m.baselineSet && decide (baselineAfter t.engine.runCfg ≤ now - m.start)

def step (t : Tracking) : TrackAct → Tracking
  | .start c randomID now => t.take (.start c.cfg randomID now)
  | .stop => t.take .stop
  | .run i event now => if t.isRound i event then t else t.take (.run i event now)
  | .begins i now =>
    if t.engine.pcOf i = .some .measure ∧ (t.trackers i).isNone then
      { t with trackers := Function.update t.trackers i (.some { start := now }) }
    else t
  | .round i sys now =>
    match t.tracker i with
    | .some m =>
      let baseline := t.setsBaseline m now
      { t.take (.run i (.sampled sys baseline) now) with
        trackers :=
          Function.update t.trackers i (.some { m with baselineSet := m.baselineSet || baseline }) }
    | .none => t

def after (acts : List TrackAct) : Tracking := acts.foldl step {}

/-- The tracker of the run `i` has kept to its rule; without one there was no
round. -/
structure Keeps (t : Tracking) (i : Nat) : Prop where
  begun : ∀ m ∈ t.trackers i, MemoryTracked i m.start t.acts ∧
    m.baselineSet = (readings i t.acts).any (·.baseline)
  absent : t.trackers i = .none → (∀ start, MemoryTracked i start t.acts) ∧
    ∀ r ∈ readings i t.acts, r.round = false ∧ r.baseline = false

variable {t : Tracking} {i : Nat}

theorem Keeps.take (h : t.Keeps i) {a : Act}
    (ha : ∀ sys b now, a = .run i (.sampled sys b) now → t.engine.pcOf i ≠ .some .measure) :
    (t.take a).Keeps i := by
  have htracks (start : Int) : t.engine.Tracks i start (readings i t.acts) a := by
    unfold Engine.Tracks
    split
    · next j sys b now =>
      rintro rfl hpc
      exact absurd hpc (ha sys b now rfl)
    · trivial
  have hreads : ∀ r ∈ t.engine.reads i a, r.round = false ∧ r.baseline = false := by
    intro r hr
    unfold Engine.reads at hr
    split at hr
    · next j sys b now =>
      split at hr
      · next hj =>
        subst hj
        split at hr
        · next hpc => exact absurd hpc (ha sys b now rfl)
        · obtain rfl := List.mem_singleton.mp hr
          exact ⟨rfl, rfl⟩
        · cases hr
      · cases hr
    · cases hr
  have hany : (readings i (t.acts ++ [a])).any (·.baseline) = (readings i t.acts).any (·.baseline) := by
    have hnone : (t.engine.reads i a).any (·.baseline) = false :=
      List.any_eq_false.mpr fun r hr hb => absurd hb (by rw [(hreads r hr).2]; decide)
    rw [readings_snoc, List.any_append]
    exact (congrArg _ hnone).trans (Bool.or_false _)
  refine ⟨fun m hm => ?_, fun hnone => ?_⟩
  · obtain ⟨htracked, hset⟩ := h.begun m hm
    exact ⟨Past.always_snoc.mpr ⟨htracked, htracks _⟩, hset.trans hany.symm⟩
  · obtain ⟨htracked, hrounds⟩ := h.absent hnone
    refine ⟨fun start => Past.always_snoc.mpr ⟨htracked start, htracks start⟩, fun r hr => ?_⟩
    rw [Tracking.take, readings_snoc] at hr
    exact (List.mem_append.mp hr).elim (hrounds r) (hreads r)

theorem Keeps.begin (h : t.Keeps i) (hnone : t.trackers i = .none) (now : Int) :
    Keeps { t with trackers := Function.update t.trackers i (.some { start := now }) } i := by
  obtain ⟨htracked, hrounds⟩ := h.absent hnone
  refine ⟨fun m hm => ?_, fun habsent => ?_⟩
  · obtain rfl : { start := now } = m := by simpa using hm
    refine ⟨htracked now, (List.any_eq_false.mpr fun r hr hb => ?_).symm⟩
    exact absurd hb (by rw [(hrounds r hr).2]; decide)
  · simp at habsent

theorem Keeps.round (h : t.Keeps i) {m : MemoryTracker} (hm : t.trackers i = .some m)
    (hpc : t.engine.pcOf i = .some .measure) (sys : UInt64) (now : Int) :
    Keeps { t.take (.run i (.sampled sys (t.setsBaseline m now)) now) with
      trackers := Function.update t.trackers i
        (.some { m with baselineSet := m.baselineSet || t.setsBaseline m now }) }
      i := by
  obtain ⟨htracked, hset⟩ := h.begun m hm
  have hread : t.engine.reads i (.run i (.sampled sys (t.setsBaseline m now)) now) =
      [⟨now, sys, true, t.setsBaseline m now⟩] := by simp only [Engine.reads, if_true, hpc]
  refine ⟨fun m' hm' => ?_, fun habsent => ?_⟩
  · obtain rfl : { m with baselineSet := m.baselineSet || t.setsBaseline m now } = m' := by
      simpa using hm'
    refine ⟨Past.always_snoc.mpr ⟨htracked, fun _ _ => ?_⟩, ?_⟩
    · rw [← hset]
      rfl
    · have hread' : (Engine.after t.acts).reads i
          (.run i (.sampled sys (t.setsBaseline m now)) now) = _ := hread
      simp only [Tracking.take, readings_snoc, hread', List.any_append, List.any_cons, List.any_nil,
        Bool.or_false, hset]
  · simp at habsent

theorem Keeps.congr (h : t.Keeps i) {t' : Tracking} (hacts : t'.acts = t.acts)
    (htrackers : t'.trackers i = t.trackers i) : t'.Keeps i := by
  refine ⟨fun m hm => ?_, fun hnone => ?_⟩
  · rw [hacts]
    exact h.begun m (htrackers ▸ hm)
  · rw [hacts]
    exact h.absent (htrackers ▸ hnone)

theorem Keeps.step (h : t.Keeps i) (a : TrackAct) : (t.step a).Keeps i := by
  cases a with
  | start c randomID now => exact h.take fun _ _ _ he => by cases he
  | stop => exact h.take fun _ _ _ he => by cases he
  | run j event now =>
    simp only [Tracking.step]
    split
    · exact h
    · next hround =>
      refine h.take fun sys b now' he hpc => hround ?_
      obtain ⟨rfl, rfl, -⟩ := Act.run.inj he
      exact decide_eq_true hpc
  | begins j now =>
    simp only [Tracking.step]
    split
    · next hj =>
      by_cases hij : i = j
      · subst hij
        exact h.begin (Option.isNone_iff_eq_none.mp hj.2) now
      · exact h.congr rfl (Function.update_of_ne hij ..)
    · exact h
  | round j sys now =>
    simp only [Tracking.step]
    split
    · next m hm =>
      obtain ⟨hpc, hm⟩ := Option.ite_none_right_eq_some.mp hm
      by_cases hij : i = j
      · subst hij
        exact h.round hm hpc sys now
      · refine (h.take (a := .run j (.sampled sys (t.setsBaseline m now)) now) ?_).congr rfl
          (Function.update_of_ne hij ..)
        intro _ _ _ he
        exact absurd (Act.run.inj he).1 (Ne.symm hij)
    · exact h

theorem keeps_after (acts : List TrackAct) (i : Nat) : (after acts).Keeps i := by
  induction acts using List.reverseRecOn with
  | nil =>
    exact ⟨fun m hm => (by cases hm), fun _ => ⟨fun _ => Past.always_nil, fun r hr => (by cases hr)⟩⟩
  | append_singleton acts a ih =>
    rw [after, List.foldl_append]
    exact ih.step a

theorem accepted_step {o : Observed} (h : ∀ p ∈ o.outcomes, p.cfg.Accepted) {a : Act}
    (hno : ¬ o.engine.Accepts a) : ∀ p ∈ (o.step a).outcomes, p.cfg.Accepted := by
  intro p hp
  have hmem : p.cfg ∈ (o.step a).outcomes.map (·.cfg) := List.mem_map_of_mem hp
  rw [Observed.cfgs_step hno] at hmem
  obtain ⟨q, hq, heq⟩ := List.mem_map.mp hmem
  exact heq ▸ h q hq

theorem accepted_start {o : Observed} (h : ∀ p ∈ o.outcomes, p.cfg.Accepted) (c : AcceptedConfig)
    (randomID : String) (now : Int) :
    ∀ p ∈ (o.step (.start c.cfg randomID now)).outcomes, p.cfg.Accepted := by
  intro p hp
  simp only [Observed.step] at hp
  split at hp
  · rcases List.mem_append.mp hp with hp | hp
    · exact h p hp
    · obtain rfl := List.mem_singleton.mp hp
      exact c.accepted
  · exact h p hp

theorem accepted_after (acts : List TrackAct) :
    ∀ p ∈ (Observed.after (after acts).acts).outcomes, p.cfg.Accepted := by
  induction acts using List.reverseRecOn with
  | nil => intro p hp; cases hp
  | append_singleton acts a ih =>
    rw [after, List.foldl_append]
    change ∀ p ∈ (Observed.after ((after acts).step a).acts).outcomes, p.cfg.Accepted
    cases a with
    | start c randomID now =>
      simp only [step, take, observed_after_snoc]
      exact accepted_start ih c randomID now
    | stop =>
      simp only [step, take, observed_after_snoc]
      exact accepted_step ih id
    | run j event now =>
      simp only [step]
      split
      · exact ih
      · simp only [take, observed_after_snoc]
        exact accepted_step ih id
    | begins j now =>
      simp only [step]
      split
      · exact ih
      · exact ih
    | round j sys now =>
      simp only [step]
      split
      · simp only [take, observed_after_snoc]
        exact accepted_step ih id
      · exact ih

end Tracking

/-- One hour: a reading too early for a baseline, the baseline, and one ten times
as large. -/
def grownHour : List TrackAct :=
  [.start ⟨defaultConfig, Config.defaultConfig_accepted⟩ "a" 0, .run 0 .next 0, .run 0 .next 0,
    .run 0 .next 0, .run 0 .next 0, .run 0 .next 0, .begins 0 0, .round 0 500 (10 * 10 ^ 9),
    .round 0 100 (300 * 10 ^ 9),
    .round 0 1000 (310 * 10 ^ 9), .run 0 .durationReached hour, .run 0 .next hour,
    .run 0 (.captured (sentFor 3600)) hour, .run 0 (.sampled 1 false) hour,
    .run 0 (.ranged .stored) hour]

end Burnin
