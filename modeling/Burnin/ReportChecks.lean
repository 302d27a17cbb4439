/-
`GenerateVerdict` (`burnin/report/report.go`) as its caller may use it: on a
summary whose workers have any names. The flag, the checks, the warnings and the
result are each kept as the code keeps them, in four shapes of code.

`generateVerdict_eq_named` says that `generateVerdict` is this function on the
six workers of a run. What the shapes have in common is one list of checks
(`checksMade`): the verdict is what recording them one after the other gives
(`unconcluded_eq_record`), and since no two have one name, none is lost.
-/
import Burnin.VerdictFacts

namespace Burnin

namespace Report

/-- The map `Workers` of a summary. -/
abbrev NamedWorkers := AList fun _ : String => WorkerStats

/-- `v.Checks[c.Name] = c`. -/
def setCheck (v : Verdict) (c : CheckResult) : Verdict := { v with checks := v.checks.insert c.name c }

/-- `if failed { v.Passed = false }`. -/
def failIf (v : Verdict) (failed : Prop) [Decidable failed] : Verdict :=
  if failed then { v with passed := false } else v

/-- The check that `addHard` records. -/
def hardCheck (name : String) (value threshold : ℚ) (message : Message) : CheckResult :=
  { name, passed := value ≤ threshold, value, threshold, message }

/-- `addHard`. -/
def addHard (v : Verdict) (name : String) (value threshold : ℚ) (message : Message) : Verdict :=
  failIf (setCheck v (hardCheck name value threshold message))
    ((hardCheck name value threshold message).passed = false)

/-- The loss threshold of the worker of this name. -/
def maxLoss (cfg : Config) (name : String) : ℚ :=
  if name = WorkerName.events.text then cfg.thresholds.maxEventsLossPct else cfg.thresholds.maxLossPct

/-- One round of the first loop, for what `addHard` does with a check. -/
def round {σ : Type} (addHard : σ → String → ℚ → ℚ → Message → σ) (cfg : Config) (v : σ) (name : String)
    (ws : WorkerStats) : σ :=
  if ws.enabled = false ∨ ws.sent = 0 then v
  else
    let t := cfg.thresholds
    let lossPct := pct ws.lost ws.sent
    let v := addHard v ("message_loss:" ++ name) lossPct (lossGateThreshold (maxLoss cfg name))
      ⟨"%.4f%% loss (threshold %.4f%%)", [.float lossPct, .float (maxLoss cfg name)]⟩
    let v :=
      if ws.received > 0 then
        let dupPct := pct ws.duplicated ws.received
        addHard v ("duplication:" ++ name) dupPct t.maxDuplicationPct
          ⟨"%.4f%% duplication (threshold %.4f%%)", [.float dupPct, .float t.maxDuplicationPct]⟩
      else v
    let v :=
      if ws.latencyP99MS > 0 then
        addHard v ("p99_latency:" ++ name) ws.latencyP99MS t.maxP99LatencyMS
          ⟨"P99=%.1fms (threshold %.1fms)", [.float ws.latencyP99MS, .float t.maxP99LatencyMS]⟩
      else v
    let total := ws.sent + ws.received
    if total > 0 then
      let errPct := pct ws.errors total
      addHard v ("error_rate:" ++ name) errPct t.maxErrorRatePct
        ⟨"%.4f%% error rate (threshold %.4f%%)", [.float errPct, .float t.maxErrorRatePct]⟩
    else v

def addWorker (cfg : Config) (v : Verdict) (name : String) (ws : WorkerStats) : Verdict :=
  round addHard cfg v name ws

/-- The checks of one worker. -/
def workerChecks (cfg : Config) (name : String) (ws : WorkerStats) : List CheckResult :=
  round (fun cs name value threshold message => cs ++ [hardCheck name value threshold message]) cfg
    [] name ws

/-- The second loop, over one counter. -/
def sumOf (f : WorkerStats → UInt64) (workers : List (Sigma fun _ : String => WorkerStats)) : UInt64 :=
  workers.foldl (fun total e => total + f e.2) 0

def corruptionCheck (totalCorrupted : UInt64) : CheckResult where
  name := "corruption"
  passed := totalCorrupted = 0
  value := totalCorrupted.toNat
  message := ⟨"%d corrupted messages", [.int totalCorrupted.toNat]⟩

def addCorruption (v : Verdict) (totalCorrupted : UInt64) : Verdict :=
  failIf (setCheck v (corruptionCheck totalCorrupted)) (totalCorrupted > 0)

def fidelityCheck (cfg : Config) (totalFidelity : UInt64) : CheckResult where
  name := "fidelity"
  passed := totalFidelity ≤ .ofInt cfg.thresholds.maxAmqp10FidelityFailures
  value := totalFidelity.toNat
  threshold := cfg.thresholds.maxAmqp10FidelityFailures
  message :=
    ⟨"%d fidelity failures (max %d)",
      [.int totalFidelity.toNat, .int cfg.thresholds.maxAmqp10FidelityFailures]⟩

def addFidelity (cfg : Config) (v : Verdict) (totalFidelity : UInt64) : Verdict :=
  failIf (setCheck v (fidelityCheck cfg totalFidelity))
    ((fidelityCheck cfg totalFidelity).passed = false)

def dropCheck (ev : WorkerStats) : CheckResult where
  name := "events_no_credit_drop"
  passed := ev.eventsDropped = 0
  value := ev.eventsDropped.toNat
  message := ⟨"%d events dropped at 0 credit", [.int ev.eventsDropped.toNat]⟩

/-- The check of the events worker, when the summary has one. -/
def addEvents (v : Verdict) : Option WorkerStats → Verdict
  | .some ev => if ev.enabled then failIf (setCheck v (dropCheck ev)) (ev.eventsDropped > 0) else v
  | .none => v

def memoryCheck (cfg : Config) (growth : ℚ) : CheckResult where
  name := "memory_stability"
  passed := growth ≤ cfg.thresholds.maxMemoryGrowthFactor
  advisory := true
  value := growth
  threshold := cfg.thresholds.maxMemoryGrowthFactor
  message := ⟨"%.2fx growth (threshold %.2fx)",
    [.float growth, .float cfg.thresholds.maxMemoryGrowthFactor]⟩

/-- The advisory check of the memory, whose failure is a warning. -/
def addMemory (cfg : Config) (v : Verdict) (r : ResourceStats) : Verdict :=
  if r.baselineRSSMB > 0 then
    let growth := r.memoryGrowthFactor
    let v := setCheck v (memoryCheck cfg growth)
    if (memoryCheck cfg growth).passed = false then
      { v with
        warnings := v.warnings ++
          [⟨"memory_stability: %.2fx growth exceeds %.2fx",
            [.float growth, .float cfg.thresholds.maxMemoryGrowthFactor]⟩] }
    else v
  else v

/-- `GenerateVerdict` up to its last lines, with the orders of its two loops
over the workers. -/
def unconcluded (cfg : Config) {workers : NamedWorkers} (range₁ range₂ : Range workers)
    (resources : ResourceStats) :
    Verdict :=
  let v := range₁.entries.foldl (fun v e => addWorker cfg v e.1 e.2) {}
  let totalCorrupted := sumOf (·.corrupted) range₂.entries
  let totalFidelity := sumOf (·.fidelityFailures) range₂.entries
  let v := addFidelity cfg (addCorruption v totalCorrupted) totalFidelity
  let v := addEvents v (workers.lookup WorkerName.events.text)
  addMemory cfg v resources

/-- `GenerateVerdict`. -/
def generateVerdict (cfg : Config) {workers : NamedWorkers} (range₁ range₂ : Range workers)
    (resources : ResourceStats) : Verdict := (unconcluded cfg range₁ range₂ resources).conclude

/-! ## One way to record a check -/

theorem failIf_setCheck (v : Verdict) {c : CheckResult} (hadv : c.advisory = false) {failed : Prop}
    [Decidable failed] (hf : failed ↔ c.passed = false) : failIf (setCheck v c) failed = v.record c := by
  by_cases h : failed
  · rw [failIf, if_pos h]
    simp [setCheck, Verdict.record, hf.mp h, hadv]
  · have hp : c.passed = true := Bool.eq_true_of_not_eq_false (mt hf.mpr h)
    rw [failIf, if_neg h]
    simp [setCheck, Verdict.record, hp]

theorem addHard_eq_record (v : Verdict) (name : String) (value threshold : ℚ) (message : Message) :
    addHard v name value threshold message = v.record (hardCheck name value threshold message) :=
  failIf_setCheck v rfl Iff.rfl

theorem pos_iff_decide_eq_zero {n : UInt64} : n > 0 ↔ decide (n = 0) = false := by
  rw [decide_eq_false_iff_not, gt_iff_lt, UInt64.pos_iff_ne_zero]

theorem addCorruption_eq_record (v : Verdict) (total : UInt64) :
    addCorruption v total = v.record (corruptionCheck total) :=
      failIf_setCheck v rfl pos_iff_decide_eq_zero

theorem addFidelity_eq_record (cfg : Config) (v : Verdict) (total : UInt64) :
    addFidelity cfg v total = v.record (fidelityCheck cfg total) := failIf_setCheck v rfl Iff.rfl

/-- The check of an enabled events worker. -/
def eventsChecks : Option WorkerStats → List CheckResult
  | .some ev => if ev.enabled then [dropCheck ev] else []
  | .none => []

theorem addEvents_eq_record (v : Verdict) (o : Option WorkerStats) :
    addEvents v o = (eventsChecks o).foldl Verdict.record v := by
  cases o with
  | none => rfl
  | some ev =>
    simp only [addEvents, eventsChecks]
    split
    · exact failIf_setCheck v rfl pos_iff_decide_eq_zero
    · rfl

/-- The memory check, when there is a baseline. -/
def memoryChecks (cfg : Config) (r : ResourceStats) : List CheckResult :=
  if r.baselineRSSMB > 0 then [memoryCheck cfg r.memoryGrowthFactor] else []

/-- What `addMemory` does to the checks and to the flag. -/
theorem addMemory_eq_record (cfg : Config) (v : Verdict) (r : ResourceStats) :
    (addMemory cfg v r).checks = ((memoryChecks cfg r).foldl Verdict.record v).checks ∧
      (addMemory cfg v r).passed = ((memoryChecks cfg r).foldl Verdict.record v).passed ∧
      (addMemory cfg v r).result = v.result := by
  simp only [addMemory, memoryChecks]
  split
  · split
    · exact ⟨rfl, by simp [setCheck, Verdict.record, memoryCheck], rfl⟩
    · exact ⟨rfl, by simp [setCheck, Verdict.record, memoryCheck], rfl⟩
  · exact ⟨rfl, rfl, rfl⟩

theorem map_round {σ τ : Type} (h : σ → τ) {f : σ → String → ℚ → ℚ → Message → σ}
    {g : τ → String → ℚ → ℚ → Message → τ}
    (hfg : ∀ s name value threshold message, h (f s name value threshold message) =
      g (h s) name value threshold message) (cfg : Config) (s : σ) (name : String) (ws : WorkerStats) :
    h (round f cfg s name ws) = round g cfg (h s) name ws := by
  simp only [round, apply_ite h, hfg]

theorem addWorker_eq_record (cfg : Config) (v : Verdict) (name : String) (ws : WorkerStats) :
    addWorker cfg v name ws = (workerChecks cfg name ws).foldl Verdict.record v := by
  refine (map_round (fun cs : List CheckResult => cs.foldl Verdict.record v) ?_ cfg [] name ws).symm
  intro cs name value threshold message
  rw [List.foldl_append, addHard_eq_record]
  rfl

/-- The checks of a verdict, in the order they are made. -/
def checksMade (cfg : Config) {workers : NamedWorkers} (range₁ range₂ : Range workers)
    (resources : ResourceStats) :
    List CheckResult :=
  (range₁.entries.flatMap fun e => workerChecks cfg e.1 e.2) ++
    [corruptionCheck (sumOf (·.corrupted) range₂.entries),
      fidelityCheck cfg (sumOf (·.fidelityFailures) range₂.entries)] ++
    eventsChecks (workers.lookup WorkerName.events.text) ++ memoryChecks cfg resources

theorem foldl_addWorker_eq_record (cfg : Config) (es : List (Sigma fun _ : String => WorkerStats))
    (v : Verdict) :
    es.foldl (fun v e => addWorker cfg v e.1 e.2) v =
      (es.flatMap fun e => workerChecks cfg e.1 e.2).foldl Verdict.record v := by
  induction es generalizing v with
  | nil => rfl
  | cons e es ih => rw [List.foldl_cons, ih, List.flatMap_cons, List.foldl_append, addWorker_eq_record]

/-! ## Recording checks of distinct names -/

theorem foldl_record_passed (cs : List CheckResult) (v : Verdict) :
    (cs.foldl Verdict.record v).passed = (v.passed && cs.all fun c => c.passed || c.advisory) := by
  induction cs generalizing v with
  | nil => simp
  | cons c cs ih => rw [List.foldl_cons, ih, Verdict.record_passed, List.all_cons, Bool.and_assoc]

theorem foldl_record_rest (cs : List CheckResult) (v : Verdict) :
    (cs.foldl Verdict.record v).result = v.result ∧
      (cs.foldl Verdict.record v).warnings = v.warnings := by
  induction cs generalizing v with
  | nil => exact ⟨rfl, rfl⟩
  | cons c cs ih => exact ih (v.record c)

/-- **No check of distinct names is lost**, and there are no others. -/
theorem lookup_foldl_record {cs : List CheckResult} (hn : (cs.map (·.name)).Nodup) {name : String}
    {c : CheckResult} :
    (cs.foldl Verdict.record {}).checks.lookup name = .some c ↔ c ∈ cs ∧ c.name = name := by
  induction cs using List.reverseRecOn with
  | nil => simp
  | append_singleton cs c' ih =>
    rw [List.map_append, List.nodup_append] at hn
    obtain ⟨hcs, -, hne⟩ := hn
    rw [List.foldl_append, List.foldl_cons, List.foldl_nil, Verdict.record]
    by_cases hname : name = c'.name
    · subst hname
      rw [AList.lookup_insert, List.mem_append, List.mem_singleton, Option.some.injEq]
      constructor
      · rintro rfl
        exact ⟨.inr rfl, rfl⟩
      · rintro ⟨hc | rfl, hcn⟩
        · exact absurd hcn (hne _ (List.mem_map_of_mem hc) _ (by simp))
        · rfl
    · rw [AList.lookup_insert_ne hname, ih hcs, List.mem_append, List.mem_singleton]
      constructor
      · rintro ⟨hc, hcn⟩
        exact ⟨.inl hc, hcn⟩
      · rintro ⟨hc | rfl, hcn⟩
        · exact ⟨hc, hcn⟩
        · exact absurd hcn.symm hname

/-! ## The names of the checks -/

/-- The kinds of a worker's checks. -/
def checkKinds : List String := ["message_loss:", "duplication:", "p99_latency:", "error_rate:"]

theorem names_workerChecks (cfg : Config) (name : String) (ws : WorkerStats) :
    ((workerChecks cfg name ws).map (·.name)).Sublist (checkKinds.map (· ++ name)) := by
  rw [workerChecks, map_round (fun cs : List CheckResult => cs.map (·.name))
    (g := fun names name _ _ _ => names ++ [name])
    (fun cs name value threshold message => by rw [List.map_append]; rfl)]
  simp only [round, checkKinds]
  split_ifs <;> simp

theorem kind_ext : ∀ k ∈ checkKinds, ∀ k' ∈ checkKinds, k.toList.head? = k'.toList.head? →
    k = k' := by decide

theorem head?_kind_append {k : String} (hk : k ∈ checkKinds) (name : String) :
    (k ++ name).toList.head? = k.toList.head? := by
  have hne : k.toList ≠ [] := by
    revert k
    decide
  rw [String.toList_append, List.head?_append_of_ne_nil _ hne]

/-- The name of a worker's check says its kind and its worker. -/
theorem kind_append_inj {k k' name name' : String} (hk : k ∈ checkKinds) (hk' : k' ∈ checkKinds)
    (h : k ++ name = k' ++ name') : k = k' ∧ name = name' := by
  have hkind : k = k' :=
    kind_ext k hk k' hk' (by rw [← head?_kind_append hk name, h, head?_kind_append hk'])
  subst hkind
  exact ⟨rfl, (String.append_right_inj k).mp h⟩

/-- The names of the checks that are not of one worker. -/
def runNames : List String := ["corruption", "fidelity", "events_no_credit_drop", "memory_stability"]

theorem kind_append_notMem {k name : String} (hk : k ∈ checkKinds) : k ++ name ∉ runNames := by
  intro h
  simp only [checkKinds, List.mem_cons, List.not_mem_nil, or_false] at hk
  simp only [runNames, List.mem_cons, List.not_mem_nil, or_false] at h
  rcases hk with rfl | rfl | rfl | rfl <;> rcases h with h | h | h | h <;> replace h :=
    congrArg String.toList h <;>
    simp at h

theorem mem_names_workerChecks {cfg : Config} {name n : String} {ws : WorkerStats}
    (h : n ∈ (workerChecks cfg name ws).map (·.name)) : ∃ k ∈ checkKinds, n = k ++ name := by
  obtain ⟨k, hk, rfl⟩ := List.mem_map.mp ((names_workerChecks cfg name ws).subset h)
  exact ⟨k, hk, rfl⟩

/-- The names of the workers' checks, in any order of the loop. -/
theorem nodup_names_workers (cfg : Config) {workers : NamedWorkers} (range : Range workers) :
    (range.entries.flatMap fun e => (workerChecks cfg e.1 e.2).map (·.name)).Nodup := by
  have hkeys : range.entries.Pairwise fun e e' => e.1 ≠ e'.1 :=
    List.nodupKeys_iff_pairwise.mp ((List.perm_nodupKeys range.perm).mpr workers.nodupKeys)
  rw [List.nodup_flatMap]
  refine ⟨fun e _ => ?_, hkeys.imp fun {e e'} hne => ?_⟩
  · have hkinds : (checkKinds.map (· ++ e.1)).Nodup :=
      List.Nodup.map (fun k k' h => (String.append_left_inj e.1).mp h) (by decide)
    exact hkinds.sublist (names_workerChecks cfg e.1 e.2)
  · intro n hn hn'
    obtain ⟨k, hk, rfl⟩ := mem_names_workerChecks hn
    obtain ⟨k', hk', h⟩ := mem_names_workerChecks hn'
    exact hne (kind_append_inj hk hk' h).2

/-- The checks that are not of one worker are made once at most. -/
theorem names_run (cfg : Config) (corrupted fidelity : UInt64) (o : Option WorkerStats)
    (r : ResourceStats) :
    (([corruptionCheck corrupted, fidelityCheck cfg fidelity] ++ eventsChecks o ++
      memoryChecks cfg r).map
      (·.name)).Sublist runNames := by
  have hev : ((eventsChecks o).map (·.name)).Sublist ["events_no_credit_drop"] := by
    cases o with
    | none => simp [eventsChecks]
    | some ev =>
      simp only [eventsChecks]
      split <;> simp [dropCheck]
  have hmem : ((memoryChecks cfg r).map (·.name)).Sublist ["memory_stability"] := by
    simp only [memoryChecks]
    split <;> simp [memoryCheck]
  rw [List.map_append, List.map_append]
  exact ((List.Sublist.refl _).append hev).append hmem

/-- **No two checks of a verdict have one name.** -/
theorem nodup_checksMade (cfg : Config) {workers : NamedWorkers} (range₁ range₂ : Range workers)
    (resources : ResourceStats) : ((checksMade cfg range₁ range₂ resources).map (·.name)).Nodup := by
  have hrun :=
    names_run cfg (sumOf (·.corrupted) range₂.entries) (sumOf (·.fidelityFailures) range₂.entries)
    (workers.lookup WorkerName.events.text) resources
  have hdecide : runNames.Nodup := by decide
  rw [checksMade, List.append_assoc, List.append_assoc, ← List.append_assoc [_, _], List.map_append,
    List.map_flatMap]
  refine (nodup_names_workers cfg range₁).append (hdecide.sublist hrun) ?_
  intro n hn hn'
  obtain ⟨e, -, hn⟩ := List.mem_flatMap.mp hn
  obtain ⟨k, hk, rfl⟩ := mem_names_workerChecks hn
  exact kind_append_notMem hk (hrun.subset hn')

/-! ## The verdict -/

section
variable (cfg : Config) {workers : NamedWorkers} (range₁ range₂ : Range workers)
  (resources : ResourceStats)

/-- **The verdict records the checks made**, and warns of the memory. -/
theorem unconcluded_eq_record :
    let v := unconcluded cfg range₁ range₂ resources
    let w := (checksMade cfg range₁ range₂ resources).foldl Verdict.record {}
    v.checks = w.checks ∧ v.passed = w.passed ∧ v.result = .passed ∧
      (v.warnings = [] ↔ ∀ c ∈ memoryChecks cfg resources, c.passed = true) := by
  have hbefore : addEvents (addFidelity cfg (addCorruption
      (range₁.entries.foldl (fun v e => addWorker cfg v e.1 e.2) {})
        (sumOf (·.corrupted) range₂.entries))
      (sumOf (·.fidelityFailures) range₂.entries)) (workers.lookup WorkerName.events.text) =
      ((range₁.entries.flatMap fun e => workerChecks cfg e.1 e.2) ++
        [corruptionCheck (sumOf (·.corrupted) range₂.entries),
          fidelityCheck cfg (sumOf (·.fidelityFailures) range₂.entries)] ++
        eventsChecks (workers.lookup WorkerName.events.text)).foldl Verdict.record {} := by
    rw [addEvents_eq_record, addFidelity_eq_record, addCorruption_eq_record, foldl_addWorker_eq_record,
      List.foldl_append, List.foldl_append]
    rfl
  simp only [unconcluded, hbefore, checksMade]
  generalize _ ++ eventsChecks _ = cs
  obtain ⟨hchecks, hpassed, hresult⟩ := addMemory_eq_record cfg (cs.foldl Verdict.record {}) resources
  obtain ⟨hres, hwarn⟩ := foldl_record_rest cs {}
  refine ⟨?_, ?_, hresult.trans hres, ?_⟩
  · rw [hchecks, List.foldl_append]
  · rw [hpassed, List.foldl_append]
  · simp only [addMemory, memoryChecks]
    split
    · split
      · next hfail => simp [hfail]
      · next hok => simpa [setCheck, hwarn] using hok
    · simp [hwarn]

theorem mem_checks {e : Sigma fun _ : String => CheckResult} :
    e ∈ (generateVerdict cfg range₁ range₂ resources).checks.entries ↔
      e.2 ∈ checksMade cfg range₁ range₂ resources ∧ e.2.name = e.1 := by
  obtain ⟨hchecks, -⟩ := unconcluded_eq_record cfg range₁ range₂ resources
  rw [← AList.mem_lookup_iff, generateVerdict, Verdict.conclude, hchecks, Option.mem_def,
    lookup_foldl_record (nodup_checksMade cfg range₁ range₂ resources)]

theorem forall_checks {P : CheckResult → Prop} :
    (∀ e ∈ (generateVerdict cfg range₁ range₂ resources).checks.entries, P e.2) ↔
      ∀ c ∈ checksMade cfg range₁ range₂ resources, P c := by
  constructor
  · exact fun h c hc => h ⟨c.name, c⟩ ((mem_checks cfg range₁ range₂ resources).mpr ⟨hc, rfl⟩)
  · exact fun h e he => h e.2 ((mem_checks cfg range₁ range₂ resources).mp he).1

end

theorem round_invariant {σ : Type} {P : σ → Prop} {f : σ → String → ℚ → ℚ → Message → σ}
    (hf : ∀ s name value threshold message, P s → P (f s name value threshold message))
    (cfg : Config) {s : σ} (hs : P s) (name : String) (ws : WorkerStats) :
    P (round f cfg s name ws) := by
  have hif : ∀ (c : Prop) [Decidable c] {s : σ} (name : String) (value threshold : ℚ)
      (message : Message), P s →
      P (if c then f s name value threshold message else s) := by
    intro c _ s name value threshold message hs
    split
    · exact hf _ _ _ _ _ hs
    · exact hs
  unfold round
  split
  · exact hs
  · exact hif _ _ _ _ _ (hif _ _ _ _ _ (hif _ _ _ _ _ (hf _ _ _ _ _ hs)))

theorem not_advisory_workerChecks {cfg : Config} {name : String} {ws : WorkerStats} :
    ∀ c ∈ workerChecks cfg name ws, c.advisory = false := by
  refine round_invariant (P := fun cs : List CheckResult => ∀ c ∈ cs, c.advisory = false) ?_ cfg
    (by simp) name ws
  intro cs name value threshold message hcs c hc
  rcases List.mem_append.mp hc with hc | hc
  · exact hcs c hc
  · rw [List.mem_singleton.mp hc]
    rfl

section
variable {cfg : Config} {workers : NamedWorkers} {range₁ range₂ : Range workers}
  {resources : ResourceStats}

/-- **Only the memory check is advisory.** -/
theorem mem_memoryChecks {c : CheckResult} :
    c ∈ memoryChecks cfg resources ↔ c ∈ checksMade cfg range₁ range₂ resources ∧ c.advisory = true := by
  constructor
  · intro hc
    refine ⟨List.mem_append_right _ hc, ?_⟩
    simp only [memoryChecks] at hc
    split at hc
    · rw [List.mem_singleton.mp hc]
      rfl
    · cases hc
  · rintro ⟨hc, hadv⟩
    simp only [checksMade, List.mem_append, List.mem_flatMap, List.mem_cons, List.not_mem_nil,
      or_false] at hc
    rcases hc with ((⟨e, -, hc⟩ | rfl | rfl) | hc) | hc
    · rw [not_advisory_workerChecks c hc] at hadv
      cases hadv
    · cases hadv
    · cases hadv
    · cases hev : workers.lookup WorkerName.events.text with
      | none => simp [hev, eventsChecks] at hc
      | some ev =>
        rw [hev, eventsChecks] at hc
        split at hc
        · rw [List.mem_singleton.mp hc] at hadv
          cases hadv
        · cases hc
    · exact hc

/-- The warnings are of the advisory checks that failed. -/
theorem warnings_eq_nil :
    (generateVerdict cfg range₁ range₂ resources).warnings = [] ↔
      ∀ e ∈ (generateVerdict cfg range₁ range₂ resources).checks.entries, e.2.advisory = true →
        e.2.passed = true := by
  obtain ⟨-, -, -, hwarn⟩ := unconcluded_eq_record cfg range₁ range₂ resources
  rw [forall_checks cfg range₁ range₂ resources (P := fun c => c.advisory = true → c.passed = true)]
  refine hwarn.trans ⟨fun h c hc hadv => h c (mem_memoryChecks.mpr ⟨hc, hadv⟩), fun h c hc => ?_⟩
  have hmade : c ∈ checksMade cfg range₁ range₂ resources ∧ c.advisory = true := mem_memoryChecks.mp hc
  exact h c hmade.1 hmade.2

/-- The flag is that of the other checks. -/
theorem passed_iff_checks :
    (generateVerdict cfg range₁ range₂ resources).passed = true ↔
      ∀ e ∈ (generateVerdict cfg range₁ range₂ resources).checks.entries, e.2.advisory = false →
        e.2.passed = true := by
  obtain ⟨-, hpassed, -⟩ := unconcluded_eq_record cfg range₁ range₂ resources
  rw [forall_checks cfg range₁ range₂ resources (P := fun c => c.advisory = false → c.passed = true)]
  rw [generateVerdict, Verdict.conclude, hpassed, foldl_record_passed, Bool.true_and, List.all_eq_true]
  refine forall₂_congr fun c _ => ?_
  cases c.advisory <;> simp

end

/-- **The report's verdict is coherent with its checks**, for any names, counters
and orders of the loops: the flag, the result and the checks say the same, and
every check of every worker is there as it was made, so none was overwritten. -/
theorem report_coherent (cfg : Config) {workers : NamedWorkers} (range₁ range₂ : Range workers)
    (resources : ResourceStats) :
    let v := generateVerdict cfg range₁ range₂ resources
    (v.passed = true ↔ ∀ e ∈ v.checks.entries, e.2.advisory = false → e.2.passed = true) ∧
      (v.result = .failed ↔ v.passed = false) ∧
      (v.result = .passedWithWarnings ↔
        v.passed = true ∧ ∃ e ∈ v.checks.entries, e.2.advisory = true ∧ e.2.passed = false) ∧
      (v.result = .passed ↔
        v.passed = true ∧ ¬ ∃ e ∈ v.checks.entries, e.2.advisory = true ∧ e.2.passed = false) ∧
      ∀ e ∈ workers.entries, ∀ c ∈ workerChecks cfg e.1 e.2, v.checks.lookup c.name = .some c := by
  intro v
  have hwarn : v.warnings = [] ↔ ¬ ∃ e ∈ v.checks.entries, e.2.advisory = true ∧ e.2.passed = false := by
    rw [warnings_eq_nil]
    push Not
    simp only [ne_eq, Bool.not_eq_false]
    rfl
  have hresult : v.result =
      if v.passed = false then .failed
      else if v.warnings ≠ [] then .passedWithWarnings
      else .passed := by
    obtain ⟨-, -, hres, -⟩ := unconcluded_eq_record cfg range₁ range₂ resources
    simp only [v, generateVerdict, Verdict.conclude, hres]
  refine ⟨passed_iff_checks, ?_, ?_, ?_, fun e he c hc => ?_⟩
  · rw [hresult]
    cases v.passed <;> by_cases hw : v.warnings = [] <;> simp [hw]
  · rw [hresult, ← not_iff_not.mpr hwarn |>.trans not_not]
    cases v.passed <;> by_cases hw : v.warnings = [] <;> simp [hw]
  · rw [hresult, ← hwarn]
    cases v.passed <;> by_cases hw : v.warnings = [] <;> simp [hw]
  · refine AList.mem_lookup_iff.mpr ((mem_checks cfg range₁ range₂ resources).mpr ⟨?_, rfl⟩)
    have hmem : c ∈ range₁.entries.flatMap fun e => workerChecks cfg e.1 e.2 :=
      List.mem_flatMap.mpr ⟨e, range₁.perm.mem_iff.mpr he, hc⟩
    exact List.mem_append_left _ (List.mem_append_left _ (List.mem_append_left _ hmem))

/-! ## The workers of a run -/

theorem text_injective : Function.Injective WorkerName.text := by
  intro name name' h
  cases name <;> cases name' <;> first | rfl | exact absurd h (by decide)

/-- The six workers under the names that the summary spells. -/
def named (workers : Workers) : NamedWorkers where
  entries := workers.entries.map fun e => ⟨e.1.text, e.2⟩
  nodupKeys := by
    rw [List.nodupKeys_iff_pairwise, List.pairwise_map]
    refine (List.nodupKeys_iff_pairwise.mp workers.nodupKeys).imp ?_
    intro e e' hne h
    exact hne (text_injective h)

def namedRange {workers : Workers} (range : Range workers) : Range (named workers) where
  entries := range.entries.map fun e => ⟨e.1.text, e.2⟩
  perm := range.perm.map _

theorem lookup_named (workers : Workers) (name : WorkerName) :
    (named workers).lookup name.text = workers.lookup name := by
  obtain ⟨entries, hn⟩ := workers
  simp only [AList.lookup, named]
  clear hn
  induction entries with
  | nil => rfl
  | cons e entries ih =>
    obtain ⟨k, ws⟩ := e
    by_cases hk : name = k
    · subst hk
      simp
    · have htext : name.text ≠ k.text := fun h => hk (text_injective h)
      rw [List.map_cons, List.dlookup_cons_ne _ _ htext, List.dlookup_cons_ne _ _ hk, ih]

theorem addWorker_text (cfg : Config) (v : Verdict) (name : WorkerName) (ws : WorkerStats) :
    addWorker cfg v name.text ws = Burnin.addWorker cfg v name ws := by
  have hmax : maxLoss cfg name.text = Burnin.maxLoss cfg name := by
    simp only [maxLoss, Burnin.maxLoss, text_injective.eq_iff]
  have hhard : addHard = Verdict.addHard := by
    funext v name value threshold message
    exact addHard_eq_record v name value threshold message
  rw [addWorker, round, Burnin.addWorker, hmax, hhard]

theorem addMemory_eq (cfg : Config) (v : Verdict) (r : ResourceStats) :
    addMemory cfg v r = Burnin.addMemory cfg v r := by
  have hset : ∀ growth, setCheck v (memoryCheck cfg growth) = v.record (memoryCheck cfg growth) := by
    intro growth
    simp [setCheck, Verdict.record, memoryCheck]
  have hfailed : (memoryCheck cfg r.memoryGrowthFactor).passed = false ↔
      ¬ r.memoryGrowthFactor ≤ cfg.thresholds.maxMemoryGrowthFactor := decide_eq_false_iff_not
  simp only [addMemory, Burnin.addMemory, hset, hfailed, ite_not]
  rfl

theorem addEvents_eq (v : Verdict) (o : Option WorkerStats) : addEvents v o = Burnin.addEvents v o := by
  rw [addEvents_eq_record]
  cases o with
  | none => rfl
  | some ev =>
    simp only [eventsChecks, Burnin.addEvents]
    split <;> rfl

theorem sumOf_namedRange {workers : Workers} (f : WorkerStats → UInt64) (range : Range workers) :
    sumOf f (namedRange range).entries = Burnin.sumOf f range.entries := by
  rw [sumOf, Burnin.sumOf, namedRange, List.foldl_map]

/-- **The verdict on a run's summary** is `GenerateVerdict` on its workers by
name. -/
theorem generateVerdict_eq_named (range₁ range₂ : (m : Workers) → Range m) (summary : Summary)
    (cfg : Config) :
    Burnin.generateVerdict range₁ range₂ summary cfg =
      generateVerdict cfg (namedRange (range₁ summary.workers)) (namedRange (range₂ summary.workers))
        summary.resources := by
  have hloop : (namedRange (range₁ summary.workers)).entries.foldl
      (fun v e => addWorker cfg v e.1 e.2) {} =
      (range₁ summary.workers).entries.foldl (fun v e => Burnin.addWorker cfg v e.1 e.2) {} := by
    simp only [namedRange, List.foldl_map, addWorker_text]
  rw [generateVerdict, unconcluded, hloop, sumOf_namedRange, sumOf_namedRange, addFidelity_eq_record,
    addCorruption_eq_record, lookup_named, addEvents_eq, addMemory_eq]
  rfl

end Report

end Burnin
