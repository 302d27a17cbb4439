/-
The two verdicts of a run: the engine's, which decides the exit code, and the
report's, which is reconciled with it.

`WithinGates` says of one worker what every gate of the engine lets pass;
`computeVerdict_passed` and `computeVerdict_result` are the engine's verdict in
these terms, and `generateVerdict_passed` and `generateVerdict_result` the
report's when the engine's passes. They differ in one gate: the engine
holds each worker's fidelity failures against the threshold, the report their
sum.
-/
import Mathlib.Data.UInt
import Mathlib.Tactic.Positivity
import Mathlib.Tactic.Linarith
import Burnin.Report

namespace Burnin

theorem check_eq_nil {bad : Prop} [Decidable bad] {format : String} {args : List Arg} :
    check bad format args = [] ↔ ¬ bad := by
  by_cases hb : bad <;> simp [check, hb]

/-! ## The engine's verdict -/

/-- What the gates of the engine let pass, of one worker. -/
structure WithinGates (cfg : Config) (measurementDuration : Int) (name : WorkerName)
    (snap : WorkerSnapshot) : Prop where
  corrupted : snap.corrupted = 0
  fidelity : snap.fidelityFailures ≤ .ofInt cfg.thresholds.maxAmqp10FidelityFailures
  dropped : name = .events → snap.eventsDropped = 0
  loss : 0 < snap.sent → pct snap.lost snap.sent ≤ maxLoss cfg name ∨
    pct snap.lost snap.sent ≤ boundaryLossPct
  duplication : 0 < snap.received → pct snap.duplicated snap.received ≤ cfg.thresholds.maxDuplicationPct
  p50 : 0 < snap.latencyP50 → 0 < cfg.thresholds.maxP50LatencyMS →
    snap.latencyP50 ≤ cfg.thresholds.maxP50LatencyMS
  p95 : 0 < snap.latencyP95 → 0 < cfg.thresholds.maxP95LatencyMS →
    snap.latencyP95 ≤ cfg.thresholds.maxP95LatencyMS
  p99 : 0 < snap.latencyP99 → 0 < cfg.thresholds.maxP99LatencyMS →
    snap.latencyP99 ≤ cfg.thresholds.maxP99LatencyMS
  p999 : 0 < snap.latencyP999 → 0 < cfg.thresholds.maxP999LatencyMS →
    snap.latencyP999 ≤ cfg.thresholds.maxP999LatencyMS
  errors : 0 < snap.sent + snap.received →
    pct snap.errors (snap.sent + snap.received) ≤ cfg.thresholds.maxErrorRatePct
  throughput : name.isRPCWorker = false → 0 < measurementDuration → 0 < snap.sent →
    (0 : ℚ) < cfg.getWorkerRate name →
    cfg.thresholds.minThroughputPct ≤
      snap.sent.toNat / seconds measurementDuration / cfg.getWorkerRate name * 100
  downtime : 0 < measurementDuration → 0 < snap.downtimeSeconds →
    snap.downtimeSeconds / seconds measurementDuration * 100 ≤ cfg.thresholds.maxDowntimePct
  rpc : name.isRPCWorker = true → 0 < snap.rpcSuccess + snap.rpcTimeout + snap.rpcError →
    pct (snap.rpcTimeout + snap.rpcError) (snap.rpcSuccess + snap.rpcTimeout + snap.rpcError) ≤
      cfg.thresholds.maxErrorRatePct

theorem failures_eq_nil {cfg : Config} {d : Int} {name : WorkerName} {snap : WorkerSnapshot} :
    failures cfg d name snap = [] ↔ WithinGates cfg d name snap := by
  simp only [failures, checkLatency, List.append_eq_nil_iff, check_eq_nil, not_and, not_lt,
    UInt64.not_lt, gt_iff_lt]
  constructor
  · intro h
    obtain ⟨⟨⟨⟨⟨⟨⟨⟨⟨⟨⟨⟨h1, h2⟩, h3⟩, h4⟩, h5⟩, h6⟩, h7⟩, h8⟩, h9⟩, h10⟩, h11⟩, h12⟩, h13⟩ := h
    exact
      { corrupted := UInt64.le_zero_iff.mp h1, fidelity := h2,
        dropped := fun h => UInt64.le_zero_iff.mp (h3 h)
        loss := fun h => or_iff_not_imp_left.mpr fun hn => h4 h (not_le.mp hn), duplication := h5
        p50 := h6, p95 := h7, p99 := h8, p999 := h9, errors := h10, throughput := h11, downtime := h12
        rpc := h13 }
  · intro h
    exact ⟨⟨⟨⟨⟨⟨⟨⟨⟨⟨⟨⟨h.corrupted ▸ UInt64.le_refl _, h.fidelity⟩,
      fun hn => h.dropped hn ▸ UInt64.le_refl _⟩,
      fun hs hl => (h.loss hs).resolve_left (not_le.mpr hl)⟩, h.duplication⟩,
      h.p50⟩, h.p95⟩, h.p99⟩, h.p999⟩, h.errors⟩, h.throughput⟩, h.downtime⟩, h.rpc⟩

/-- The memory gate, which is advisory. -/
def MemoryGrew (cfg : Config) (baseline peak : UInt64) : Prop :=
  0 < baseline ∧ cfg.thresholds.maxMemoryGrowthFactor < memoryGrowth baseline peak

theorem foldl_fail (ms : List Message) (r : VerdictResult) :
    ms.foldl VerdictResult.fail r =
      if ms = [] then r else { result := .failed, passed := false, warnings := r.warnings ++ ms } := by
  induction ms generalizing r with
  | nil => rfl
  | cons m ms ih =>
    rw [List.foldl_cons, ih]
    cases ms <;> simp [VerdictResult.fail]

section
variable {cfg : Config} {d : Int} {baseline peak : UInt64}
  {snaps : List (Sigma fun _ : WorkerName => WorkerSnapshot)}

theorem flatMap_failures :
    (snaps.flatMap fun e => failures cfg d e.1 e.2) = [] ↔ ∀ e ∈ snaps, WithinGates cfg d e.1 e.2 := by
  simp only [List.flatMap_eq_nil_iff, failures_eq_nil]

theorem computeVerdict_passed :
    (computeVerdict cfg d baseline peak snaps).passed = true ↔
      ∀ e ∈ snaps, WithinGates cfg d e.1 e.2 := by
  rw [← flatMap_failures]
  simp only [computeVerdict, foldl_fail]
  split <;> split <;> simp_all

/-- With a growth factor of at least 1 the guard on the peak says nothing. -/
theorem lt_of_memoryGrew (hmax : 1 ≤ cfg.thresholds.maxMemoryGrowthFactor)
    (h : MemoryGrew cfg baseline peak) : baseline < peak := by
  obtain ⟨hb, hg⟩ := h
  have hb' : (0 : ℚ) < baseline.toNat := by exact_mod_cast UInt64.lt_iff_toNat_lt.mp hb
  have h1 : (1 : ℚ) < peak.toNat / baseline.toNat := lt_of_le_of_lt hmax hg
  rw [lt_div_iff₀ hb', one_mul] at h1
  exact UInt64.lt_iff_toNat_lt.mpr (by exact_mod_cast h1)

theorem computeVerdict_result [Decidable (MemoryGrew cfg baseline peak)]
    (hmax : 1 ≤ cfg.thresholds.maxMemoryGrowthFactor) :
    (computeVerdict cfg d baseline peak snaps).result =
      if (computeVerdict cfg d baseline peak snaps).passed = true then
        if MemoryGrew cfg baseline peak then .passedWithWarnings else .passed
      else .failed := by
  have hg : (baseline > 0 ∧ peak > baseline ∧
      memoryGrowth baseline peak > cfg.thresholds.maxMemoryGrowthFactor) ↔
        MemoryGrew cfg baseline peak :=
    ⟨fun h => ⟨h.1, h.2.2⟩, fun h => ⟨h.1, lt_of_memoryGrew hmax h, h.2⟩⟩
  simp only [computeVerdict, foldl_fail, hg]
  by_cases hn : (snaps.flatMap fun e => failures cfg d e.1 e.2) = [] <;>
    by_cases hm : MemoryGrew cfg baseline peak <;> simp [hn, hm]

end

/-! ## The report's verdict -/

namespace Verdict

theorem record_passed (v : Verdict) (c : CheckResult) :
    (v.record c).passed = (v.passed && (c.passed || c.advisory)) := rfl

@[simp] theorem record_warnings (v : Verdict) (c : CheckResult) :
    (v.record c).warnings = v.warnings := rfl

/-- No check has failed so far. -/
structure Clean (v : Verdict) : Prop where
  passed : v.passed = true
  result : v.result = .passed
  warnings : v.warnings = []

theorem Clean.record {v : Verdict} (h : v.Clean) {c : CheckResult} (hc : c.passed = true) :
    (v.record c).Clean :=
  ⟨by rw [record_passed, h.passed, hc]; rfl, h.result, h.warnings⟩

theorem Clean.addHard {v : Verdict} (h : v.Clean) {name : String} {value threshold : ℚ}
    {message : Message} (hle : value ≤ threshold) : (v.addHard name value threshold message).Clean :=
  h.record (decide_eq_true hle)

theorem Clean.addHardIf {v : Verdict} (h : v.Clean) {c : Prop} [Decidable c] {name : String}
    {value threshold : ℚ} {message : Message} (hle : c → value ≤ threshold) :
    (if c then v.addHard name value threshold message else v).Clean := by
  split
  · next hc => exact h.addHard (hle hc)
  · exact h

end Verdict

theorem le_lossGateThreshold {x base : ℚ} (h : x ≤ base ∨ x ≤ boundaryLossPct) :
    x ≤ lossGateThreshold base := by
  unfold lossGateThreshold
  split
  · next hlt => exact h.elim (fun h => le_trans h (le_of_lt hlt)) id
  · next hle => exact h.elim id fun h => le_trans h (not_lt.mp hle)

/-- What passes the engine's gates passes the report's checks of the worker. -/
theorem addWorker_clean {cfg : Config} {d : Int} {name : WorkerName} {snap : WorkerSnapshot}
    {wc : WorkerConfig} {v : Verdict} (hp99 : 0 < cfg.thresholds.maxP99LatencyMS)
    (h : WithinGates cfg d name snap) (hv : v.Clean) :
    (addWorker cfg v name (workerStats wc snap)).Clean := by
  unfold addWorker
  split
  · exact hv
  · next hs =>
    have hsent : 0 < snap.sent := by
      rw [not_or] at hs
      exact UInt64.pos_iff_ne_zero.mpr hs.2
    dsimp only
    refine .addHardIf (.addHardIf (.addHardIf (hv.addHard ?_) h.duplication) fun hl =>
      h.p99 hl hp99) h.errors
    exact le_lossGateThreshold (h.loss hsent)

theorem foldl_addWorker_clean {cfg : Config} {d : Int} (hp99 : 0 < cfg.thresholds.maxP99LatencyMS)
    {es : List (Sigma fun _ : WorkerName => WorkerStats)}
    (h : ∀ e ∈ es, ∃ snap, e.2 = workerStats (cfg.getWorkerConfig e.1) snap ∧ WithinGates cfg d e.1 snap)
    {v : Verdict} (hv : v.Clean) : (es.foldl (fun v e => addWorker cfg v e.1 e.2) v).Clean := by
  induction es generalizing v with
  | nil => exact hv
  | cons e es ih =>
    obtain ⟨snap, he, hw⟩ := h e (by simp)
    rw [List.foldl_cons, he]
    exact ih (fun e' h' => h e' (by simp [h'])) (addWorker_clean hp99 hw hv)

/-! ## The orders of the loops -/

/-- The two verdicts differ at most in their checks. -/
structure Verdict.Alike (v w : Verdict) : Prop where
  passed : v.passed = w.passed
  result : v.result = w.result
  warnings : v.warnings = w.warnings

section
variable {cfg : Config} {v w : Verdict}

theorem Verdict.Alike.record (h : v.Alike w) (c : CheckResult) : (v.record c).Alike (w.record c) :=
  ⟨by rw [record_passed, record_passed, h.passed], h.result, h.warnings⟩

theorem Verdict.Alike.addEvents (h : v.Alike w) (o : Option WorkerStats) :
    (Burnin.addEvents v o).Alike (Burnin.addEvents w o) := by
  cases o with
  | none => exact h
  | some ev =>
    simp only [Burnin.addEvents]
    split
    · exact h.record _
    · exact h

theorem Verdict.Alike.addMemory (h : v.Alike w) (r : ResourceStats) :
    (Burnin.addMemory cfg v r).Alike (Burnin.addMemory cfg w r) := by
  simp only [Burnin.addMemory]
  split
  · split
    · exact h.record _
    · exact ⟨(h.record _).passed, h.result, by simp only [record_warnings, h.warnings]⟩
  · exact h

theorem Verdict.Alike.conclude (h : v.Alike w) : v.conclude.Alike w.conclude :=
  ⟨h.passed, by simp only [Verdict.conclude, h.passed, h.result, h.warnings], h.warnings⟩

theorem Verdict.Alike.reconcile (h : v.Alike w) (ev : Option VerdictResult) :
    (Burnin.reconcile v ev).Alike (Burnin.reconcile w ev) := by
  cases ev with
  | none => exact h
  | some ev =>
    simp only [Burnin.reconcile, h.result, h.warnings]
    split
    · exact ⟨rfl, rfl, rfl⟩
    · split
      · exact ⟨h.passed, rfl, rfl⟩
      · exact h

theorem addHard_passed (v : Verdict) (name : String) (value threshold : ℚ) (message : Message) :
    (v.addHard name value threshold message).passed = (v.passed && decide (value ≤ threshold)) := by
  simp [Verdict.addHard, Verdict.record_passed]

theorem addHardIf_passed (c : Prop) [Decidable c] (v : Verdict) (name : String) (value threshold : ℚ)
    (message : Message) :
    (if c then v.addHard name value threshold message else v).passed =
      (v.passed && decide (c → value ≤ threshold)) := by
  by_cases hc : c <;> simp [hc, addHard_passed]

theorem addWorker_passed (cfg : Config) (v : Verdict) (name : WorkerName) (ws : WorkerStats) :
    (addWorker cfg v name ws).passed = (v.passed && (addWorker cfg {} name ws).passed) := by
  unfold addWorker
  split
  · simp
  · simp only [addHardIf_passed, addHard_passed, Bool.and_assoc, Bool.true_and]

theorem addWorker_rest (cfg : Config) (v : Verdict) (name : WorkerName) (ws : WorkerStats) :
    (addWorker cfg v name ws).result = v.result ∧ (addWorker cfg v name ws).warnings = v.warnings := by
  have hif : ∀ (c : Prop) [Decidable c] (v : Verdict) (name : String) (value threshold : ℚ)
      (message : Message),
      (if c then v.addHard name value threshold message else v).result = v.result ∧
        (if c then v.addHard name value threshold message else v).warnings = v.warnings := by
    intro c _ v name value threshold message
    split <;> exact ⟨rfl, rfl⟩
  unfold addWorker
  split
  · exact ⟨rfl, rfl⟩
  · simp only [(hif _ _ _ _ _ _).1, (hif _ _ _ _ _ _).2]
    exact ⟨rfl, rfl⟩

theorem foldl_addWorker (cfg : Config) (es : List (Sigma fun _ : WorkerName => WorkerStats))
    (v : Verdict) :
    (es.foldl (fun v e => addWorker cfg v e.1 e.2) v).Alike
      { v with passed := v.passed && es.all fun e => (addWorker cfg {} e.1 e.2).passed } := by
  induction es generalizing v with
  | nil => exact ⟨by simp, rfl, rfl⟩
  | cons e es ih =>
    obtain ⟨h1, h2, h3⟩ := ih (addWorker cfg v e.1 e.2)
    obtain ⟨h4, h5⟩ := addWorker_rest cfg v e.1 e.2
    exact ⟨by rw [List.foldl_cons, h1, addWorker_passed, List.all_cons, Bool.and_assoc],
      h2.trans h4, h3.trans h5⟩

end

theorem sumOf_eq (f : WorkerStats → UInt64) (es : List (Sigma fun _ : WorkerName => WorkerStats)) :
    sumOf f es = (es.map fun e => f e.2).sum := by
  rw [sumOf, List.sum_eq_foldl, List.foldl_map]

/-- **The orders of the loops do not show**: nor do the parts of the summary
other than its workers and resources. -/
theorem generateVerdict_alike (range₁ range₂ range₁' range₂' : (m : Workers) → Range m) {s s' : Summary}
    (hw : s.workers = s'.workers) (hr : s.resources = s'.resources) (cfg : Config) :
    (generateVerdict range₁ range₂ s cfg).Alike (generateVerdict range₁' range₂' s' cfg) := by
  have hperm : ∀ range range' : (m : Workers) → Range m,
      (range s.workers).entries.Perm (range' s'.workers).entries := fun range range' =>
    (range s.workers).perm.trans (hw ▸ (range' s'.workers).perm.symm)
  have hsum : ∀ f : WorkerStats → UInt64,
      sumOf f (range₂ s.workers).entries = sumOf f (range₂' s'.workers).entries := fun f => by
    rw [sumOf_eq, sumOf_eq, ((hperm range₂ range₂').map _).sum_eq]
  have hloop : ((range₁ s.workers).entries.foldl (fun v e => addWorker cfg v e.1 e.2) {}).Alike
      ((range₁' s'.workers).entries.foldl (fun v e => addWorker cfg v e.1 e.2) {}) := by
    obtain ⟨h1, h2, h3⟩ := foldl_addWorker cfg (range₁ s.workers).entries {}
    obtain ⟨h4, h5, h6⟩ := foldl_addWorker cfg (range₁' s'.workers).entries {}
    exact ⟨by rw [h1, h4, (hperm range₁ range₁').all_eq], h2.trans h5.symm, h3.trans h6.symm⟩
  simp only [generateVerdict, hsum, hr, hw]
  exact (((hloop.record _).record _).addEvents _).addMemory _ |>.conclude

/-! ## The summary -/

/-- The stats of a worker in the summary, if it is there. -/
def statsOf (cfg : Config) (snaps : Snapshots) (name : WorkerName) : Option WorkerStats :=
  if (cfg.getWorkerConfig name).enabled then
    (snaps.lookup name).map (workerStats (cfg.getWorkerConfig name))
  else .none

theorem lookup_addStats (cfg : Config) (snaps : Snapshots) (workers : Workers) (name n : WorkerName) :
    (addStats cfg snaps workers name).lookup n =
      if n = name then (statsOf cfg snaps n).or (workers.lookup n) else workers.lookup n := by
  unfold addStats statsOf
  by_cases hn : n = name
  · subst hn
    cases snaps.lookup n with
    | none => simp
    | some snap => by_cases he : (cfg.getWorkerConfig n).enabled <;> simp [he]
  · rw [if_neg hn]
    split
    · rfl
    · dsimp only
      split
      · exact AList.lookup_insert_ne hn
      · rfl

theorem lookup_foldl_addStats (cfg : Config) (snaps : Snapshots) (names : List WorkerName)
    (workers : Workers) (n : WorkerName) :
    (names.foldl (addStats cfg snaps) workers).lookup n =
      if n ∈ names then (statsOf cfg snaps n).or (workers.lookup n) else workers.lookup n := by
  induction names generalizing workers with
  | nil => simp
  | cons name names ih =>
    rw [List.foldl_cons, ih, lookup_addStats]
    by_cases h1 : n = name
    · cases statsOf cfg snaps n <;> simp [h1]
    · by_cases h2 : n ∈ names <;> simp [h1, h2]

theorem lookup_summaryWorkers (cfg : Config) (snaps : Snapshots) (name : WorkerName) :
    (summaryWorkers cfg snaps).lookup name = statsOf cfg snaps name := by
  rw [summaryWorkers, lookup_foldl_addStats, if_pos (mem_allWorkerNames name)]
  simp

theorem mem_summaryWorkers {cfg : Config} {snaps : Snapshots} {name : WorkerName} {ws : WorkerStats} :
    ⟨name, ws⟩ ∈ (summaryWorkers cfg snaps).entries ↔
      (cfg.getWorkerConfig name).enabled = true ∧
        ∃ snap, ⟨name, snap⟩ ∈ snaps.entries ∧ ws = workerStats (cfg.getWorkerConfig name) snap := by
  rw [← AList.mem_lookup_iff, lookup_summaryWorkers, statsOf]
  by_cases he : (cfg.getWorkerConfig name).enabled = true
  · simp only [he, if_true, true_and, Option.mem_def, Option.map_eq_some_iff, ← AList.mem_lookup_iff]
    exact ⟨fun ⟨s, h, hs⟩ => ⟨s, h, hs.symm⟩, fun ⟨s, h, hs⟩ => ⟨s, h, hs.symm⟩⟩
  · simp [he]

/-- The fidelity failures of the enabled workers together, as a `uint64`. -/
def totalFidelity (cfg : Config) (snaps : Snapshots) : UInt64 :=
  ((snaps.entries.filter fun e => (cfg.getWorkerConfig e.1).enabled).map fun e =>
    e.2.fidelityFailures).sum

/-- The entries of a summary are the enabled snapshots, in some order. -/
theorem summaryWorkers_perm (cfg : Config) (snaps : Snapshots) :
    (summaryWorkers cfg snaps).entries.Perm
      ((snaps.entries.filter fun e => (cfg.getWorkerConfig e.1).enabled).map fun e =>
        ⟨e.1, workerStats (cfg.getWorkerConfig e.1) e.2⟩) := by
  have hkeys : (List.map Sigma.fst
      (snaps.entries.filter fun e => (cfg.getWorkerConfig e.1).enabled)).Nodup :=
    (snaps.keys_nodup).sublist (List.Sublist.map _ List.filter_sublist)
  rw [List.perm_ext_iff_of_nodup (summaryWorkers cfg snaps).nodupKeys.nodup]
  · intro h
    obtain ⟨name, ws⟩ := h
    rw [mem_summaryWorkers, List.mem_map]
    constructor
    · intro h
      obtain ⟨he, snap, hs, rfl⟩ := h
      exact ⟨⟨name, snap⟩, List.mem_filter.mpr ⟨hs, he⟩, rfl⟩
    · intro h
      obtain ⟨⟨name', snap⟩, hm, heq⟩ := h
      obtain ⟨hs, he⟩ := List.mem_filter.mp hm
      cases heq
      exact ⟨he, snap, hs, rfl⟩
  · refine List.Nodup.of_map Sigma.fst ?_
    rw [List.map_map]
    exact hkeys

theorem sumOf_fidelity (cfg : Config) (snaps : Snapshots) (range : Range (summaryWorkers cfg snaps)) :
    sumOf (·.fidelityFailures) range.entries = totalFidelity cfg snaps := by
  rw [sumOf_eq, ((range.perm.trans (summaryWorkers_perm cfg snaps)).map _).sum_eq, List.map_map]
  rfl

theorem sumOf_eq_zero {f : WorkerStats → UInt64} {es : List (Sigma fun _ : WorkerName => WorkerStats)}
    (h : ∀ e ∈ es, f e.2 = 0) : sumOf f es = 0 := by
  rw [sumOf_eq]
  refine List.sum_eq_zero fun x hx => ?_
  obtain ⟨e, he, rfl⟩ := List.mem_map.mp hx
  exact h e he

/-! ## The two verdicts of a run -/

/-- What `RunReport` reads once the run has captured `snaps` and its verdict. -/
def readsAfter (cfg : Config) (measurementDuration : Int) (baseline peak : UInt64) {snaps : Snapshots}
    (range : Range snaps) (runID : String) (startedAt endedAt : Time) : Reads where
  snapshots := .some snaps
  runConfig := .some cfg
  runID := runID
  runStartedAt := startedAt
  runEndedAt := endedAt
  baselineRSS := baseline
  peakRSS := peak
  verdict := .some (computeVerdict cfg measurementDuration baseline peak range.entries)

section
variable {cfg : Config} {d : Int} {baseline peak : UInt64}

theorem memoryGrew_iff :
    ((resourceStats baseline peak).baselineRSSMB > 0 ∧
      ¬ (resourceStats baseline peak).memoryGrowthFactor ≤ cfg.thresholds.maxMemoryGrowthFactor) ↔
      MemoryGrew cfg baseline peak := by
  have hb : (resourceStats baseline peak).baselineRSSMB > 0 ↔ 0 < baseline := by
    simp only [resourceStats, gt_iff_lt, UInt64.lt_iff_toNat_lt, UInt64.toNat_zero]
    rw [div_pos_iff_of_pos_right (by norm_num), div_pos_iff_of_pos_right (by norm_num), Nat.cast_pos]
  rw [hb, MemoryGrew, not_le]
  refine and_congr_right fun h => ?_
  simp only [resourceStats, gt_iff_lt, h, if_true]

theorem addMemory_passed {v : Verdict} :
    (addMemory cfg v (resourceStats baseline peak)).passed = v.passed := by
  unfold addMemory
  split
  · dsimp only
    split <;> simp [Verdict.record_passed]
  · rfl

theorem addMemory_result {v : Verdict} :
    (addMemory cfg v (resourceStats baseline peak)).result = v.result := by
  unfold addMemory
  split
  · dsimp only
    split <;> rfl
  · rfl

theorem addMemory_warnings {v : Verdict} (hv : v.warnings = []) :
    (addMemory cfg v (resourceStats baseline peak)).warnings ≠ [] ↔ MemoryGrew cfg baseline peak := by
  rw [← memoryGrew_iff]
  unfold addMemory
  split
  · next hb =>
    dsimp only
    split
    · next hg => simp [hv, hg]
    · next hg => simp [hb, hg]
  · next hb => simp [hv, hb]

end

theorem addEvents_dropped (v : Verdict) {o : Option WorkerStats} (h : ∀ ev ∈ o, ev.eventsDropped = 0) :
    (addEvents v o).passed = v.passed ∧ (addEvents v o).result = v.result ∧
      (addEvents v o).warnings = v.warnings := by
  cases o with
  | none => exact ⟨rfl, rfl, rfl⟩
  | some ev =>
    simp only [addEvents]
    split
    · exact ⟨by simp [Verdict.record_passed, h ev rfl], rfl, rfl⟩
    · exact ⟨rfl, rfl, rfl⟩

/-- **The report's verdict where the engine's passes**: it is decided by the
sum of the fidelity failures. -/
theorem generateVerdict_within {cfg : Config} {d : Int} {snaps : Snapshots} (r : Reads)
    (range₁ range₂ : (m : Workers) → Range m)
    [Decidable (MemoryGrew cfg r.baselineRSS r.peakRSS)] (hr : cfg.thresholds.InRange)
    (h : ∀ e ∈ snaps.entries, WithinGates cfg d e.1 e.2) :
    (generateVerdict range₁ range₂ (summarize cfg snaps r) cfg).passed =
        decide (totalFidelity cfg snaps ≤ .ofInt cfg.thresholds.maxAmqp10FidelityFailures) ∧
      (generateVerdict range₁ range₂ (summarize cfg snaps r) cfg).result =
        if totalFidelity cfg snaps ≤ .ofInt cfg.thresholds.maxAmqp10FidelityFailures then
          if MemoryGrew cfg r.baselineRSS r.peakRSS then .passedWithWarnings else .passed
        else .failed := by
  have hstats : ∀ e ∈ (summaryWorkers cfg snaps).entries,
      ∃ snap, e.2 = workerStats (cfg.getWorkerConfig e.1) snap ∧ WithinGates cfg d e.1 snap := by
    rintro ⟨name, ws⟩ he
    obtain ⟨-, snap, hs, hws⟩ := mem_summaryWorkers.mp he
    exact ⟨snap, hws, h ⟨name, snap⟩ hs⟩
  have hworkers : ((range₁ (summaryWorkers cfg snaps)).entries.foldl
      (fun v e => addWorker cfg v e.1 e.2) {}).Clean :=
    foldl_addWorker_clean hr.maxP99LatencyMS
      (fun e he => hstats e ((range₁ _).perm.mem_iff.mp he)) ⟨rfl, rfl, rfl⟩
  have hcorrupted : sumOf (·.corrupted) (range₂ (summaryWorkers cfg snaps)).entries = 0 :=
    sumOf_eq_zero fun e he => by
      obtain ⟨snap, hws, hw⟩ := hstats e ((range₂ _).perm.mem_iff.mp he)
      rw [hws]
      exact hw.corrupted
  have hevents : ∀ ev ∈ (summaryWorkers cfg snaps).lookup .events,
      ev.eventsDropped = 0 := fun ev hev => by
    obtain ⟨snap, hws, hw⟩ := hstats ⟨.events, ev⟩ (AList.mem_lookup_iff.mp hev)
    have hws : ev = workerStats (cfg.getWorkerConfig .events) snap := hws
    rw [hws]
    exact hw.dropped rfl
  generalize hv : (range₁ (summaryWorkers cfg snaps)).entries.foldl
    (fun v e => addWorker cfg v e.1 e.2) {} = v at hworkers
  -- The verdict before the memory is looked at.
  obtain ⟨v', hv'⟩ : ∃ v', v' = addEvents (addTotals cfg v 0 (totalFidelity cfg snaps))
      ((summaryWorkers cfg snaps).lookup .events) := ⟨_, rfl⟩
  obtain ⟨h1, h2, h3⟩ := addEvents_dropped (addTotals cfg v 0 (totalFidelity cfg snaps)) hevents
  rw [← hv'] at h1 h2 h3
  have hpassed : v'.passed =
      decide (totalFidelity cfg snaps ≤ .ofInt cfg.thresholds.maxAmqp10FidelityFailures) := by
    rw [h1]
    simp [addTotals, Verdict.record_passed, hworkers.passed]
  have hgen : generateVerdict range₁ range₂ (summarize cfg snaps r) cfg =
      (addMemory cfg v' (resourceStats r.baselineRSS r.peakRSS)).conclude := by
    rw [hv', ← hv, ← sumOf_fidelity cfg snaps (range₂ _), ← hcorrupted]
    rfl
  have hwarn : (addMemory cfg v' (resourceStats r.baselineRSS r.peakRSS)).warnings ≠ [] ↔
      MemoryGrew cfg r.baselineRSS r.peakRSS := addMemory_warnings (h3.trans hworkers.warnings)
  rw [hgen]
  refine ⟨addMemory_passed.trans hpassed, ?_⟩
  simp only [Verdict.conclude, addMemory_passed, hpassed, addMemory_result, hwarn,
    h2.trans hworkers.result, decide_eq_false_iff_not, ite_not]

theorem reconcile_passing {v : Verdict} {ev : VerdictResult} (h : ev.passed = true) :
    (reconcile v (.some ev)).passed = v.passed ∧
      (reconcile v (.some ev)).result =
        if ev.result = .passedWithWarnings ∧ v.result = .passed then .passedWithWarnings
        else v.result := by
  simp only [reconcile, h, Bool.true_eq_false, if_false]
  split <;> exact ⟨rfl, rfl⟩

theorem reconcile_failing {v : Verdict} {ev : VerdictResult} (h : ev.passed = false) :
    (reconcile v (.some ev)).passed = false ∧ (reconcile v (.some ev)).result = .failed := by
  simp only [reconcile, h, if_true, and_self]

/-- The report of a run gives the engine's verdict. -/
def Agree (startupCfg cfg : Config) (measurementDuration : Int) (baseline peak : UInt64)
    {snaps : Snapshots} (range : Range snaps) (range₁ range₂ : (m : Workers) → Range m) (runID : String)
    (startedAt endedAt : Time) : Prop :=
  ∃ summary verdict,
    runReport startupCfg range₁ range₂
      (readsAfter cfg measurementDuration baseline peak range runID startedAt endedAt) =
        .some (summary, verdict) ∧
    verdict.passed = (computeVerdict cfg measurementDuration baseline peak range.entries).passed ∧
    verdict.result = (computeVerdict cfg measurementDuration baseline peak range.entries).result

/-- **When the two verdicts agree.** Whatever the orders of the loops, the
reconciled verdict of the report is the engine's exactly when some worker is
not within the engine's gates, or the fidelity failures of all enabled workers
together are within the threshold too. -/
theorem verdicts_agree_iff (startupCfg : Config) (c : AcceptedConfig) (measurementDuration : Int)
    (baseline peak : UInt64) {snaps : Snapshots} (range : Range snaps)
    (range₁ range₂ : (m : Workers) → Range m) (runID : String) (startedAt endedAt : Time) :
    Agree startupCfg c.cfg measurementDuration baseline peak range range₁ range₂ runID startedAt endedAt ↔
      (∃ e ∈ snaps.entries, ¬ WithinGates c.cfg measurementDuration e.1 e.2) ∨
        totalFidelity c.cfg snaps ≤ .ofInt c.cfg.thresholds.maxAmqp10FidelityFailures := by
  classical
  have hr := c.accepted.inRange
  have hpassed : (computeVerdict c.cfg measurementDuration baseline peak range.entries).passed = true ↔
      ∀ e ∈ snaps.entries, WithinGates c.cfg measurementDuration e.1 e.2 := by
    rw [computeVerdict_passed]
    exact forall_congr' fun e => imp_congr_left range.perm.mem_iff
  have hresult : (computeVerdict c.cfg measurementDuration baseline peak range.entries).result = _ :=
    computeVerdict_result hr.maxMemoryGrowthFactor
  simp only [Agree, runReport, readsAfter, Option.map_some, Option.getD_some, Option.some.injEq,
    Prod.mk.injEq, ↓existsAndEq, true_and]
  by_cases h : ∀ e ∈ snaps.entries, WithinGates c.cfg measurementDuration e.1 e.2
  · -- The engine passes: the report is not overruled, and its own sum decides.
    obtain ⟨h1, h2⟩ := generateVerdict_within
      (readsAfter c.cfg measurementDuration baseline peak range runID startedAt endedAt) range₁ range₂ hr h
    obtain ⟨h3, h4⟩ := reconcile_passing (v := generateVerdict range₁ range₂ (summarize c.cfg snaps
      (readsAfter c.cfg measurementDuration baseline peak range runID startedAt endedAt)) c.cfg)
        (hpassed.mpr h)
    have hnone : ¬ ∃ e ∈ snaps.entries, ¬ WithinGates c.cfg measurementDuration e.1 e.2 :=
      fun ⟨e, he, hn⟩ => hn (h e he)
    rw [or_iff_right hnone]
    refine Iff.trans (and_congr (Eq.congr h3 (hpassed.mpr h)) (Eq.congr h4 hresult)) ?_
    rw [h1, h2, hresult, if_pos (hpassed.mpr h), decide_eq_true_iff]
    refine and_iff_left_of_imp fun hf => ?_
    rw [if_pos hf]
    by_cases hm : MemoryGrew c.cfg baseline peak <;> simp [readsAfter, hm]
  · -- The engine fails: the report is overruled.
    have hf : (computeVerdict c.cfg measurementDuration baseline peak range.entries).passed = false :=
      Bool.eq_false_of_not_eq_true fun hp => h (hpassed.mp hp)
    obtain ⟨h1, h2⟩ := reconcile_failing (v := generateVerdict range₁ range₂ (summarize c.cfg snaps
      (readsAfter c.cfg measurementDuration baseline peak range runID startedAt endedAt)) c.cfg) hf
    rw [hf] at hresult
    push Not at h
    exact iff_of_true ⟨h1.trans hf.symm, h2.trans hresult.symm⟩ (.inl h)

/-- The defaults with one fidelity failure allowed. -/
def oneFailureConfig : Config :=
  { defaultConfig with thresholds := { defaultConfig.thresholds with maxAmqp10FidelityFailures := 1 } }

/-- Two workers with one fidelity failure each, and nothing else. -/
def twoFailures : Snapshots where
  entries := [⟨.queues, { fidelityFailures := 1 }⟩, ⟨.events, { fidelityFailures := 1 }⟩]
  nodupKeys := by simp [List.NodupKeys, List.keys]

/-- The engine passes the run, its report fails it. -/
theorem fidelity_sum_disagrees :
    oneFailureConfig.Accepted ∧
      ¬ Agree defaultConfig oneFailureConfig (10 ^ 9) 0 0
        (.stored twoFailures) .stored .stored "run" .none .none := by
  refine ⟨by decide +kernel, ?_⟩
  intro h
  obtain ⟨summary, verdict, h, hp, -⟩ := h
  have hengine : (computeVerdict oneFailureConfig (10 ^ 9) 0 0 twoFailures.entries).passed =
      true := by decide +kernel
  have hreport : (runReport defaultConfig .stored .stored
      (readsAfter oneFailureConfig (10 ^ 9) 0 0 (.stored twoFailures) "run" .none .none)).map
        (·.2.passed) =
      .some false := by decide +kernel
  rw [h] at hreport
  have hfalse : verdict.passed = false := by simpa using hreport
  rw [hfalse] at hp
  exact Bool.false_ne_true (hp.trans hengine)

/-! ## Throughput -/

/-- **A passed run has its throughput**: each worker that is not an RPC worker
and has sent at all has sent at the demanded share of its rate. -/
theorem throughput_of_passed (c : AcceptedConfig) {measurementDuration : Int}
    (hd : 0 < measurementDuration) (baseline peak : UInt64) {snaps : Snapshots} (range : Range snaps)
    (hp : (computeVerdict c.cfg measurementDuration baseline peak range.entries).passed = true) :
    ∀ e ∈ snaps.entries, e.1.isRPCWorker = false → 0 < e.2.sent →
      c.cfg.thresholds.minThroughputPct / 100 * c.cfg.getWorkerRate e.1 ≤
        e.2.sent.toNat / seconds measurementDuration := by
  intro e he hrpc hsent
  have hw := computeVerdict_passed.mp hp e (range.perm.mem_iff.mpr he)
  have hsec : 0 < seconds measurementDuration := div_pos (by exact_mod_cast hd) (by norm_num)
  have hrate : (0 : ℚ) ≤ e.2.sent.toNat / seconds measurementDuration := by positivity
  by_cases hpos : (0 : ℚ) < c.cfg.getWorkerRate e.1
  · have h := hw.throughput hrpc hd hsent hpos
    rw [div_mul_eq_mul_div, le_div_iff₀ hpos] at h
    linarith
  · -- A rate that is not positive demands nothing.
    have hmin := c.accepted.inRange.minThroughputPct.1
    exact le_trans (mul_nonpos_of_nonneg_of_nonpos (by positivity) (not_lt.mp hpos)) hrate

/-- A queues worker at its rate of 100 for one second. -/
def atRate : Snapshots where
  entries := [⟨.queues, { sent := 100, received := 100 }⟩]
  nodupKeys := by simp [List.NodupKeys, List.keys]

theorem throughput_of_atRate :
    defaultConfig.thresholds.minThroughputPct / 100 * defaultConfig.getWorkerRate .queues ≤
      (100 : UInt64).toNat / seconds (10 ^ 9) :=
  throughput_of_passed ⟨defaultConfig, Config.defaultConfig_accepted⟩ (by decide) 0 0 (.stored atRate)
    (by decide +kernel) ⟨.queues, { sent := 100, received := 100 }⟩ (by decide) rfl (by decide)

/-- A queues worker that sent nothing. -/
def silent : Snapshots where
  entries := [⟨.queues, {}⟩]
  nodupKeys := by simp [List.NodupKeys, List.keys]

/-- A worker that sent nothing is not held to its throughput. -/
theorem silent_worker_passes :
    defaultConfig.Accepted ∧ (computeVerdict defaultConfig (10 ^ 9) 0 0 silent.entries).passed = true ∧
      ¬ defaultConfig.thresholds.minThroughputPct / 100 * defaultConfig.getWorkerRate .queues ≤
        (0 : UInt64).toNat / seconds (10 ^ 9) := by
  refine ⟨Config.defaultConfig_accepted, by decide +kernel, by decide +kernel⟩

end Burnin
