/-
The engine's verdict (`burnin/engine/verdict.go`): the captured snapshots of
the workers against the thresholds of the configuration.

Counters are `UInt64`, and a sum of two of them wraps. Percentages, rates and
latencies are rationals, taken exactly. A Go map is iterated in any order: a
`Range` is the entries of a map in the order of one `range` statement.
-/
import Mathlib.Algebra.Order.Field.Rat
import Burnin.Config

namespace Burnin

/-- The entries of a map in the order of one `range` statement over it. -/
structure Range {α : Type} [DecidableEq α] {β : α → Type} (m : AList β) where
  entries : List (Sigma β)
  perm : entries.Perm m.entries

/-- The entries in the order they are stored in. -/
def Range.stored {α : Type} [DecidableEq α] {β : α → Type} (m : AList β) : Range m :=
  ⟨m.entries, .refl _⟩

structure WorkerSnapshot where
  sent : UInt64 := 0
  received : UInt64 := 0
  errors : UInt64 := 0
  corrupted : UInt64 := 0
  reconnections : UInt64 := 0
  downtimeSeconds : ℚ := 0
  duplicated : UInt64 := 0
  lost : UInt64 := 0
  outOfOrder : UInt64 := 0
  fidelityFailures : UInt64 := 0
  eventsDropped : UInt64 := 0
  rpcSuccess : UInt64 := 0
  rpcTimeout : UInt64 := 0
  rpcError : UInt64 := 0
  latencyP50 : ℚ := 0
  latencyP95 : ℚ := 0
  latencyP99 : ℚ := 0
  latencyP999 : ℚ := 0
  rpcLatencyP50 : ℚ := 0
  rpcLatencyP99 : ℚ := 0
  peakRate : ℚ := 0
  avgRate : ℚ := 0
  deriving DecidableEq

/-- The map `workerSnapshots`. -/
abbrev Snapshots := AList fun _ : WorkerName => WorkerSnapshot

/-- The results `"PASSED"`, `"PASSED_WITH_WARNINGS"` and `"FAILED"`. -/
inductive Result where
  | passed | passedWithWarnings | failed
  deriving DecidableEq, Repr

structure VerdictResult where
  result : Result
  passed : Bool
  warnings : List Message := []
  deriving DecidableEq

/-- `float64(x) / float64(y) * 100`. -/
def pct (x y : UInt64) : ℚ := x.toNat / y.toNat * 100

/-- `d.Seconds()` of a duration in nanoseconds. -/
def seconds (d : Int) : ℚ := d / 10 ^ 9

/-- `boundaryLossPct`. -/
def boundaryLossPct : ℚ := 1 / 2

/-- `checkLatency`. -/
def checkLatency (name : WorkerName) (label : String) (value threshold : ℚ) : List Message :=
  check (value > 0 ∧ threshold > 0 ∧ value > threshold) "%s: %s latency %.1fms exceeds %.1fms"
    [.str name.text, .str label, .float value, .float threshold]

/-- The loss threshold of a worker, the at-most-once one for events. -/
def maxLoss (cfg : Config) (name : WorkerName) : ℚ :=
  if name = .events then cfg.thresholds.maxEventsLossPct else cfg.thresholds.maxLossPct

/-- The calls of `fail` in one round of the loop of `computeVerdict`, in order. -/
def failures (cfg : Config) (measurementDuration : Int) (name : WorkerName) (snap : WorkerSnapshot) :
    List Message :=
  let t := cfg.thresholds
  let total := snap.sent + snap.received
  let targetRate : ℚ := cfg.getWorkerRate name
  let throughputPct := snap.sent.toNat / seconds measurementDuration / targetRate * 100
  let downtimePct := snap.downtimeSeconds / seconds measurementDuration * 100
  let rpcTotal := snap.rpcSuccess + snap.rpcTimeout + snap.rpcError
  let failPct := pct (snap.rpcTimeout + snap.rpcError) rpcTotal
  check (snap.corrupted > 0) "%s: %d corrupted messages" [.str name.text, .int snap.corrupted.toNat] ++
    check (snap.fidelityFailures > .ofInt t.maxAmqp10FidelityFailures)
      "%s: %d fidelity failures exceed max %d"
      [.str name.text, .int snap.fidelityFailures.toNat, .int t.maxAmqp10FidelityFailures] ++
    check (name = .events ∧ snap.eventsDropped > 0)
      "%s: %d events dropped at 0 credit (expected 0 with continuous credit)"
      [.str name.text, .int snap.eventsDropped.toNat] ++
    check (snap.sent > 0 ∧ pct snap.lost snap.sent > maxLoss cfg name ∧
        pct snap.lost snap.sent > boundaryLossPct)
      "%s: loss %.4f%% exceeds threshold %.4f%%"
      [.str name.text, .float (pct snap.lost snap.sent), .float (maxLoss cfg name)] ++
    check (snap.received > 0 ∧ pct snap.duplicated snap.received > t.maxDuplicationPct)
      "%s: duplication %.4f%% exceeds threshold %.4f%%"
      [.str name.text, .float (pct snap.duplicated snap.received), .float t.maxDuplicationPct] ++
    checkLatency name "p50" snap.latencyP50 t.maxP50LatencyMS ++
    checkLatency name "p95" snap.latencyP95 t.maxP95LatencyMS ++
    checkLatency name "p99" snap.latencyP99 t.maxP99LatencyMS ++
    checkLatency name "p999" snap.latencyP999 t.maxP999LatencyMS ++
    check (total > 0 ∧ pct snap.errors total > t.maxErrorRatePct)
      "%s: error rate %.4f%% exceeds %.4f%%"
      [.str name.text, .float (pct snap.errors total), .float t.maxErrorRatePct] ++
    -- RPC workers are bounded by the round trip and have their own gate below.
    check (name.isRPCWorker = false ∧ measurementDuration > 0 ∧ snap.sent > 0 ∧ targetRate > 0 ∧
        throughputPct < t.minThroughputPct)
      "%s: throughput %.1f%% below %.1f%%"
      [.str name.text, .float throughputPct, .float t.minThroughputPct] ++
    check (measurementDuration > 0 ∧ snap.downtimeSeconds > 0 ∧ downtimePct > t.maxDowntimePct)
      "%s: downtime %.1f%% exceeds %.1f%%" [.str name.text, .float downtimePct,
        .float t.maxDowntimePct] ++
    check (name.isRPCWorker = true ∧ rpcTotal > 0 ∧ failPct > t.maxErrorRatePct)
      "%s: RPC failure rate %.2f%% exceeds %.2f%%"
        [.str name.text, .float failPct, .float t.maxErrorRatePct]

/-- The closure `fail` of `computeVerdict`. -/
def VerdictResult.fail (r : VerdictResult) (m : Message) : VerdictResult :=
  { result := .failed, passed := false, warnings := r.warnings ++ [m] }

/-- The growth of the resident memory. -/
def memoryGrowth (baseline peak : UInt64) : ℚ := peak.toNat / baseline.toNat

/-- `computeVerdict`, on the snapshots in the order of its loop. -/
def computeVerdict (cfg : Config) (measurementDuration : Int) (baseline peak : UInt64)
    (snapshots : List (Sigma fun _ : WorkerName => WorkerSnapshot)) : VerdictResult :=
  let result := (snapshots.flatMap fun e => failures cfg measurementDuration e.1 e.2).foldl
    VerdictResult.fail { result := .passed, passed := true }
  let growth := memoryGrowth baseline peak
  if baseline > 0 ∧ peak > baseline ∧ growth > cfg.thresholds.maxMemoryGrowthFactor then
    { result with
      result := if result.passed then .passedWithWarnings else result.result
      warnings := result.warnings ++
        [⟨"memory growth %.2fx exceeds threshold %.2fx",
          [.float growth, .float cfg.thresholds.maxMemoryGrowthFactor]⟩] }
  else result

end Burnin
