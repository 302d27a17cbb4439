/-
The run report: `GenerateVerdict` (`burnin/report/report.go`) over a summary,
and the summary, the verdict and its reconciliation with the engine's as
`engineAdapter.RunReport` (`burnin/main.go`) builds them from what it reads of
the engine.
-/
import Burnin.Verdict

namespace Burnin

structure WorkerStats where
  enabled : Bool
  sent : UInt64
  received : UInt64
  lost : UInt64
  duplicated : UInt64
  corrupted : UInt64
  outOfOrder : UInt64
  lossPct : ℚ := 0
  errors : UInt64
  reconnections : UInt64
  downtimeSeconds : ℚ
  fidelityFailures : UInt64
  eventsDropped : UInt64
  latencyP50MS : ℚ
  latencyP95MS : ℚ
  latencyP99MS : ℚ
  latencyP999MS : ℚ
  avgRate : ℚ
  peakRate : ℚ
  targetRate : Int
  channels : Int
  rpcSuccess : UInt64
  rpcTimeout : UInt64
  rpcError : UInt64
  rpcLatencyP50MS : ℚ
  rpcLatencyP99MS : ℚ
  deriving DecidableEq

/-- The map `Workers` of a summary. -/
abbrev Workers := AList fun _ : WorkerName => WorkerStats

structure ResourceStats where
  peakRSSMB : ℚ
  baselineRSSMB : ℚ
  memoryGrowthFactor : ℚ := 0
  deriving DecidableEq

/-- A time in nanoseconds, none for the zero time. -/
abbrev Time := Option Int

structure Summary where
  runID : String
  sdk : String := "amqp10"
  sdkVersion : String
  mode : String
  brokerAddress : String
  settleMode : String
  startedAt : Time
  endedAt : Time
  durationSeconds : ℚ := 0
  allWorkersEnabled : Bool
  workers : Workers
  resources : ResourceStats

structure CheckResult where
  name : String
  passed : Bool
  advisory : Bool := false
  value : ℚ
  threshold : ℚ := 0
  message : Message
  deriving DecidableEq

structure Verdict where
  result : Result := .passed
  passed : Bool := true
  warnings : List Message := []
  checks : AList fun _ : String => CheckResult := ∅

namespace Verdict

/-- `v.Checks[c.Name] = c`, with `v.Passed = false` when the check is not
advisory and did not pass. -/
def record (v : Verdict) (c : CheckResult) : Verdict :=
  { v with passed := v.passed && (c.passed || c.advisory), checks := v.checks.insert c.name c }

/-- `addHard`. -/
def addHard (v : Verdict) (name : String) (value threshold : ℚ) (message : Message) : Verdict :=
  v.record { name, passed := value ≤ threshold, value, threshold, message }

end Verdict

/-- `lossGateThreshold`, less its two unused arguments. -/
def lossGateThreshold (base : ℚ) : ℚ := if base < boundaryLossPct then boundaryLossPct else base

/-- One round of the first loop of `GenerateVerdict`. -/
def addWorker (cfg : Config) (v : Verdict) (name : WorkerName) (ws : WorkerStats) : Verdict :=
  if ws.enabled = false ∨ ws.sent = 0 then v
  else
    let t := cfg.thresholds
    let lossPct := pct ws.lost ws.sent
    let v := v.addHard ("message_loss:" ++ name.text) lossPct (lossGateThreshold (maxLoss cfg name))
      ⟨"%.4f%% loss (threshold %.4f%%)", [.float lossPct, .float (maxLoss cfg name)]⟩
    let v :=
      if ws.received > 0 then
        let dupPct := pct ws.duplicated ws.received
        v.addHard ("duplication:" ++ name.text) dupPct t.maxDuplicationPct
          ⟨"%.4f%% duplication (threshold %.4f%%)", [.float dupPct, .float t.maxDuplicationPct]⟩
      else v
    let v :=
      if ws.latencyP99MS > 0 then
        v.addHard ("p99_latency:" ++ name.text) ws.latencyP99MS t.maxP99LatencyMS
          ⟨"P99=%.1fms (threshold %.1fms)", [.float ws.latencyP99MS, .float t.maxP99LatencyMS]⟩
      else v
    let total := ws.sent + ws.received
    if total > 0 then
      let errPct := pct ws.errors total
      v.addHard ("error_rate:" ++ name.text) errPct t.maxErrorRatePct
        ⟨"%.4f%% error rate (threshold %.4f%%)", [.float errPct, .float t.maxErrorRatePct]⟩
    else v

/-- A `uint64` sum over the workers, in the order of the loop. -/
def sumOf (f : WorkerStats → UInt64) (workers : List (Sigma fun _ : WorkerName => WorkerStats)) :
    UInt64 :=
  workers.foldl (fun total e => total + f e.2) 0

/-- The checks of `GenerateVerdict` over all workers. -/
def addTotals (cfg : Config) (v : Verdict) (totalCorrupted totalFidelity : UInt64) : Verdict :=
  let max := cfg.thresholds.maxAmqp10FidelityFailures
  (v.record
    { name := "corruption", passed := totalCorrupted = 0, value := totalCorrupted.toNat
      message := ⟨"%d corrupted messages", [.int totalCorrupted.toNat]⟩ }).record
    { name := "fidelity", passed := totalFidelity ≤ .ofInt max, value := totalFidelity.toNat,
      threshold := max
      message := ⟨"%d fidelity failures (max %d)", [.int totalFidelity.toNat, .int max]⟩ }

/-- The check of the events worker, when the summary has one. -/
def addEvents (v : Verdict) : Option WorkerStats → Verdict
  | .some ev =>
    if ev.enabled then
      v.record
        { name := "events_no_credit_drop", passed := ev.eventsDropped = 0,
          value := ev.eventsDropped.toNat
          message := ⟨"%d events dropped at 0 credit", [.int ev.eventsDropped.toNat]⟩ }
    else v
  | .none => v

/-- The advisory check of the memory. -/
def addMemory (cfg : Config) (v : Verdict) (r : ResourceStats) : Verdict :=
  if r.baselineRSSMB > 0 then
    let growth := r.memoryGrowthFactor
    let max := cfg.thresholds.maxMemoryGrowthFactor
    let v := v.record
      { name := "memory_stability", passed := growth ≤ max, advisory := true, value := growth,
        threshold := max
        message := ⟨"%.2fx growth (threshold %.2fx)", [.float growth, .float max]⟩ }
    if growth ≤ max then v
    else
      { v with
        warnings := v.warnings ++
          [⟨"memory_stability: %.2fx growth exceeds %.2fx", [.float growth, .float max]⟩] }
  else v

/-- The last lines of `GenerateVerdict`. -/
def Verdict.conclude (v : Verdict) : Verdict :=
  { v with
    result := if v.passed = false then .failed else if v.warnings ≠ [] then .passedWithWarnings
      else v.result }

/-- `GenerateVerdict`, with the orders of its two loops over the workers. -/
def generateVerdict (range₁ range₂ : (m : Workers) → Range m) (summary : Summary) (cfg : Config) :
    Verdict :=
  let v := (range₁ summary.workers).entries.foldl (fun v e => addWorker cfg v e.1 e.2) {}
  let totalCorrupted := sumOf (·.corrupted) (range₂ summary.workers).entries
  let totalFidelity := sumOf (·.fidelityFailures) (range₂ summary.workers).entries
  let v := addTotals cfg v totalCorrupted totalFidelity
  let v := addEvents v (summary.workers.lookup .events)
  (addMemory cfg v summary.resources).conclude

/-- What `RunReport` reads of the engine, each under its own lock. -/
structure Reads where
  snapshots : Option Snapshots
  runConfig : Option Config
  runID : String
  runStartedAt : Time
  runEndedAt : Time
  baselineRSS : UInt64
  peakRSS : UInt64
  verdict : Option VerdictResult

/-- The stats of an enabled worker from its snapshot. -/
def workerStats (wc : WorkerConfig) (snap : WorkerSnapshot) : WorkerStats where
  enabled := true
  sent := snap.sent
  received := snap.received
  lost := snap.lost
  duplicated := snap.duplicated
  corrupted := snap.corrupted
  outOfOrder := snap.outOfOrder
  lossPct := if snap.sent > 0 then pct snap.lost snap.sent else 0
  errors := snap.errors
  reconnections := snap.reconnections
  downtimeSeconds := snap.downtimeSeconds
  fidelityFailures := snap.fidelityFailures
  eventsDropped := snap.eventsDropped
  latencyP50MS := snap.latencyP50
  latencyP95MS := snap.latencyP95
  latencyP99MS := snap.latencyP99
  latencyP999MS := snap.latencyP999
  avgRate := snap.avgRate
  peakRate := snap.peakRate
  targetRate := wc.rate
  channels := wc.channels
  rpcSuccess := snap.rpcSuccess
  rpcTimeout := snap.rpcTimeout
  rpcError := snap.rpcError
  rpcLatencyP50MS := snap.rpcLatencyP50
  rpcLatencyP99MS := snap.rpcLatencyP99

/-- One round of the loop of `RunReport` over `AllWorkerNames`. -/
def addStats (cfg : Config) (snapshots : Snapshots) (workers : Workers) (name : WorkerName) : Workers :=
  match snapshots.lookup name with
  | .none => workers
  | .some snap =>
    let wc := cfg.getWorkerConfig name
    if wc.enabled then workers.insert name (workerStats wc snap) else workers

def summaryWorkers (cfg : Config) (snapshots : Snapshots) : Workers :=
  allWorkerNames.foldl (addStats cfg snapshots) ∅

def resourceStats (baseline peak : UInt64) : ResourceStats where
  peakRSSMB := peak.toNat / 1024 / 1024
  baselineRSSMB := baseline.toNat / 1024 / 1024
  memoryGrowthFactor := if baseline > 0 then memoryGrowth baseline peak else 0

/-- The summary that `RunReport` builds. -/
def summarize (cfg : Config) (snapshots : Snapshots) (r : Reads) : Summary where
  runID := r.runID
  sdkVersion := cfg.output.sdkVersion
  mode := cfg.mode
  brokerAddress := cfg.broker.address
  settleMode := cfg.amqp10.settleMode
  startedAt := r.runStartedAt
  endedAt := r.runEndedAt
  durationSeconds :=
    match r.runEndedAt, r.runStartedAt with
    | .some ended, .some started => seconds (ended - started)
    | _, _ => 0
  allWorkersEnabled := (summaryWorkers cfg snapshots).entries.length = allWorkerNames.length
  workers := summaryWorkers cfg snapshots
  resources := resourceStats r.baselineRSS r.peakRSS

/-- The reconciliation at the end of `RunReport`. -/
def reconcile (verdict : Verdict) : Option VerdictResult → Verdict
  | .none => verdict
  | .some ev =>
    if ev.passed = false then
      { verdict with passed := false, result := .failed, warnings := verdict.warnings ++ ev.warnings }
    else if ev.result = .passedWithWarnings ∧ verdict.result = .passed then
      { verdict with result := .passedWithWarnings, warnings := verdict.warnings ++ ev.warnings }
    else verdict

/-- `RunReport`: none before the snapshots are captured. -/
def runReport (startupCfg : Config) (range₁ range₂ : (m : Workers) → Range m) (r : Reads) :
    Option (Summary × Verdict) :=
  r.snapshots.map fun snapshots =>
    let cfg := r.runConfig.getD startupCfg
    let summary := summarize cfg snapshots r
    (summary, reconcile (generateVerdict range₁ range₂ summary cfg) r.verdict)

end Burnin
