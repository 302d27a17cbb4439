/-
The burn-in configuration (`burnin/config/config.go`): the six workers, the
fields that the modelled functions read, the built-in defaults and `Validate`.

A `float64` of the configuration is a rational: the thresholds are compared
with percentages and ratios, which are taken exactly. A formatted text is kept
as what it is formatted from, its format and its arguments (`Message`).
-/
import Mathlib.Algebra.Order.Ring.Rat
import Mathlib.Data.List.AList

namespace Burnin

inductive WorkerName where
  | queues | events | eventsStore | commands | queries | creditFlow
  deriving DecidableEq, Repr

namespace WorkerName

/-- The names as the configuration and the reports spell them. -/
def text : WorkerName → String
  | queues => "queues"
  | events => "events"
  | eventsStore => "events_store"
  | commands => "commands"
  | queries => "queries"
  | creditFlow => "credit_flow"

/-- `IsRPCWorker`. -/
def isRPCWorker (name : WorkerName) : Bool := name == commands || name == queries

end WorkerName

/-- `AllWorkerNames`. -/
def allWorkerNames : List WorkerName :=
  [.queues, .events, .eventsStore, .commands, .queries, .creditFlow]

theorem mem_allWorkerNames (name : WorkerName) : name ∈ allWorkerNames := by
  cases name <;> decide

/-- An argument of a formatted text. -/
inductive Arg where
  | str (s : String)
  | int (n : Int)
  | float (q : ℚ)
  deriving DecidableEq

/-- `fmt.Errorf(format, args...)` and `fmt.Sprintf(format, args...)`. -/
structure Message where
  format : String
  args : List Arg := []
  deriving DecidableEq

/-- `strings.HasPrefix(e.Error(), "WARNING:")`. No format below starts with a
verb whose argument could start so: the only ones that start with a verb start
with a worker's name. -/
def Message.isWarning (m : Message) : Bool := "WARNING:".toList.isPrefixOf m.format.toList

/-- `if bad { errs = append(errs, fmt.Errorf(format, args...)) }`. -/
def check (bad : Prop) [Decidable bad] (format : String) (args : List Arg := []) : List Message :=
  if bad then [⟨format, args⟩] else []

structure BrokerConfig where
  address : String
  deriving DecidableEq

structure AuthConfig where
  enabled : Bool := false
  username : String := ""
  deriving DecidableEq

structure Amqp10Config where
  settleMode : String
  credit : Int
  getBatchSize : Int
  rpcTimeoutMs : Int
  startPosition : String
  auth : AuthConfig := {}
  deriving DecidableEq

structure WorkerConfig where
  enabled : Bool
  channels : Int
  producersPerChannel : Int := 0
  consumersPerChannel : Int := 0
  sendersPerChannel : Int := 0
  respondersPerChannel : Int := 0
  subscribers : Int := 0
  rate : Int
  settleMode : String := ""
  deriving DecidableEq

structure WorkersConfig where
  queues : WorkerConfig
  events : WorkerConfig
  eventsStore : WorkerConfig
  commands : WorkerConfig
  queries : WorkerConfig
  creditFlow : WorkerConfig
  deriving DecidableEq

structure RPCConfig where
  timeoutMs : Int
  deriving DecidableEq

structure MessageConfig where
  sizeMode : String
  sizeBytes : Int
  sizeDistribution : String := ""
  reorderWindow : Int
  deriving DecidableEq

structure MetricsConfig where
  port : Int
  reportInterval : String := ""
  deriving DecidableEq

structure ForcedDisconnConfig where
  interval : String := ""
  duration : String := ""
  deriving DecidableEq

structure RecoveryConfig where
  reconnectInterval : String := ""
  reconnectMaxInterval : String := ""
  reconnectMultiplier : ℚ
  deriving DecidableEq

structure ShutdownConfig where
  drainTimeoutSeconds : Int
  deriving DecidableEq

structure OutputConfig where
  sdkVersion : String := ""
  deriving DecidableEq

structure ThresholdsConfig where
  maxLossPct : ℚ
  maxEventsLossPct : ℚ
  maxDuplicationPct : ℚ
  maxP50LatencyMS : ℚ
  maxP95LatencyMS : ℚ
  maxP99LatencyMS : ℚ
  maxP999LatencyMS : ℚ
  minThroughputPct : ℚ
  maxErrorRatePct : ℚ
  maxMemoryGrowthFactor : ℚ
  maxDowntimePct : ℚ
  maxAmqp10FidelityFailures : Int
  maxDuration : String := ""
  deriving DecidableEq

/-- The fields of the configuration, and the durations that `parseDurations`
finds in some of them, in nanoseconds. -/
structure Config where
  version : String
  broker : BrokerConfig
  mode : String
  duration : String := ""
  runID : String := ""
  warmupDuration : String := ""
  amqp10 : Amqp10Config
  workers : WorkersConfig
  rpc : RPCConfig
  message : MessageConfig
  metrics : MetricsConfig
  forcedDisconnect : ForcedDisconnConfig := {}
  recovery : RecoveryConfig
  shutdown : ShutdownConfig
  output : OutputConfig := {}
  thresholds : ThresholdsConfig
  durationParsed : Int := 0
  warmupDurationParsed : Int := 0
  reportIntervalParsed : Int := 0
  forcedDisconnInterval : Int := 0
  forcedDisconnDuration : Int := 0
  reconnectInterval : Int := 0
  reconnectMaxInterval : Int := 0
  maxDurationParsed : Int := 0
  deriving DecidableEq

/-- `ConfigVersion`. -/
def configVersion : String := "2"

/-- `DefaultConfig`, with its durations parsed as `Load` parses them. -/
def defaultConfig : Config where
  version := configVersion
  broker := { address := "localhost:5672" }
  mode := "soak"
  duration := "1h"
  amqp10 :=
    { settleMode := "unsettled", credit := 100, getBatchSize := 32, rpcTimeoutMs := 5000
      startPosition := "new-only" }
  workers :=
    { queues := { enabled := true, channels := 1, producersPerChannel := 1,
                  consumersPerChannel := 2, rate := 100 }
      events := { enabled := true, channels := 1, producersPerChannel := 1,
                  subscribers := 2, rate := 50 }
      eventsStore := { enabled := true, channels := 1, producersPerChannel := 1,
                       consumersPerChannel := 1, rate := 50 }
      commands := { enabled := true, channels := 1, sendersPerChannel := 1,
                    respondersPerChannel := 1, rate := 30 }
      queries := { enabled := true, channels := 1, sendersPerChannel := 1,
                   respondersPerChannel := 1, rate := 30 }
      creditFlow := { enabled := true, channels := 1, producersPerChannel := 1,
                      consumersPerChannel := 1, rate := 50 } }
  rpc := { timeoutMs := 5000 }
  message :=
    { sizeMode := "fixed", sizeBytes := 1024, sizeDistribution := "256:80,4096:15,65536:5",
      reorderWindow := 10000 }
  metrics := { port := 8896, reportInterval := "30s" }
  forcedDisconnect := { interval := "0", duration := "5s" }
  recovery := { reconnectInterval := "1s", reconnectMaxInterval := "30s", reconnectMultiplier := 2 }
  shutdown := { drainTimeoutSeconds := 10 }
  thresholds :=
    { maxLossPct := 0
      maxEventsLossPct := 5
      maxDuplicationPct := 1 / 10
      maxP50LatencyMS := 500
      maxP95LatencyMS := 1500
      maxP99LatencyMS := 2000
      maxP999LatencyMS := 10000
      minThroughputPct := 80
      maxErrorRatePct := 1
      maxMemoryGrowthFactor := 2
      maxDowntimePct := 10
      maxAmqp10FidelityFailures := 0
      maxDuration := "168h" }
  durationParsed := 3600 * 10 ^ 9
  reportIntervalParsed := 30 * 10 ^ 9
  forcedDisconnDuration := 5 * 10 ^ 9
  reconnectInterval := 10 ^ 9
  reconnectMaxInterval := 30 * 10 ^ 9
  maxDurationParsed := 168 * 3600 * 10 ^ 9

namespace Config

/-- `GetWorkerConfig`. -/
def getWorkerConfig (c : Config) : WorkerName → WorkerConfig
  | .queues => c.workers.queues
  | .events => c.workers.events
  | .eventsStore => c.workers.eventsStore
  | .commands => c.workers.commands
  | .queries => c.workers.queries
  | .creditFlow => c.workers.creditFlow

/-- `GetWorkerRate`. -/
def getWorkerRate (c : Config) (name : WorkerName) : Int := (c.getWorkerConfig name).rate

/-- `validSettle`. -/
def validSettle (s : String) : Bool := s == "" || s == "unsettled" || s == "settled"

/-- `validStartPosition`. -/
def validStartPosition (s : String) : Bool :=
  s == "" || s == "new-only" || s == "first" || s == "last" ||
    ["sequence:", "time:", "time-delta:"].any fun start =>
      start.toList.isPrefixOf s.toList && start.length < s.length

/-- What `Validate` checks of an enabled worker. -/
def validateWorker (c : Config) (name : WorkerName) : List Message :=
  let wc := c.getWorkerConfig name
  check (wc.channels < 1 ∨ wc.channels > 1000) "%s.channels: must be 1-1000, got %d"
      [.str name.text, .int wc.channels] ++
    check (wc.rate ≤ 0) "%s.rate: must be > 0, got %d" [.str name.text, .int wc.rate] ++
    check (wc.settleMode ≠ "" ∧ validSettle wc.settleMode = false) "%s.settle_mode invalid: %q"
      [.str name.text, .str wc.settleMode] ++
    if name.isRPCWorker then
      check (wc.sendersPerChannel < 1) "%s.senders_per_channel: must be >= 1, got %d"
          [.str name.text, .int wc.sendersPerChannel] ++
        check (wc.respondersPerChannel < 1) "%s.responders_per_channel: must be >= 1, got %d"
          [.str name.text, .int wc.respondersPerChannel]
    else
      check (wc.producersPerChannel < 1) "%s.producers_per_channel: must be >= 1, got %d"
          [.str name.text, .int wc.producersPerChannel] ++
        if name = .events then
          check (wc.subscribers < 1) "%s.subscribers: must be >= 1, got %d"
            [.str name.text, .int wc.subscribers]
        else
          check (wc.consumersPerChannel < 1) "%s.consumers_per_channel: must be >= 1, got %d"
            [.str name.text, .int wc.consumersPerChannel]

/-- What an enabled worker adds to `totalWorkers`. -/
def workerCount (c : Config) (name : WorkerName) : Int :=
  let wc := c.getWorkerConfig name
  if name.isRPCWorker then wc.channels * (wc.sendersPerChannel + wc.respondersPerChannel)
  else wc.channels * (wc.producersPerChannel + if name = .events then wc.subscribers
    else wc.consumersPerChannel)

/-- The workers the run builds, in the order of `AllWorkerNames`. -/
def enabledWorkers (c : Config) : List WorkerName :=
  allWorkerNames.filter fun name => (c.getWorkerConfig name).enabled

/-- `totalWorkers`, an `int` that wraps. -/
def totalWorkers (c : Config) : Int := Int.bmod (c.enabledWorkers.map c.workerCount).sum (2 ^ 64)

/-- One round of the loop over the latency thresholds. -/
def validateLatency (label : String) (v : ℚ) : List Message :=
  check (v ≤ 0) "thresholds.%s: must be > 0" [.str label]

/-- What `Validate` checks of the connection, the message and the timeouts. -/
def validateAmqp10 (c : Config) : List Message :=
  check (c.version ≠ configVersion) "version must be %q, got %q" [.str configVersion, .str c.version] ++
    check (c.broker.address = "") "broker.address is required" ++
    check (validSettle c.amqp10.settleMode = false)
      "amqp10.settle_mode must be one of \"\"|unsettled|settled, got %q" [.str c.amqp10.settleMode] ++
    check (c.amqp10.credit < 1 ∨ c.amqp10.credit > 1024)
      "amqp10.credit must be 1-1024 (MaxUnsettledPerLink), got %d" [.int c.amqp10.credit] ++
    check (c.amqp10.getBatchSize < 1) "amqp10.get_batch_size must be >= 1, got %d"
      [.int c.amqp10.getBatchSize] ++
    check (c.amqp10.rpcTimeoutMs ≤ 0) "amqp10.rpc_timeout_ms must be > 0, got %d"
      [.int c.amqp10.rpcTimeoutMs] ++
    check (validStartPosition c.amqp10.startPosition = false)
      "amqp10.start_position invalid: %q (new-only|first|last|sequence:N|time:T|time-delta:S)"
      [.str c.amqp10.startPosition] ++
    check (c.amqp10.auth.enabled = true ∧ c.amqp10.auth.username = "")
      "amqp10.auth.username is required when auth.enabled"

def validateMessage (c : Config) : List Message :=
  check (c.message.sizeMode ≠ "fixed" ∧ c.message.sizeMode ≠ "distribution")
      "message.size_mode must be 'fixed' or 'distribution', got %q" [.str c.message.sizeMode] ++
    check (c.message.sizeMode = "fixed" ∧ c.message.sizeBytes < 64)
      "message.size_bytes: must be >= 64, got %d" [.int c.message.sizeBytes] ++
    check (c.message.reorderWindow < 100)
      "message.reorder_window: must be >= 100, got %d" [.int c.message.reorderWindow] ++
    check (c.rpc.timeoutMs ≤ 0) "rpc.timeout_ms: must be > 0, got %d" [.int c.rpc.timeoutMs] ++
    check (c.shutdown.drainTimeoutSeconds ≤ 0)
      "shutdown.drain_timeout_seconds: must be > 0, got %d" [.int c.shutdown.drainTimeoutSeconds] ++
    check (c.metrics.port < 1 ∨ c.metrics.port > 65535)
      "metrics.port: must be 1-65535, got %d" [.int c.metrics.port]

/-- What `Validate` checks of the thresholds. The four latencies are the values
of a map and are visited in any order; they are in the literal's here. -/
def validateThresholds (c : Config) : List Message :=
  check (c.thresholds.maxLossPct < 0 ∨ c.thresholds.maxLossPct > 100)
      "thresholds.max_loss_pct: must be 0-100" ++
    check (c.thresholds.maxEventsLossPct < 0 ∨ c.thresholds.maxEventsLossPct > 100)
      "thresholds.max_events_loss_pct: must be 0-100" ++
    check (c.thresholds.maxDuplicationPct < 0 ∨ c.thresholds.maxDuplicationPct > 100)
      "thresholds.max_duplication_pct: must be 0-100" ++
    validateLatency "max_p50_latency_ms" c.thresholds.maxP50LatencyMS ++
    validateLatency "max_p95_latency_ms" c.thresholds.maxP95LatencyMS ++
    validateLatency "max_p99_latency_ms" c.thresholds.maxP99LatencyMS ++
    validateLatency "max_p999_latency_ms" c.thresholds.maxP999LatencyMS ++
    check (c.thresholds.minThroughputPct ≤ 0 ∨ c.thresholds.minThroughputPct > 100)
      "thresholds.min_throughput_pct: must be > 0 and <= 100" ++
    check (c.thresholds.maxErrorRatePct < 0 ∨ c.thresholds.maxErrorRatePct > 100)
      "thresholds.max_error_rate_pct: must be 0-100" ++
    check (c.thresholds.maxMemoryGrowthFactor < 1)
      "thresholds.max_memory_growth_factor: must be >= 1.0" ++
    check (c.thresholds.maxDowntimePct < 0 ∨ c.thresholds.maxDowntimePct > 100)
      "thresholds.max_downtime_pct: must be 0-100" ++
    check (c.thresholds.maxAmqp10FidelityFailures < 0)
      "thresholds.max_amqp10_fidelity_failures: must be >= 0" ++
    check (c.recovery.reconnectMultiplier < 1)
      "recovery.reconnect_multiplier: must be >= 1.0, got %f" [.float c.recovery.reconnectMultiplier]

/-- `Validate`. -/
def validate (c : Config) : List Message :=
  c.validateAmqp10 ++
    c.enabledWorkers.flatMap c.validateWorker ++
    check (c.enabledWorkers.length = 0) "at least one worker must be enabled" ++
    c.validateMessage ++
    c.validateThresholds ++
    check (c.totalWorkers > 1000) "WARNING: high worker count: %d -- may impact system resources"
      [.int c.totalWorkers]

/-- `main` exits on the first error of `Validate` that is not a warning. -/
def Accepted (c : Config) : Prop := ∀ e ∈ c.validate, e.isWarning = true

instance (c : Config) : Decidable c.Accepted := inferInstanceAs (Decidable (∀ e ∈ c.validate, _))

/-! ## What an accepted configuration satisfies -/

theorem check_accepted {bad : Prop} [Decidable bad] {format : String} {args : List Arg}
    (hf : (Message.mk format []).isWarning = false) :
    (∀ e ∈ check bad format args, e.isWarning = true) ↔ ¬ bad := by
  have hf : (Message.mk format args).isWarning = false := hf
  by_cases hb : bad
  · simp [check, hb, hf]
  · simp [check, hb]

end Config

/-- The ranges that `Validate` holds the thresholds to. -/
structure ThresholdsConfig.InRange (t : ThresholdsConfig) : Prop where
  maxLossPct : 0 ≤ t.maxLossPct ∧ t.maxLossPct ≤ 100
  maxEventsLossPct : 0 ≤ t.maxEventsLossPct ∧ t.maxEventsLossPct ≤ 100
  maxDuplicationPct : 0 ≤ t.maxDuplicationPct ∧ t.maxDuplicationPct ≤ 100
  maxP50LatencyMS : 0 < t.maxP50LatencyMS
  maxP95LatencyMS : 0 < t.maxP95LatencyMS
  maxP99LatencyMS : 0 < t.maxP99LatencyMS
  maxP999LatencyMS : 0 < t.maxP999LatencyMS
  minThroughputPct : 0 < t.minThroughputPct ∧ t.minThroughputPct ≤ 100
  maxErrorRatePct : 0 ≤ t.maxErrorRatePct ∧ t.maxErrorRatePct ≤ 100
  maxMemoryGrowthFactor : 1 ≤ t.maxMemoryGrowthFactor
  maxDowntimePct : 0 ≤ t.maxDowntimePct ∧ t.maxDowntimePct ≤ 100
  maxAmqp10FidelityFailures : 0 ≤ t.maxAmqp10FidelityFailures

/-- What `Validate` holds an enabled worker to. -/
structure WorkerConfig.InRange (wc : WorkerConfig) (name : WorkerName) : Prop where
  channels : 1 ≤ wc.channels ∧ wc.channels ≤ 1000
  rate : 0 < wc.rate
  senders : name.isRPCWorker = true → 1 ≤ wc.sendersPerChannel
  responders : name.isRPCWorker = true → 1 ≤ wc.respondersPerChannel
  producers : name.isRPCWorker = false → 1 ≤ wc.producersPerChannel
  subscribers : name = .events → 1 ≤ wc.subscribers
  consumers : name.isRPCWorker = false → name ≠ .events → 1 ≤ wc.consumersPerChannel

namespace Config

theorem Accepted.inRange {c : Config} (h : c.Accepted) : c.thresholds.InRange := by
  have ht : ∀ e ∈ c.validateThresholds, e.isWarning = true := fun e he =>
    h e (by simp only [validate, List.mem_append]; exact .inl (.inr he))
  simp (disch := decide +kernel) only [validateThresholds, validateLatency, List.forall_mem_append,
    check_accepted, not_or, not_lt, not_le, gt_iff_lt] at ht
  obtain ⟨⟨⟨⟨⟨⟨⟨⟨⟨⟨⟨⟨h1, h2⟩, h3⟩, h4⟩, h5⟩, h6⟩, h7⟩, h8⟩, h9⟩, h10⟩, h11⟩, h12⟩, -⟩ := ht
  exact ⟨h1, h2, h3, h4, h5, h6, h7, h8, h9, h10, h11, h12⟩

theorem Accepted.worker {c : Config} (h : c.Accepted) {name : WorkerName}
    (he : (c.getWorkerConfig name).enabled = true) : (c.getWorkerConfig name).InRange name := by
  have hmem : name ∈ c.enabledWorkers := List.mem_filter.mpr ⟨mem_allWorkerNames name, he⟩
  have hw : ∀ e ∈ c.validateWorker name, e.isWarning = true := fun e hm =>
    h e (by
      simp only [validate, List.mem_append]
      exact .inl (.inl (.inl (.inl (.inr (List.mem_flatMap.mpr ⟨name, hmem, hm⟩))))))
  simp (disch := decide +kernel) only [validateWorker, List.forall_mem_append, check_accepted,
    not_or, not_lt, not_le, gt_iff_lt] at hw
  obtain ⟨⟨⟨hchannels, hrate⟩, -⟩, hrest⟩ := hw
  by_cases hrpc : name.isRPCWorker = true
  · have hne : name ≠ .events := by rintro rfl; cases hrpc
    simp (disch := decide +kernel) only [hrpc, if_true, List.forall_mem_append, check_accepted,
      not_lt] at hrest
    exact ⟨hchannels, hrate, fun _ => hrest.1, fun _ => hrest.2, by simp [hrpc], by simp [hne],
      by simp [hrpc]⟩
  · simp (disch := decide +kernel) only [hrpc, if_false, List.forall_mem_append, check_accepted, not_lt,
      Bool.false_eq_true] at hrest
    obtain ⟨hproducers, hrest⟩ := hrest
    by_cases hev : name = .events
    · simp (disch := decide +kernel) only [hev, if_true, check_accepted, not_lt] at hrest
      subst hev
      exact ⟨hchannels, hrate, by simp [hrpc], by simp [hrpc], fun _ => hproducers,
        fun _ => hrest, by simp⟩
    · simp (disch := decide +kernel) only [hev, if_false, check_accepted, not_lt] at hrest
      exact ⟨hchannels, hrate, by simp [hrpc], by simp [hrpc], fun _ => hproducers, by simp [hev],
        fun _ _ => hrest⟩

/-- The defaults pass their own checks. -/
theorem defaultConfig_accepted : defaultConfig.Accepted := by decide +kernel

end Config

/-- A configuration that `main` starts with. -/
structure AcceptedConfig where
  cfg : Config
  accepted : cfg.Accepted

end Burnin
