/-
The body of a request to start a run (`RunConfig` in `burnin/api/models.go`),
and `ToInternalConfig`, which lays it over the configuration that the program
was started with.

The copies that `ToInternalConfig` makes go through JSON: the parsed durations
are left behind, and a text that is not UTF-8 is changed (`copyText`). A field
of a block that no modelled function reads is checked for its type and not kept.
-/
import Burnin.Durations
import Burnin.Lib.Json

namespace Burnin

open Json (copyText)

/-! ## The blocks -/

def Amqp10Config.zero : Amqp10Config where
  settleMode := ""
  credit := 0
  getBatchSize := 0
  rpcTimeoutMs := 0
  startPosition := ""

def WorkerConfig.zero : WorkerConfig where
  enabled := false
  channels := 0
  rate := 0

def WorkersConfig.zero : WorkersConfig where
  queues := .zero
  events := .zero
  eventsStore := .zero
  commands := .zero
  queries := .zero
  creditFlow := .zero

def RPCConfig.zero : RPCConfig where
  timeoutMs := 0

def MessageConfig.zero : MessageConfig where
  sizeMode := ""
  sizeBytes := 0
  reorderWindow := 0

def ThresholdsConfig.zero : ThresholdsConfig where
  maxLossPct := 0
  maxEventsLossPct := 0
  maxDuplicationPct := 0
  maxP50LatencyMS := 0
  maxP95LatencyMS := 0
  maxP99LatencyMS := 0
  maxP999LatencyMS := 0
  minThroughputPct := 0
  maxErrorRatePct := 0
  maxMemoryGrowthFactor := 0
  maxDowntimePct := 0
  maxAmqp10FidelityFailures := 0

def tlsFields : List (Json.Field Unit) :=
  [.bool "enabled" fun _ c => c, .string "ca_file" fun _ c => c, .string "cert_file" fun _ c => c,
    .string "key_file" fun _ c => c, .string "server_name" fun _ c => c,
      .bool "skip_verify" fun _ c => c]

def authFields : List (Json.Field AuthConfig) :=
  [.bool "enabled" fun b c => { c with enabled := b },
    .string "username" fun s c => { c with username := s }, .string "password" fun _ c => c]

def amqp10Fields : List (Json.Field Amqp10Config) :=
  [.string "settle_mode" fun s c => { c with settleMode := s },
    .int "credit" 32 fun n c => { c with credit := n }, .bool "drain" fun _ c => c,
      .int "get_batch_size" 64 fun n c => { c with getBatchSize := n },
    .int "rpc_timeout_ms" 64 fun n c => { c with rpcTimeoutMs := n }, .bool "durable" fun _ c => c,
    .string "start_position" fun s c => { c with startPosition := s }, .string "selector" fun _ c => c,
    .struct "tls" (fun _ => ()) (fun _ c => c) tlsFields,
    .struct "auth" (·.auth) (fun a c => { c with auth := a }) authFields]

def workerFields : List (Json.Field WorkerConfig) :=
  [.bool "enabled" fun b c => { c with enabled := b },
    .int "channels" 64 fun n c => { c with channels := n },
      .int "producers_per_channel" 64 fun n c => { c with producersPerChannel := n },
    .int "consumers_per_channel" 64 fun n c => { c with consumersPerChannel := n },
    .int "senders_per_channel" 64 fun n c => { c with sendersPerChannel := n },
    .int "responders_per_channel" 64 fun n c => { c with respondersPerChannel := n },
    .int "subscribers" 64 fun n c => { c with subscribers := n },
      .int "rate" 64 fun n c => { c with rate := n },
    .string "settle_mode" fun s c => { c with settleMode := s }]

def workersFields : List (Json.Field WorkersConfig) :=
  [.struct WorkerName.queues.text (·.queues) (fun w c => { c with queues := w }) workerFields,
    .struct WorkerName.events.text (·.events) (fun w c => { c with events := w }) workerFields,
    .struct WorkerName.eventsStore.text (·.eventsStore)
      (fun w c => { c with eventsStore := w }) workerFields,
    .struct WorkerName.commands.text (·.commands) (fun w c => { c with commands := w }) workerFields,
    .struct WorkerName.queries.text (·.queries) (fun w c => { c with queries := w }) workerFields,
    .struct WorkerName.creditFlow.text (·.creditFlow)
      (fun w c => { c with creditFlow := w }) workerFields]

def rpcFields : List (Json.Field RPCConfig) :=
  [.int "timeout_ms" 64 fun n c => { c with timeoutMs := n }]

def messageFields : List (Json.Field MessageConfig) :=
  [.string "size_mode" fun s c => { c with sizeMode := s }, .int "size_bytes" 64 fun n c =>
    { c with sizeBytes := n },
    .string "size_distribution" fun s c => { c with sizeDistribution := s },
    .int "reorder_window" 64 fun n c => { c with reorderWindow := n }]

def thresholdsFields : List (Json.Field ThresholdsConfig) :=
  [.float "max_loss_pct" fun q c => { c with maxLossPct := q },
    .float "max_events_loss_pct" fun q c => { c with maxEventsLossPct := q },
    .float "max_duplication_pct" fun q c => { c with maxDuplicationPct := q },
    .float "max_p50_latency_ms" fun q c => { c with maxP50LatencyMS := q },
    .float "max_p95_latency_ms" fun q c => { c with maxP95LatencyMS := q },
    .float "max_p99_latency_ms" fun q c => { c with maxP99LatencyMS := q },
    .float "max_p999_latency_ms" fun q c => { c with maxP999LatencyMS := q },
    .float "min_throughput_pct" fun q c => { c with minThroughputPct := q },
    .float "max_error_rate_pct" fun q c => { c with maxErrorRatePct := q },
    .float "max_memory_growth_factor" fun q c => { c with maxMemoryGrowthFactor := q },
    .float "max_downtime_pct" fun q c => { c with maxDowntimePct := q },
    .int "max_amqp10_fidelity_failures" 64 fun n c => { c with maxAmqp10FidelityFailures := n },
    .string "max_duration" fun s c => { c with maxDuration := s }]

def forcedDisconnFields : List (Json.Field ForcedDisconnConfig) :=
  [.string "interval" fun s c => { c with interval := s },
    .string "duration" fun s c => { c with duration := s }]

structure RunConfig where
  duration : String := ""
  mode : String := ""
  amqp10 : Option Amqp10Config := .none
  workers : Option WorkersConfig := .none
  rpc : Option RPCConfig := .none
  message : Option MessageConfig := .none
  thresholds : Option ThresholdsConfig := .none
  forcedDisconnect : Option ForcedDisconnConfig := .none
  deriving DecidableEq

def runConfigFields : List (Json.Field RunConfig) :=
  [.string "duration" fun s c => { c with duration := s },
    .string "mode" fun s c => { c with mode := s },
      .pointer "amqp10" (·.amqp10) (fun b c => { c with amqp10 := b }) .zero amqp10Fields,
    .pointer "workers" (·.workers) (fun b c => { c with workers := b }) .zero workersFields,
    .pointer "rpc" (·.rpc) (fun b c => { c with rpc := b }) .zero rpcFields,
    .pointer "message" (·.message) (fun b c => { c with message := b }) .zero messageFields,
    .pointer "thresholds" (·.thresholds) (fun b c => { c with thresholds := b }) .zero thresholdsFields,
    .pointer "forced_disconnect" (·.forcedDisconnect) (fun b c => { c with forcedDisconnect := b }) {}
      forcedDisconnFields]

/-! ## Copies -/

def Amqp10Config.copy (c : Amqp10Config) : Amqp10Config :=
  { c with
    settleMode := copyText c.settleMode
    startPosition := copyText c.startPosition
    auth := { c.auth with username := copyText c.auth.username } }

def WorkerConfig.copy (c : WorkerConfig) : WorkerConfig := { c with settleMode := copyText c.settleMode }

def WorkersConfig.copy (c : WorkersConfig) : WorkersConfig where
  queues := c.queues.copy
  events := c.events.copy
  eventsStore := c.eventsStore.copy
  commands := c.commands.copy
  queries := c.queries.copy
  creditFlow := c.creditFlow.copy

def MessageConfig.copy (c : MessageConfig) : MessageConfig :=
  { c with sizeMode := copyText c.sizeMode, sizeDistribution := copyText c.sizeDistribution }

def ThresholdsConfig.copy (c : ThresholdsConfig) : ThresholdsConfig :=
  { c with maxDuration := copyText c.maxDuration }

def ForcedDisconnConfig.copy (c : ForcedDisconnConfig) : ForcedDisconnConfig where
  interval := copyText c.interval
  duration := copyText c.duration

/-- A configuration through `json.Marshal` and `json.Unmarshal`. -/
def Config.copy (c : Config) : Config where
  version := copyText c.version
  broker := { address := copyText c.broker.address }
  mode := copyText c.mode
  duration := copyText c.duration
  runID := copyText c.runID
  warmupDuration := copyText c.warmupDuration
  amqp10 := c.amqp10.copy
  workers := c.workers.copy
  rpc := c.rpc
  message := c.message.copy
  metrics := { c.metrics with reportInterval := copyText c.metrics.reportInterval }
  forcedDisconnect := c.forcedDisconnect.copy
  recovery :=
    { c.recovery with
      reconnectInterval := copyText c.recovery.reconnectInterval
      reconnectMaxInterval := copyText c.recovery.reconnectMaxInterval }
  shutdown := c.shutdown
  output := { sdkVersion := copyText c.output.sdkVersion }
  thresholds := c.thresholds.copy

/-! ## The overlay -/

namespace RunConfig

/-- The request over a copy of `base`: a text that is not empty and a block that
is there replace those of the copy. -/
def overlay (rc : RunConfig) (base : Config) : Config :=
  let cfg := base.copy
  { cfg with
    duration := if rc.duration = "" then cfg.duration else copyText rc.duration
    mode := if rc.mode = "" then cfg.mode else copyText rc.mode
    amqp10 := (rc.amqp10.map (·.copy)).getD cfg.amqp10
    workers := (rc.workers.map (·.copy)).getD cfg.workers
    rpc := rc.rpc.getD cfg.rpc
    message := (rc.message.map (·.copy)).getD cfg.message
    thresholds := (rc.thresholds.map (·.copy)).getD cfg.thresholds
    forcedDisconnect := (rc.forcedDisconnect.map (·.copy)).getD cfg.forcedDisconnect }

/-- `ToInternalConfig`. `randomID` is what `RandomRunID` returns. -/
def toInternalConfig (rc : RunConfig) (base : Config) (randomID : String) : Except Failure Config :=
  match parseDurations (rc.overlay base) with
  | .error err => .error (.wrap ⟨"parse durations: %w", []⟩ err)
  | .ok cfg =>
    let cfg := { cfg with runID := if cfg.runID = "" then randomID else cfg.runID }
    match cfg.validate.find? fun e => e.isWarning = false with
    | .some e => .error (.wrap ⟨"config validation: %v", []⟩ (.text e))
    | .none => .ok cfg

end RunConfig

/-- `Validate` looks at no parsed duration. -/
theorem validate_of_parseDurations {c c' : Config} (h : parseDurations c = .ok c') :
    c'.validate = c.validate := by
  have hsame := congrArg Config.validate (parseDurations_ok h).2
  exact hsame.trans rfl

/-- **What `ToInternalConfig` lets pass**: an overlay that `Validate` accepts
and whose durations can be parsed. -/
theorem RunConfig.toInternalConfig_ok {rc : RunConfig} {base : Config} {randomID : String} :
    (∃ cfg, rc.toInternalConfig base randomID = .ok cfg) ↔
      (rc.overlay base).Accepted ∧ ∃ c, parseDurations (rc.overlay base) = .ok c := by
  rw [toInternalConfig]
  cases hp : parseDurations (rc.overlay base) with
  | error err => simp
  | ok c =>
    have hvalidate : ({ c with runID := if c.runID = "" then randomID else c.runID } : Config).validate =
        (rc.overlay base).validate := by
      rw [← validate_of_parseDurations hp]
      rfl
    simp only [hvalidate]
    cases hf : (rc.overlay base).validate.find? fun e => e.isWarning = false with
    | none =>
      have haccepted : (rc.overlay base).Accepted := by
        intro e he
        have hne := List.find?_eq_none.mp hf e he
        simpa using hne
      simp [haccepted]
    | some e =>
      have hnot : ¬ (rc.overlay base).Accepted := by
        intro ha
        have hw : e.isWarning = false := by simpa using List.find?_some hf
        rw [ha e (List.mem_of_find?_eq_some hf)] at hw
        cases hw
      simp [hnot]

end Burnin
