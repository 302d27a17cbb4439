/-
The engine's run lifecycle (`burnin/engine/engine.go`) as a machine whose steps
are the sections that the engine's mutex protects: those of
`StartRunFromConfig`, `StopRun`, `setError` and `runLoop`, the deferred one
included, and the close of `runDone` after it.

A run is a goroutine of `runLoop` with a program counter (`Pc`). Every accepted
start adds one, with the `runDone` channel of the same number, so runs and
channels are numbered alike; a channel is the number of times it was closed.
What a step finds outside the engine (a consumer that does not start, the
clock, the memory, the workers' counters) comes with it (`Event`).
-/
import Burnin.Report

namespace Burnin

/-- The engine states. -/
inductive State where
  | idle | starting | running | stopping | stopped | error
  deriving DecidableEq, Repr

def State.text : State → String
  | idle => "idle"
  | starting => "starting"
  | running => "running"
  | stopping => "stopping"
  | stopped => "stopped"
  | error => "error"

/-- Where a `runLoop` is: before the section of the same name. -/
inductive Pc where
  /-- before it builds the worker groups -/
  | build
  /-- starting the consumers and waiting for them to be ready -/
  | consumers
  | warmup
  /-- before it notes the time at which the producers start -/
  | startProducers
  /-- before `e.state = StateRunning` -/
  | markRunning
  /-- waiting for the duration or a cancellation, then `e.state = StateStopping` -/
  | measure
  /-- before it notes the time at which the producers stop -/
  | stopProducers
  /-- before `captureWorkerSnapshots` -/
  | capture
  /-- before the last look at the memory in `shutdownWorkers` -/
  | lastSample
  /-- before the end of `computeVerdict` -/
  | verdict
  /-- before `logFinalSummary` -/
  | summary
  /-- before its deferred section -/
  | deferred
  /-- before the close of the channel that the deferred section read -/
  | closing (done : Option Nat)
  | finished
  deriving DecidableEq, Repr

/-- A goroutine of `runLoop` and its context. -/
structure Run where
  cfg : Config
  cancelled : Bool := false
  pc : Pc := .build

structure Engine where
  state : State := .idle
  runCfg : Option Config := .none
  runID : String := ""
  runStartedAt : Time := .none
  runEndedAt : Time := .none
  producersStartedAt : Time := .none
  producersStoppedAt : Time := .none
  runError : Option Message := .none
  /-- the run whose context `runCancel` cancels -/
  runCancel : Option Nat := .none
  /-- the channel `runDone` -/
  runDone : Option Nat := .none
  workerGroups : Option (List WorkerName) := .none
  workerSnapshots : Option Snapshots := .none
  baselineRSS : UInt64 := 0
  peakRSS : UInt64 := 0
  verdictResult : Option VerdictResult := .none
  /-- every `runLoop` started so far -/
  runs : List Run := []
  /-- how often each `runDone` channel made so far was closed -/
  closes : List Nat := []

/-- What a step of a `runLoop` finds outside the engine. -/
inductive Event where
  | next
  /-- the consumers did not start, or were not ready in time -/
  | consumersFailed (msg : Message)
  | durationReached
  /-- the memory tracker read `m.Sys`, at or after its deadline for the baseline -/
  | sampled (sys : UInt64) (baseline : Bool)
  /-- the workers' counters, as `captureWorkerSnapshots` adds them up -/
  | captured (snapshots : Snapshots)
  /-- the order in which `computeVerdict` visits the snapshots -/
  | ranged (order : (m : Snapshots) → Range m)

namespace Engine

/-- `t.Sub(u)`; both times are set when `computeVerdict` subtracts them. -/
def timeSub : Time → Time → Int
  | .some t, .some u => t - u
  | _, _ => 0

/-- The states from which a run may be started. -/
def canStart (e : Engine) : Bool := e.state == .idle || e.state == .stopped || e.state == .error

/-- `StartRunFromConfig`. `randomID` is what `RandomRunID` returns. -/
def startRunFromConfig (e : Engine) (cfg : Config) (randomID : String) (now : Int) :
    Except Message Engine :=
  if e.canStart then
    .ok
      { e with
        state := .starting
        runCfg := .some cfg
        runID := if cfg.runID = "" then randomID else cfg.runID
        runStartedAt := .some now
        runEndedAt := .none
        runError := .none
        verdictResult := .none
        workerSnapshots := .none
        baselineRSS := 0
        peakRSS := 0
        runCancel := .some e.runs.length
        runDone := .some e.closes.length
        runs := e.runs ++ [{ cfg }]
        closes := e.closes ++ [0] }
  else .error ⟨"cannot start run: engine in state %s", [.str e.state.text]⟩

/-- The function `cancel` of a run's context. -/
def cancel (e : Engine) (i : Nat) : Engine :=
  { e with runs := e.runs.modify i fun r => { r with cancelled := true } }

/-- `StopRun`. -/
def stopRun (e : Engine) : Except Message Engine :=
  if e.state = .starting ∨ e.state = .running then
    .ok (match e.runCancel with
      | .some i => e.cancel i
      | .none => e)
  else .error ⟨"cannot stop run: engine in state %s", [.str e.state.text]⟩

/-- `setError`. -/
def setError (e : Engine) (msg : Message) : Engine := { e with state := .error, runError := .some msg }

/-- The run `i` goes on to `pc`. -/
def goto (e : Engine) (i : Nat) (pc : Pc) : Engine :=
  { e with runs := e.runs.modify i fun r => { r with pc } }

/-- One round of `memoryTracker`. -/
def sample (e : Engine) (sys : UInt64) (baseline : Bool) : Engine :=
  { e with
    peakRSS := if sys > e.peakRSS then sys else e.peakRSS
    baselineRSS := if baseline then sys else e.baselineRSS }

/-- The deferred section of `runLoop`; the channel it reads is for the close. -/
def deferredSection (e : Engine) (now : Int) : Engine × Option Nat :=
  ({ e with state := if e.state ≠ .error then .stopped else e.state, runEndedAt := .some now },
    e.runDone)

/-- `if done != nil { close(done) }`. -/
def closeDone (e : Engine) : Option Nat → Engine
  | .some c => { e with closes := e.closes.modify c (· + 1) }
  | .none => e

/-- The end of `computeVerdict`. -/
def storeVerdict (e : Engine) (cfg : Config) (order : (m : Snapshots) → Range m) : Engine :=
  { e with
    verdictResult := .some (computeVerdict cfg (timeSub e.producersStoppedAt e.producersStartedAt)
      e.baselineRSS e.peakRSS (order (e.workerSnapshots.getD ∅)).entries) }

/-- The next section of the run `i`, whose goroutine is `r`; none when the event
is not one it waits for. -/
def runLoop (e : Engine) (i : Nat) (r : Run) (now : Int) : Pc → Event → Option Engine
  | .build, .next => .some ({ e with workerGroups := .some r.cfg.enabledWorkers }.goto i .consumers)
  | .consumers, .consumersFailed msg => .some ((e.setError msg).goto i .deferred)
  | .consumers, .next => .some (e.goto i (if r.cancelled then .deferred else .warmup))
  | .warmup, .next => .some (e.goto i (if r.cancelled then .deferred else .startProducers))
  | .startProducers, .next => .some ({ e with producersStartedAt := .some now }.goto i .markRunning)
  | .markRunning, .next => .some ({ e with state := .running }.goto i .measure)
  | .measure, .sampled sys baseline => .some (e.sample sys baseline)
  | .measure, .next =>
    if r.cancelled then .some ({ e with state := .stopping }.goto i .stopProducers) else .none
  | .measure, .durationReached =>
    if r.cfg.durationParsed > 0 then
      .some ({ e with state := .stopping }.goto i .stopProducers)
    else .none
  | .stopProducers, .next => .some ({ e with producersStoppedAt := .some now }.goto i .capture)
  | .capture, .captured snapshots =>
    .some ({ e with workerSnapshots := .some snapshots }.goto i .lastSample)
  | .lastSample, .sampled sys _ => .some ((e.sample sys false).goto i .verdict)
  | .verdict, .ranged order => .some ((e.storeVerdict r.cfg order).goto i .summary)
  | .summary, .next => .some (e.goto i .deferred)
  | .deferred, .next =>
    let (e, done) := e.deferredSection now
    .some (e.goto i (.closing done))
  | .closing done, .next => .some ((e.closeDone done).goto i .finished)
  | _, _ => .none

end Engine

/-- A step of the machine: a request, or the next section of a run. -/
inductive Act where
  | start (cfg : Config) (randomID : String) (now : Int)
  | stop
  | run (i : Nat) (event : Event) (now : Int)

namespace Engine

/-- One step. A refused request and a run that waits for another event leave
the engine as it is. -/
def step (e : Engine) : Act → Engine
  | .start cfg randomID now =>
    match e.startRunFromConfig cfg randomID now with
    | .ok e' => e'
    | .error _ => e
  | .stop =>
    match e.stopRun with
    | .ok e' => e'
    | .error _ => e
  | .run i event now =>
    match e.runs[i]? with
    | .some r => (e.runLoop i r now r.pc event).getD e
    | .none => e

/-- The engine after a run of the machine, from `New`. -/
def after (acts : List Act) : Engine := acts.foldl step {}

end Engine

end Burnin
