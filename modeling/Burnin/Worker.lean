/-
The workers with a producer loop (`burnin/worker`: queues, events,
events_store and credit_flow) and the snapshot that the engine takes of them
(`captureWorkerSnapshots`).

A worker is a state and what happens to it is a list of events: an attempt of
its producer, a delivery to one of its consumers, a failure, a tick, a round of
gap detection, the reset after warmup. Each event is what the code does to the
counters and trackers when it happens, one delivery at a time. A `uint64`
counter that grows by one is a `Nat`; it is a `UInt64` where it is read. The
labelled Prometheus counters next to them are not modelled.
-/
import Burnin.Metrics
import Burnin.SubTracker
import Burnin.Tracker
import Burnin.Verdict

namespace Burnin

/-- An accepted configuration whose reorder window the tracker can allocate. -/
structure RunnableConfig extends AcceptedConfig where
  window : ReorderWindow
  window_eq : cfg.message.reorderWindow = window.size

/-- `Channel`: `fmt.Sprintf("amqp10.burnin.%s.%04d", worker, idx)`. -/
def channel (worker : WorkerName) (idx : Nat) : String :=
  let digits := toString idx
  "amqp10.burnin." ++ worker.text ++ "." ++ "".pushn '0' (4 - digits.length) ++ digits

/-- What a handler finds in a message whose envelope `extractMeta` can read:
whether the body fails a crc tag that is there, and the time since the message
was sent, when it says when. -/
structure Envelope where
  producerID : String
  seq : UInt64
  crcMismatch : Bool := false
  latency : Option Int := .none
  deriving DecidableEq

structure BaseWorker where
  channelName : String
  trk : Tracker
  latAccum : LatencyAccumulator := {}
  rpcLatAccum : LatencyAccumulator := {}
  peakRate : PeakRateTracker := {}
  rateWindow : SlidingRateWindow := {}
  sent : Nat := 0
  received : Nat := 0
  errors : Nat := 0
  corrupted : Nat := 0
  reconnections : Nat := 0
  downtime : Nat := 0
  duplicated : Nat := 0
  fidelityFails : Nat := 0
  eventsDropped : Nat := 0
  rpcSuccessCount : Nat := 0
  rpcTimeoutCount : Nat := 0
  rpcErrorCount : Nat := 0

namespace BaseWorker

/-- `NewBaseWorker`. -/
def new (c : RunnableConfig) (name : WorkerName) (idx : Nat) : BaseWorker where
  channelName := channel name idx
  trk := Tracker.new c.window

def recordSent (b : BaseWorker) : BaseWorker :=
  { b with sent := b.sent + 1, rateWindow := b.rateWindow.record, peakRate := b.peakRate.record }

def recordReceived (b : BaseWorker) : BaseWorker := { b with received := b.received + 1 }

def recordError (b : BaseWorker) : BaseWorker := { b with errors := b.errors + 1 }

def recordCorrupted (b : BaseWorker) : BaseWorker :=
  { b with corrupted := b.corrupted + 1, fidelityFails := b.fidelityFails + 1 }

def recordDuplicated (b : BaseWorker) : BaseWorker := { b with duplicated := b.duplicated + 1 }

def recordFidelityGap (b : BaseWorker) (delta : Nat) : BaseWorker :=
  { b with fidelityFails := b.fidelityFails + delta }

def recordReconnection (b : BaseWorker) : BaseWorker := { b with reconnections := b.reconnections + 1 }

def recordEventsStoreDroppedStalled (b : BaseWorker) : BaseWorker :=
  { b with eventsDropped := b.eventsDropped + 1 }

def recordLatency (b : BaseWorker) (d : Int) : BaseWorker := { b with latAccum := b.latAccum.record d }

def recordTracked (b : BaseWorker) (producerID : String) (seq : UInt64) : BaseWorker :=
  let (trk, r) := b.trk.record producerID seq
  let b := { b with trk }
  if r.isDuplicate then b.recordDuplicated else b

def advanceRateWindows (b : BaseWorker) : BaseWorker :=
  { b with rateWindow := b.rateWindow.advance, peakRate := b.peakRate.advance }

def resetAfterWarmup (b : BaseWorker) : BaseWorker where
  channelName := b.channelName
  trk := b.trk.reset
  latAccum := b.latAccum.reset
  rpcLatAccum := b.rpcLatAccum.reset
  peakRate := {}
  rateWindow := b.rateWindow.reset

/-- The two checks of a readable envelope that all handlers begin with. -/
def inspect (b : BaseWorker) (m : Envelope) : BaseWorker :=
  let b := if m.crcMismatch then b.recordCorrupted else b
  match m.latency with
  | .some d => b.recordLatency d
  | .none => b

/-- `handleDelivery` of queues and of credit_flow. -/
def handleDelivery (b : BaseWorker) : Option Envelope → BaseWorker
  | .none => b.recordReceived
  | .some m => ((b.inspect m).recordTracked m.producerID m.seq).recordReceived

/-- `st.record(seq)`, and what follows when it is a duplicate. -/
def recordSub (b : BaseWorker) (st : SubTracker) (seq : UInt64) : BaseWorker × SubTracker :=
  let (st, dup) := st.record seq
  (if dup then b.recordDuplicated else b, st)

/-- One delivery in `drainSub`, to the subscriber that `st` tracks. -/
def drainSub (b : BaseWorker) (st : SubTracker) : Option Envelope → BaseWorker × SubTracker
  | .none => (b.recordReceived, st)
  | .some m =>
    let (b, st) := (b.inspect m).recordSub st m.seq
    (b.recordReceived, st)

/-- `handleStoreDelivery`. -/
def handleStoreDelivery (b : BaseWorker) (st : SubTracker) : Option Envelope → BaseWorker × SubTracker
  | .none => (b.recordReceived, st)
  | .some m =>
    let (b, st) := (b.inspect m).recordSub st m.seq
    ((b.recordTracked m.producerID m.seq).recordReceived, st)

end BaseWorker

/-- The loss detectors that a worker has beside the tracker. -/
inductive Detectors where
  | none
  | subTrackers (ts : List SubTracker)
  | storeTrk (t : SubTracker)

structure Worker where
  base : BaseWorker
  seq : UInt64 := 0
  detectors : Detectors := .none

/-- The workers whose producer sends one message at a time. -/
inductive Pattern where
  | queues | events | eventsStore | creditFlow
  deriving DecidableEq, Repr

def Pattern.name : Pattern → WorkerName
  | .queues => .queues
  | .events => .events
  | .eventsStore => .eventsStore
  | .creditFlow => .creditFlow

namespace Worker

/-- `NewQueuesWorker`. -/
def newQueuesWorker (c : RunnableConfig) (idx : Nat) : Worker where
  base := .new c .queues idx

/-- The subscribers of an events worker, two when the configuration has none. -/
def subscribers (c : RunnableConfig) : Nat :=
  if c.cfg.workers.events.subscribers < 1 then 2 else c.cfg.workers.events.subscribers.toNat

/-- `NewEventsWorker`. -/
def newEventsWorker (c : RunnableConfig) (idx : Nat) : Worker where
  base := .new c .events idx
  detectors := .subTrackers (.replicate (subscribers c) {})

/-- `NewEventsStoreWorker`. -/
def newEventsStoreWorker (c : RunnableConfig) (idx : Nat) : Worker where
  base := .new c .eventsStore idx
  detectors := .storeTrk {}

/-- `NewCreditFlowWorker`. -/
def newCreditFlowWorker (c : RunnableConfig) (idx : Nat) : Worker where
  base := .new c .creditFlow idx

/-- The `switch` of `NewWorkerGroup`, for these workers. -/
def new (c : RunnableConfig) (idx : Nat) : Pattern → Worker
  | .queues => newQueuesWorker c idx
  | .events => newEventsWorker c idx
  | .eventsStore => newEventsStoreWorker c idx
  | .creditFlow => newCreditFlowWorker c idx

/-- How a `Send` ends: with the broker's disposition, with an error, or with
an error after the producer was stopped. -/
inductive Outcome where
  | accepted | failed | cancelled
  deriving DecidableEq, Repr

/-- One round of `produceLoop`: the sequence is taken before the outcome is
known. -/
def produce (w : Worker) (o : Outcome) : Worker :=
  let w := { w with seq := w.seq + 1 }
  match o with
  | .accepted => { w with base := w.base.recordSent }
  | .failed => { w with base := w.base.recordError }
  | .cancelled => w

/-- A delivery. Competing consumers share one handler; a subscriber of events
has a tracker of its own. -/
def handle (w : Worker) (sub : Nat) (m : Option Envelope) : Worker :=
  match w.detectors with
  | .none => { w with base := w.base.handleDelivery m }
  | .subTrackers ts =>
    match ts[sub]? with
    | .none => w
    | .some st =>
      let (base, st) := w.base.drainSub st m
      { w with base, detectors := .subTrackers (ts.set sub st) }
  | .storeTrk st =>
    let (base, st) := w.base.handleStoreDelivery st m
    { w with base, detectors := .storeTrk st }

/-- What can happen to a worker. Its channel carries what its own producer
sends, so a readable envelope names the channel. -/
inductive Event where
  | send (o : Outcome)
  | deliver (sub : Nat) (seq : UInt64) (crcMismatch : Bool := false) (latency : Option Int := .none)
  | untracked (sub : Nat)
  | error
  | reconnected
  | stalled
  | fidelityGap (delta : Nat)
  | tick
  | detectGaps
  | resetAfterWarmup
  deriving DecidableEq

def step (w : Worker) : Event → Worker
  | .send o => w.produce o
  | .deliver sub seq crcMismatch latency =>
    w.handle sub (.some { producerID := w.base.channelName, seq, crcMismatch, latency })
  | .untracked sub => w.handle sub .none
  | .error => { w with base := w.base.recordError }
  | .reconnected => { w with base := w.base.recordReconnection }
  | .stalled => { w with base := w.base.recordEventsStoreDroppedStalled }
  | .fidelityGap delta => { w with base := w.base.recordFidelityGap delta }
  | .tick => { w with base := w.base.advanceRateWindows }
  | .detectGaps => { w with base := { w.base with trk := w.base.trk.detectGaps.1 } }
  -- Neither the sequence nor the other detectors are reset.
  | .resetAfterWarmup => { w with base := w.base.resetAfterWarmup }

/-- The worker after a run. -/
def after (w : Worker) (es : List Event) : Worker := es.foldl step w

/-- `ExtraLost`, 0 for a worker that does not implement it. -/
def extraLost (w : Worker) : UInt64 :=
  match w.detectors with
  | .none => 0
  | .subTrackers ts =>
    ts.foldl (fun maxLost st => if UInt64.ofNat st.missing > maxLost then .ofNat st.missing
      else maxLost) 0
  | .storeTrk st => .ofNat st.missing

end Worker

/-- The variables of one round of the loop of `captureWorkerSnapshots`. -/
structure Capture where
  snap : WorkerSnapshot := {}
  bestLat : Option LatencyAccumulator := .none
  bestLatCount : Int := 0
  bestRPCLat : Option LatencyAccumulator := .none
  bestRPCLatCount : Int := 0

namespace Capture

/-- The counters of one worker, added up. -/
def addCounters (name : WorkerName) (snap : WorkerSnapshot) (b : BaseWorker) : WorkerSnapshot :=
  { snap with
    sent := snap.sent + .ofNat b.sent
    received := snap.received + .ofNat b.received
    errors := snap.errors + .ofNat b.errors
    corrupted := snap.corrupted + .ofNat b.corrupted
    reconnections := snap.reconnections + .ofNat b.reconnections
    downtimeSeconds := snap.downtimeSeconds + seconds b.downtime
    duplicated := snap.duplicated + .ofNat b.duplicated
    -- An RPC worker's tracker is fed by replies only and is left out.
    lost := if name.isRPCWorker then snap.lost else snap.lost + .ofNat b.trk.totalLost
    outOfOrder :=
      if name.isRPCWorker then snap.outOfOrder else snap.outOfOrder + .ofNat b.trk.totalOutOfOrder
    fidelityFailures := snap.fidelityFailures + .ofNat b.fidelityFails
    eventsDropped := snap.eventsDropped + .ofNat b.eventsDropped
    rpcSuccess := snap.rpcSuccess + .ofNat b.rpcSuccessCount
    rpcTimeout := snap.rpcTimeout + .ofNat b.rpcTimeoutCount
    rpcError := snap.rpcError + .ofNat b.rpcErrorCount
    peakRate := if b.peakRate.peak > snap.peakRate then b.peakRate.peak else snap.peakRate
    avgRate := snap.avgRate + b.rateWindow.rate }

/-- One worker in the inner loop. -/
def add (hist : Histogram) (name : WorkerName) (c : Capture) (w : Worker) : Capture :=
  let count := w.base.latAccum.count hist
  let rpcCount := w.base.rpcLatAccum.count hist
  { snap := addCounters name c.snap w.base
    bestLat := if count > c.bestLatCount then .some w.base.latAccum else c.bestLat
    bestLatCount := if count > c.bestLatCount then count else c.bestLatCount
    bestRPCLat := if rpcCount > c.bestRPCLatCount then .some w.base.rpcLatAccum else c.bestRPCLat
    bestRPCLatCount := if rpcCount > c.bestRPCLatCount then rpcCount else c.bestRPCLatCount }

/-- What follows the inner loop. -/
def conclude (hist : Histogram) (c : Capture) (extraLost : UInt64) : WorkerSnapshot :=
  let lat := (c.bestLat.map (·.percentiles hist)).getD {}
  let rpcLat := (c.bestRPCLat.map (·.percentiles hist)).getD {}
  { c.snap with
    latencyP50 := lat.p50
    latencyP95 := lat.p95
    latencyP99 := lat.p99
    latencyP999 := lat.p999
    rpcLatencyP50 := rpcLat.p50
    rpcLatencyP99 := rpcLat.p99
    lost := c.snap.lost + extraLost }

end Capture

/-- `extraLost` of a group. -/
def extraLost (workers : List Worker) : UInt64 := workers.foldl (fun total w => total + w.extraLost) 0

/-- One round of the loop of `captureWorkerSnapshots`, over the channels of one
type of worker. -/
def captureWorkerSnapshot (hist : Histogram) (name : WorkerName) (workers : List Worker) :
    WorkerSnapshot :=
  (workers.foldl (Capture.add hist name) {}).conclude hist (extraLost workers)

/-- What `shutdownWorkers` does to a group once the drain is over: the final
gap detection, then the snapshot. -/
def finalSnapshot (hist : Histogram) (name : WorkerName) (workers : List Worker) : WorkerSnapshot :=
  captureWorkerSnapshot hist name (workers.map (·.step .detectGaps))

end Burnin
