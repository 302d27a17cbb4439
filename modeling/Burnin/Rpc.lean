/-
The RPC workers (`burnin/worker/rpc.go`, `commands.go`, `queries.go`).

A worker's requesters are goroutines of `rpcRequester.run`, each with its own
counters and at most one request in flight; they share the worker's counters
and its tracker. Between two of its steps a requester has no links, has links
and no request, awaits a reply, or has returned (`Phase`). A run of a worker is
an interleaving of the steps of its requesters with what the responders and the
engine do to the shared state, and a step that a requester is not ready for is
not enabled.
-/
import Burnin.Lib.Machine
import Burnin.Worker

namespace Burnin

/-- A request as `doOne` builds it: its correlation-id and its envelope. -/
structure Request where
  correlation : String
  envelope : Envelope
  deriving DecidableEq

/-- A reply as `accountReply` reads it: the text of its correlation-id, empty
when it has none, the property of a command's outcome, and its envelope when
`extractMeta` can read it. -/
structure Reply where
  correlation : String
  executed : Bool
  envelope : Option Envelope
  deriving DecidableEq

/-- `buildReply`: the request's correlation-id and envelope, with the outcome
for a command. -/
def buildReply (withOutcome : Bool) (req : Request) : Reply where
  correlation := req.correlation
  executed := withOutcome
  envelope := .some req.envelope

namespace BaseWorker

def recordRPCSuccess (b : BaseWorker) (d : Int) : BaseWorker :=
  { b with rpcSuccessCount := b.rpcSuccessCount + 1, rpcLatAccum := b.rpcLatAccum.record d }

def recordRPCTimeout (b : BaseWorker) : BaseWorker := { b with rpcTimeoutCount := b.rpcTimeoutCount + 1 }

def recordRPCError (b : BaseWorker) : BaseWorker := { b with rpcErrorCount := b.rpcErrorCount + 1 }

/-- The part of `accountReply` that looks at the envelope. -/
def recordEnvelope (b : BaseWorker) : Option Envelope → BaseWorker
  | .none => b
  | .some m => (if m.crcMismatch then b.recordCorrupted else b).recordTracked m.producerID m.seq

/-- `accountReply`. -/
def accountReply (b : BaseWorker) (verifyOutcome : Bool) (reply : Reply) (wantCorr : String)
    (elapsed : Int) : BaseWorker :=
  if reply.correlation ≠ wantCorr then b.recordRPCError
  else if verifyOutcome = true ∧ reply.executed = false then b.recordRPCError
  else ((b.recordEnvelope reply.envelope).recordReceived).recordRPCSuccess elapsed

end BaseWorker

/-- Where a requester is. -/
inductive Phase where
  /-- without links -/
  | dialing
  | idle
  | awaiting (req : Request)
  | returned
  deriving DecidableEq

structure RpcRequester where
  seq : UInt64 := 0
  corr : UInt64 := 0
  phase : Phase := .dialing
  deriving DecidableEq

namespace RpcRequester

/-- What a requester finds outside. -/
inductive Event where
  | connected
  | connectFailed
  /-- it sends a request, and `Send` ends so -/
  | request (o : Worker.Outcome)
  /-- `Receive` returns a reply, so long after the request -/
  | reply (r : Reply) (elapsed : Int)
  | timeout
  /-- `Receive` returns another error -/
  | replyFailed
  /-- its context is cancelled -/
  | cancelled

/-- The request that the next `doOne` sends. -/
def nextRequest (rq : RpcRequester) (channelName : String) : Request where
  correlation := channelName ++ "-" ++ toString (rq.corr + 1)
  envelope := { producerID := channelName, seq := rq.seq + 1 }

/-- `doOne` up to the end of `Send`. A failure has the links rebuilt. -/
def send (rq : RpcRequester) (b : BaseWorker) (o : Worker.Outcome) : RpcRequester × BaseWorker :=
  let req := rq.nextRequest b.channelName
  let rq := { rq with seq := rq.seq + 1, corr := rq.corr + 1 }
  match o with
  | .accepted => ({ rq with phase := .awaiting req }, b.recordSent)
  | .failed => ({ rq with phase := .dialing }, b.recordError.recordRPCError)
  | .cancelled => ({ rq with phase := .returned }, b)

/-- One step of `run`, on the requester and on the state it shares. -/
def step (verifyOutcome : Bool) (rq : RpcRequester) (b : BaseWorker) (e : Event) :
    Option (RpcRequester × BaseWorker) :=
  match rq.phase, e with
  | .dialing, .connected => .some ({ rq with phase := .idle }, b)
  | .dialing, .connectFailed => .some (rq, b.recordError)
  | .idle, .request o => .some (rq.send b o)
  | .awaiting req, .reply r elapsed =>
    .some ({ rq with phase := .idle }, b.accountReply verifyOutcome r req.correlation elapsed)
  -- The links are rebuilt, so that a late reply is not taken for the next one.
  | .awaiting _, .timeout => .some ({ rq with phase := .dialing }, b.recordRPCTimeout)
  | .awaiting _, .replyFailed => .some ({ rq with phase := .dialing }, b.recordRPCError)
  | .returned, _ => .none
  | _, .cancelled => .some ({ rq with phase := .returned }, b)
  | _, _ => .none

end RpcRequester

structure RpcWorker where
  base : BaseWorker
  verifyOutcome : Bool
  /-- how many requesters `StartProducers` starts -/
  senders : Nat
  requesters : List RpcRequester := []

/-- The RPC workers. -/
inductive RpcPattern where
  | commands | queries
  deriving DecidableEq, Repr

def RpcPattern.name : RpcPattern → WorkerName
  | .commands => .commands
  | .queries => .queries

namespace RpcWorker

/-- The requesters of a worker, one when the configuration has none. -/
def sendersOf (c : RunnableConfig) (name : WorkerName) : Nat :=
  let n := (c.cfg.getWorkerConfig name).sendersPerChannel
  if n < 1 then 1 else n.toNat

/-- `NewCommandsWorker`. -/
def newCommandsWorker (c : RunnableConfig) (idx : Nat) : RpcWorker where
  base := .new c .commands idx
  verifyOutcome := true
  senders := sendersOf c .commands

/-- `NewQueriesWorker`. -/
def newQueriesWorker (c : RunnableConfig) (idx : Nat) : RpcWorker where
  base := .new c .queries idx
  verifyOutcome := false
  senders := sendersOf c .queries

/-- The `switch` of `NewWorkerGroup`, for these workers. -/
def new (c : RunnableConfig) (idx : Nat) : RpcPattern → RpcWorker
  | .commands => newCommandsWorker c idx
  | .queries => newQueriesWorker c idx

/-- What can happen to a worker. -/
inductive Event where
  | startProducers
  | stopProducers
  | requester (k : Nat) (e : RpcRequester.Event)
  /-- a responder records an error -/
  | error
  /-- a responder attaches anew -/
  | reconnected
  | tick
  | detectGaps
  | resetAfterWarmup

def step (w : RpcWorker) : Event → Option RpcWorker
  -- The requesters are new ones, so their counters start at 0.
  | .startProducers =>
    if w.requesters = [] then .some { w with requesters := .replicate w.senders {} } else .none
  | .stopProducers => .some { w with requesters := [] }
  | .requester k e =>
    match w.requesters[k]? with
    | .none => .none
    | .some rq =>
      (rq.step w.verifyOutcome w.base e).map fun (rq, base) =>
        { w with base, requesters := w.requesters.set k rq }
  | .error => .some { w with base := w.base.recordError }
  | .reconnected => .some { w with base := w.base.recordReconnection }
  | .tick => .some { w with base := w.base.advanceRateWindows }
  | .detectGaps => .some { w with base := { w.base with trk := w.base.trk.detectGaps.1 } }
  | .resetAfterWarmup => .some { w with base := w.base.resetAfterWarmup }

/-- The worker as the engine's snapshot reads it: it has no `ExtraLost`. -/
def toWorker (w : RpcWorker) : Worker := { base := w.base }

/-- The (worker-id, sequence) pair that a step stamps on a request. -/
def stamp (w : RpcWorker) : Event → Option (String × UInt64)
  | .requester k (.request _) =>
    w.requesters[k]?.map fun rq =>
      let m := (rq.nextRequest w.base.channelName).envelope
      (m.producerID, m.seq)
  | _ => .none

/-- The pairs stamped in a run, in order. -/
def stamped (w : RpcWorker) : List Event → List (String × UInt64)
  | [] => []
  | e :: es => (w.stamp e).toList ++ ((w.step e).map fun w' => stamped w' es).getD []

end RpcWorker

end Burnin
