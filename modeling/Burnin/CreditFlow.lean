/-
The manual-credit receiver of the credit_flow worker
(`burnin/worker/credit_flow.go`): `creditCycle` with its `drainAndVerify` and
`drainPrefetch`, on one receiver.

A step is the outcome of one call, and the broker may push a delivery between
any two of them. Of the client library and the broker this takes what the
library documents: `IssueCredit` adds to the outstanding credit of the link, a
delivery uses one unit and waits in the receiver's cache, a completed
`DrainCredit` leaves no credit. How long a `Receive` waits and when a drain is
due comes with the step. The counts `received` and `n` are `uint32` in the
source and grow by one; they are `Nat`.
-/
import Burnin.Lib.Credit
import Burnin.Lib.Machine
import Burnin.WorkerFacts

namespace Burnin

open Machine

/-- The field `creditBatch`, within the ceiling of unsettled messages on a
link. -/
structure CreditBatch where
  size : Nat
  pos : 1 ≤ size
  le : size ≤ 1024

def defaultCreditBatch : Nat := 50

/-- The batch that `NewCreditFlowWorker` sets. -/
def Config.creditBatch (cfg : Config) : CreditBatch where
  size :=
    let batch := if cfg.amqp10.credit > 0 then cfg.amqp10.credit.toNat else defaultCreditBatch
    if batch > 1024 then 1024 else batch
  pos := by
    dsimp only [defaultCreditBatch]
    split <;> split <;> omega
  le := by
    dsimp only [defaultCreditBatch]
    split <;> split <;> omega

/-- Where `creditCycle` is. -/
inductive CreditPc where
  /-- before the check of the context and `IssueCredit` -/
  | top
  /-- in the batch loop, with so many received -/
  | batch (received : Nat)
  /-- before it looks whether a drain is due -/
  | batchEnd
  /-- in `DrainCredit` -/
  | draining
  /-- in the first `drainPrefetch` of `drainAndVerify` -/
  | absorb
  /-- in its wait for over-delivery -/
  | window
  /-- in its second `drainPrefetch`, which has drained `n` -/
  | verify (n : Nat)
  | returned
  deriving DecidableEq

/-- How `DrainCredit` ends, other than by a cancelled context. -/
inductive DrainResult where
  | completed
  /-- an error of the link or the session -/
  | linkError
  /-- not in time, on a live link -/
  | hung
  deriving DecidableEq

structure CreditCycle where
  base : BaseWorker
  /-- the outstanding credit of the link -/
  credit : Nat := 0
  /-- the receiver's prefetch cache, oldest first -/
  cache : List (Option Envelope) := []
  pc : CreditPc := .top

namespace CreditCycle

inductive Event where
  /-- the broker pushes a delivery -/
  | push (m : Option Envelope)
  /-- `ctx.Err() != nil`, or a call that the cancelled context cut short -/
  | cancelled
  | issue (ok : Bool)
  /-- `Receive` returns a message, and then how `AcceptMessage` ends -/
  | receive (accepted : Bool)
  /-- `Receive` returns an error while the context is live -/
  | timeout
  | drainDue (due : Bool)
  | drain (result : DrainResult)
  /-- `Prefetched` returns a message, and then how `AcceptMessage` ends -/
  | prefetched (accepted : Bool)
  /-- `Prefetched` returns nil -/
  | empty
  | slept
  deriving DecidableEq

/-- The oldest message leaves the cache and is handled. -/
def take (s : CreditCycle) : Option CreditCycle :=
  match s.cache with
  | m :: cache => .some { s with cache, base := s.base.handleDelivery m }
  | [] => .none

def recordError (s : CreditCycle) : CreditCycle := { s with base := s.base.recordError }

/-- The end of `drainAndVerify`, once the second `drainPrefetch` has returned
`n`. -/
def verified (s : CreditCycle) (n : Nat) : CreditCycle :=
  { s with base := if n > 0 then s.base.recordFidelityGap n else s.base, pc := .top }

/-- One step; none when it is not one that the cycle can take where it is. -/
def step (b : CreditBatch) (s : CreditCycle) (e : Event) : Option CreditCycle :=
  match s.pc, e with
  | .returned, _ => .none
  | _, .push m => .some { s with credit := s.credit - 1, cache := s.cache ++ [m] }
  | .top, .cancelled => .some { s with pc := .returned }
  | .top, .issue true => .some { s with credit := s.credit + b.size, pc := .batch 0 }
  | .top, .issue false => .some { s.recordError with pc := .returned }
  | .batch _, .cancelled => .some { s with pc := .returned }
  | .batch received, .receive true =>
    s.take.map fun s => { s with pc := if received + 1 < b.size then .batch (received + 1)
      else .batchEnd }
  | .batch _, .receive false => s.take.map fun s => { s.recordError with pc := .returned }
  | .batch _, .timeout => .some { s with pc := .batchEnd }
  | .batchEnd, .drainDue due => .some { s with pc := if due then .draining else .top }
  | .draining, .cancelled => .some { s with pc := .returned }
  | .draining, .drain .completed => .some { s with credit := 0, pc := .absorb }
  | .draining, .drain .linkError => .some { s with pc := .returned }
  | .draining, .drain .hung =>
    .some { s.recordError with base := s.recordError.base.recordFidelityGap 1, pc := .returned }
  | .absorb, .prefetched true => s.take
  | .absorb, .prefetched false => s.take.map fun s => { s.recordError with pc := .window }
  | .absorb, .empty => if s.cache = [] then .some { s with pc := .window } else .none
  | .window, .slept => .some { s with pc := .verify 0 }
  | .window, .cancelled => .some { s with pc := .returned }
  | .verify n, .prefetched true => s.take.map fun s => { s with pc := .verify (n + 1) }
  | .verify n, .prefetched false => s.take.map fun s => s.recordError.verified n
  | .verify n, .empty => if s.cache = [] then .some (s.verified n) else .none
  | _, _ => .none

/-- The cycle on a new receiver of the worker, after the steps `H`. -/
def after (b : CreditBatch) (base : BaseWorker) (H : List Event) : Option CreditCycle :=
  exec (step b) { base } H

end CreditCycle

end Burnin
