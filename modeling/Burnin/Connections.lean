/-
The connections of a worker (`burnin/worker/worker.go`, and the loops of
`queues.go`, `events.go`, `events_store.go`, `credit_flow.go`, `rpc.go`).

A worker's consumer loops share a registry of connections, which
`DisconnectConsumers` copies to close what is in it. Its producer loops
(`produceLoop`, `rpcRequester.run`) are not in the registry, and build a
connection in a helper that closes it when a later call fails. Here are all
loops of one worker, with every outcome of their calls, and a log of the
connections that were dialed and closed.

`no_connection_leak` says that the registry has exactly the connections that the
consumer loops hold, and that a loop which is about to dial, or has returned,
has closed all that it dialed.
-/
import Burnin.Consumers
import Burnin.Lib.Held

namespace Burnin

open Machine Held

/-! ## The producer loops -/

/-- Where the goroutine of a producer or requester loop is, with the connection
it holds. -/
inductive ProducerLoop where
  /-- before the check of its context -/
  | top (conn : Option Nat)
  /-- in `connectSender` or `connect` -/
  | dialing
  | dialed (conn : Nat)
  | inSession (conn : Nat)
  /-- a requester, before it attaches its request sender -/
  | receiving (conn : Nat)
  /-- before the close in the helper, which then returns an error -/
  | abandoned (conn : Nat)
  | sleeping
  /-- in `waitForRate` -/
  | rated (conn : Nat)
  | sending (conn : Nat)
  /-- a requester, in `Receive` -/
  | awaiting (conn : Nat)
  /-- before the check of its context, after an error -/
  | failed (conn : Nat)
  /-- before the close, to dial anew -/
  | teardown (conn : Nat)
  /-- before the deferred close -/
  | exiting (conn : Option Nat)
  | returned
  deriving DecidableEq, Repr

namespace ProducerLoop

/-- The steps of a loop, with the outcomes of its calls. -/
inductive Event where
  | check
  | dial (conn : Option Nat)
  | session (ok : Bool)
  /-- the reply receiver, with an address that the server assigned -/
  | receiver (ok : Bool)
  | sender (ok : Bool)
  | close
  | slept
  /-- `sleepCtx` is cut short -/
  | interrupted
  | rate (ok : Bool)
  | send (ok : Bool)
  /-- `Receive` returns a reply, or none -/
  | reply (ok : Bool)
  deriving DecidableEq, Repr

/-- One step of a loop, of a requester's if it `requests`, under a context that
may be `cancelled`. -/
def step (requests cancelled : Bool) (loop : ProducerLoop) (e : Event) : Option ProducerLoop :=
  match loop, e with
  | .top conn, .check =>
    .some (if cancelled then .exiting conn else conn.elim .dialing .rated)
  | .dialing, .dial (.some conn) => .some (.dialed conn)
  | .dialing, .dial .none => .some .sleeping
  | .dialed conn, .session ok => .some (if ok then .inSession conn else .abandoned conn)
  | .inSession conn, .receiver ok =>
    if requests then .some (if ok then .receiving conn else .abandoned conn) else .none
  | .inSession conn, .sender ok =>
    if requests then .none else .some (if ok then .rated conn else .abandoned conn)
  | .receiving conn, .sender ok => .some (if ok then .rated conn else .abandoned conn)
  | .abandoned _, .close => .some .sleeping
  | .sleeping, .slept => .some (.top .none)
  | .sleeping, .interrupted => if cancelled then .some (.exiting .none) else .none
  | .rated conn, .rate ok => .some (if ok then .sending conn else .exiting (.some conn))
  | .sending conn, .send true => .some (if requests then .awaiting conn else .top (.some conn))
  | .sending conn, .send false => .some (.failed conn)
  | .awaiting conn, .reply ok => .some (if ok then .top (.some conn) else .failed conn)
  | .failed conn, .check => .some (if cancelled then .exiting (.some conn) else .teardown conn)
  | .teardown _, .close => .some (.top .none)
  | .exiting _, .close => .some .returned
  | _, _ => .none

/-- The connection that the loop holds. -/
def holds : ProducerLoop → Option Nat
  | .top conn | .exiting conn => conn
  | .dialed conn | .inSession conn | .receiving conn | .abandoned conn | .rated conn | .sending conn
  | .awaiting conn | .failed conn | .teardown conn => .some conn
  | .dialing | .sleeping | .returned => .none

/-- What a step dials. -/
def Event.dialed : Event → Option Nat
  | .dial conn => conn
  | _ => .none

/-- What a step of the loop closes. -/
def closes (loop : ProducerLoop) : Event → Option Nat
  | .close => loop.holds
  | _ => .none

end ProducerLoop

namespace ConsumerLoop

/-- The connection that the loop holds. -/
def holds : ConsumerLoop → Option Nat
  | .dialed conn | .connected conn | .inSession conn | .receiving conn | .attached conn | .serving conn
  | .cleanup conn _ | .unregistered conn _ => .some conn
  | .top | .checked | .sleeping | .returned => .none

/-- The connection that the loop has registered. -/
def registered : ConsumerLoop → Option Nat
  | .connected conn | .inSession conn | .receiving conn | .attached conn | .serving conn
  | .cleanup conn _ => .some conn
  | .dialed _ | .unregistered _ _ | .top | .checked | .sleeping | .returned => .none

/-- The loop is between two calls, with a connection that it is about to
register or to close. -/
def HandingOver : ConsumerLoop → Prop
  | .dialed _ | .unregistered _ _ => True
  | _ => False

/-- What a step dials. -/
def Event.dialed : Event → Option Nat
  | .dial conn => conn
  | _ => .none

/-- What a step of the loop closes. -/
def closes (loop : ConsumerLoop) : Event → Option Nat
  | .close => loop.holds
  | _ => .none

end ConsumerLoop

/-! ## A worker with its connections -/

/-- A goroutine that dials. -/
inductive Dialer where
  | consumer (k : Nat)
  | producer (k : Nat)
  deriving DecidableEq, Repr

/-- A goroutine that `StartProducers` started, with the number of the context it
was given. -/
structure Producer where
  ctx : Nat
  loop : ProducerLoop := .top .none
  deriving DecidableEq, Repr

structure Connections where
  consumers : Consumers
  /-- the producers are requesters -/
  requests : Bool
  /-- how many loops `StartProducers` starts -/
  senders : Nat
  producers : List Producer := []
  /-- how many contexts `StartProducers` has made; `producerCancel` is of the last -/
  producerCtxs : Nat := 0
  cancelledCtxs : List Nat := []
  /-- who dialed each connection, in order -/
  dialers : List Dialer := []
  /-- the connections whose `Close` was called -/
  closed : List Nat := []
  /-- the copies of the registry that `DisconnectConsumers` goes through -/
  copied : List Nat := []
  deriving DecidableEq, Repr

namespace Connections

inductive Event where
  | consumer (k : Nat) (e : ConsumerLoop.Event)
  | producer (k : Nat) (e : ProducerLoop.Event)
  /-- `StopConsumers` or the run's context cancels the consumer context -/
  | cancelConsumers
  | startProducers
  /-- `StopProducers` calls `producerCancel` -/
  | cancelProducers
  /-- `DisconnectConsumers` copies the registry -/
  | disconnect
  /-- and closes a connection of the copy -/
  | forceClose (conn : Nat)
  deriving DecidableEq, Repr

/-- The log of a step of `o`. -/
def log (x : Connections) (o : Dialer) (dialed closed : Option Nat) : Connections :=
  { x with dialers := x.dialers ++ (dialed.map fun _ => o).toList, closed := x.closed ++ closed.toList }

/-- The connections have the numbers in which they are dialed. -/
def Fresh (x : Connections) (dialed : Option Nat) : Prop := ∀ conn ∈ dialed, conn = x.dialers.length

instance (x : Connections) (dialed : Option Nat) : Decidable (x.Fresh dialed) :=
  inferInstanceAs (Decidable (∀ conn ∈ dialed, _))

def step (x : Connections) : Event → Option Connections
  | .consumer k e =>
    match x.consumers.loops[k]? with
    | .none => .none
    | .some loop =>
      if x.Fresh e.dialed then
        (x.consumers.step (.loop k e)).map fun consumers =>
          { x.log (.consumer k) e.dialed (loop.closes e) with consumers }
      else .none
  | .producer k e =>
    match x.producers[k]? with
    | .none => .none
    | .some p =>
      if x.Fresh e.dialed then
        (p.loop.step x.requests (p.ctx ∈ x.cancelledCtxs) e).map fun loop =>
          { x.log (.producer k) e.dialed (p.loop.closes e) with
            producers := x.producers.set k { p with loop } }
      else .none
  | .cancelConsumers => (x.consumers.step .cancel).map fun consumers => { x with consumers }
  | .startProducers =>
    .some { x with
      producers := x.producers ++ .replicate x.senders { ctx := x.producerCtxs }
      producerCtxs := x.producerCtxs + 1 }
  | .cancelProducers =>
    match x.producerCtxs with
    -- There is no `producerCancel` yet.
    | 0 => .some x
    | ctx + 1 => .some { x with cancelledCtxs := x.cancelledCtxs ++ [ctx] }
  | .disconnect => .some { x with copied := x.copied ++ x.consumers.shared.consumerConns }
  | .forceClose conn =>
    if conn ∈ x.copied then .some { x with
      copied := x.copied.erase conn, closed := x.closed ++ [conn] } else .none

/-- A worker after `Start`. -/
def start (c : RunnableConfig) (name : WorkerName) : Connections where
  consumers := .start c name
  requests := name.isRPCWorker
  senders := c.cfg.producerLoops name

end Connections

/-! ## One step -/

/-- **What a step of a producer loop takes and gives back.** -/
theorem ProducerLoop.step_hands {requests cancelled : Bool} {loop loop' : ProducerLoop} {e : Event}
    (h : loop.step requests cancelled e = .some loop') :
    Hands e.dialed (loop.closes e) loop.holds loop'.holds := by
  unfold step at h
  split at h
  case h_1 conn =>
    cases h
    cases cancelled with
    | true => exact .keep conn
    | false => cases conn <;> exact .keep _
  case h_2 conn => cases h; exact .take conn
  case h_3 => cases h; exact .keep .none
  case h_4 conn ok => cases h; cases ok <;> exact .keep (.some conn)
  case h_5 conn ok =>
    split at h
    · cases h; cases ok <;> exact .keep (.some conn)
    · cases h
  case h_6 conn ok =>
    split at h
    · cases h
    · cases h; cases ok <;> exact .keep (.some conn)
  case h_7 conn ok => cases h; cases ok <;> exact .keep (.some conn)
  case h_8 conn => cases h; exact .giveBack conn
  case h_9 => cases h; exact .keep .none
  case h_10 =>
    split at h
    · cases h; exact .keep .none
    · cases h
  case h_11 conn ok => cases h; cases ok <;> exact .keep (.some conn)
  case h_12 conn => cases h; cases requests <;> exact .keep (.some conn)
  case h_13 conn => cases h; exact .keep (.some conn)
  case h_14 conn ok => cases h; cases ok <;> exact .keep (.some conn)
  case h_15 conn => cases h; cases cancelled <;> exact .keep (.some conn)
  case h_16 conn => cases h; exact .giveBack conn
  case h_17 conn =>
    cases h
    cases conn with
    | none => exact .keep .none
    | some conn => exact .giveBack conn
  case h_18 => cases h

namespace ConsumerLoop

/-- **What a step of a consumer loop takes and gives back.** -/
theorem Moves.hands {replies : Bool} {loop loop' : ConsumerLoop} {s s' : ConsumerShared} {e : Event}
    (h : Moves replies s loop e loop' s') : Hands e.dialed (loop.closes e) loop.holds loop'.holds := by
  cases h with
  | check => split <;> exact .keep .none
  | dial conn => exact .take conn
  | receiver conn => split <;> exact .keep (.some conn)
  | closeRetry conn => exact .giveBack conn
  | closeSleep conn => exact .giveBack conn
  | closeReconnect conn => exact .giveBack conn
  | _ => exact .keep _

/-- What a step of a loop does to the registry, and to what the loop has there. -/
inductive Registers (conns : List Nat) : List Nat → Option Nat → Option Nat → Prop
  | keep (conn : Option Nat) : Registers conns conns conn conn
  | register (conn : Nat) : Registers conns (conns ++ [conn]) .none (.some conn)
  | unregister (conn : Nat) : Registers conns (conns.erase conn) (.some conn) .none

theorem Moves.registers {replies : Bool} {loop loop' : ConsumerLoop} {s s' : ConsumerShared} {e : Event}
    (h : Moves replies s loop e loop' s') :
    Registers s.consumerConns s'.consumerConns loop.registered loop'.registered := by
  cases h with
  | check => split <;> exact .keep .none
  | receiver conn => split <;> exact .keep (.some conn)
  | register conn => exact .register conn
  | unregister conn next => exact .unregister conn
  | closeReconnect conn => split <;> exact .keep .none
  | _ => exact .keep _

theorem Registers.held {conns conns' : List Nat} {loops : List ConsumerLoop} {k : Nat}
    {loop loop' : ConsumerLoop} (h : Registers conns conns' loop.registered loop'.registered)
    (hk : loops[k]? = .some loop) (hconns : conns.Perm (held registered loops)) :
    conns'.Perm (held registered (loops.set k loop')) := by
  generalize hr : loop.registered = r at h
  generalize hr' : loop'.registered = r' at h
  cases h with
  | keep => exact hconns.trans (held_keep hk (hr'.trans hr.symm)).symm
  | register conn => exact (hconns.append_right _).trans (held_acquire hk hr hr').symm
  | unregister conn => exact (hconns.erase conn).trans (held_release hk hr hr').symm

end ConsumerLoop

namespace Connections

/-- The connection that a goroutine holds. -/
def holds (x : Connections) : Dialer → Option Nat
  | .consumer k => x.consumers.loops[k]?.bind ConsumerLoop.holds
  | .producer k => x.producers[k]?.bind (·.loop.holds)

/-- The registry and the log agree with the loops. -/
structure Accounted (x : Connections) : Prop where
  registry : x.consumers.shared.consumerConns.Perm (held ConsumerLoop.registered x.consumers.loops)
  ledger : Ledger x.dialers x.closed x.holds

theorem holds_set_consumer {x y : Connections} {k : Nat} {loop loop' : ConsumerLoop}
    (hk : x.consumers.loops[k]? = .some loop)
    (hloops : y.consumers.loops = x.consumers.loops.set k loop')
    (hproducers : y.producers = x.producers) :
    y.holds = Function.update x.holds (.consumer k) loop'.holds := by
  funext o
  cases o with
  | producer j =>
    rw [Function.update_of_ne (by simp)]
    simp only [holds, hproducers]
  | consumer j =>
    simp only [holds, hloops, getElem?_set_bind hk, Function.update_apply, Dialer.consumer.injEq]

theorem holds_set_producer {x y : Connections} {k : Nat} {p p' : Producer}
    (hk : x.producers[k]? = .some p) (hloops : y.consumers.loops = x.consumers.loops)
    (hproducers : y.producers = x.producers.set k p') :
    y.holds = Function.update x.holds (.producer k) p'.loop.holds := by
  funext o
  cases o with
  | consumer j =>
    rw [Function.update_of_ne (by simp)]
    simp only [holds, hloops]
  | producer j =>
    simp only [holds, hproducers, getElem?_set_bind hk, Function.update_apply, Dialer.producer.injEq]

theorem holds_startProducers (x : Connections) (n ctx producerCtxs : Nat) :
    holds { x with producers := x.producers ++ .replicate n { ctx }, producerCtxs } = x.holds := by
  funext o
  cases o with
  | consumer j => rfl
  | producer j =>
    simp only [holds, List.getElem?_append]
    split
    case isTrue => rfl
    case isFalse hlt =>
      rw [List.getElem?_eq_none (Nat.le_of_not_lt hlt), List.getElem?_replicate]
      split <;> rfl

/-- The log of a step of `o`, by what the step takes and gives back. -/
theorem Accounted.log {x y : Connections} {o : Dialer} {dialed closed after : Option Nat}
    (h : x.Accounted) (hh : Hands dialed closed (x.holds o) after) (hfresh : x.Fresh dialed)
    (hdialers : y.dialers = (x.log o dialed closed).dialers)
    (hclosed : y.closed = (x.log o dialed closed).closed)
    (hholds : y.holds = Function.update x.holds o after) : Ledger y.dialers y.closed y.holds := by
  rw [hdialers, hclosed, hholds]
  exact h.ledger.hand hh hfresh

/-- **One step** of a worker keeps the account. -/
theorem Accounted.step {x x' : Connections} {e : Event} (h : x.Accounted) (hs : x.step e = .some x') :
    x'.Accounted := by
  cases e with
  | consumer k e =>
    simp only [Connections.step] at hs
    split at hs
    case h_1 => cases hs
    case h_2 loop hk =>
      split at hs
      case isTrue hfresh =>
        obtain ⟨consumers, hstep, rfl⟩ := Option.map_eq_some_iff.mp hs
        obtain ⟨loop₁, loop', shared, hk₁, hm, rfl⟩ := Consumers.step_loop hstep
        obtain rfl : loop = loop₁ := Option.some.inj (hk.symm.trans hk₁)
        have hheld : x.holds (.consumer k) = loop.holds := by simp [holds, hk]
        exact ⟨hm.registers.held hk h.registry,
          h.log (hheld ▸ hm.hands) hfresh rfl rfl (holds_set_consumer hk rfl rfl)⟩
      case isFalse => cases hs
  | producer k e =>
    simp only [Connections.step] at hs
    split at hs
    case h_1 => cases hs
    case h_2 p hk =>
      split at hs
      case isTrue hfresh =>
        obtain ⟨loop', hstep, rfl⟩ := Option.map_eq_some_iff.mp hs
        have hheld : x.holds (.producer k) = p.loop.holds := by simp [holds, hk]
        exact ⟨h.registry, h.log (hheld ▸ ProducerLoop.step_hands hstep) hfresh rfl rfl
          (holds_set_producer hk rfl rfl)⟩
      case isFalse => cases hs
  | cancelConsumers =>
    cases hs
    exact ⟨h.registry, h.ledger⟩
  | startProducers =>
    cases hs
    exact ⟨h.registry, holds_startProducers x _ _ _ ▸ h.ledger⟩
  | cancelProducers =>
    simp only [Connections.step] at hs
    split at hs <;> cases hs
    · exact h
    · exact ⟨h.registry, h.ledger⟩
  | disconnect =>
    cases hs
    exact ⟨h.registry, h.ledger⟩
  | forceClose conn =>
    simp only [Connections.step] at hs
    split at hs
    · cases hs
      exact ⟨h.registry, h.ledger.returned_append [conn]⟩
    · cases hs

theorem accounted_start (c : RunnableConfig) (name : WorkerName) : (start c name).Accounted := by
  have hloops : ∀ loop ∈ (start c name).consumers.loops, loop = .top := fun _ => List.eq_of_mem_replicate
  refine ⟨?_, ?_⟩
  · rw [held_eq_nil fun loop hloop => hloops loop hloop ▸ rfl]
    exact .nil
  · have hholds : (start c name).holds = fun _ => .none := by
      funext o
      cases o with
      | producer k => rfl
      | consumer k =>
        cases hk : (start c name).consumers.loops[k]? with
        | none => simp only [holds, hk, Option.bind_none]
        | some loop =>
          obtain rfl := hloops loop (List.mem_of_getElem? hk)
          simp only [holds, hk, Option.bind_some, ConsumerLoop.holds]
    rw [hholds]
    exact .empty

theorem accounted {c : RunnableConfig} {name : WorkerName} {es : List Event} {x : Connections}
    (h : exec step (start c name) es = .some x) : x.Accounted :=
  invariant (accounted_start c name) (fun _ _ _ => Accounted.step) h

/-! ## No leak -/

/-- The goroutine is about to dial, or has returned. -/
def AtRest (x : Connections) : Dialer → Prop
  | .consumer k => x.consumers.loops[k]? = .some .checked ∨ x.consumers.loops[k]? = .some .returned
  | .producer k => ∃ p, x.producers[k]? = .some p ∧ (p.loop = .dialing ∨ p.loop = .returned)

/-- `StopProducers` and `StopConsumers` have waited for all goroutines. -/
def Stopped (x : Connections) : Prop :=
  (∀ loop ∈ x.consumers.loops, loop = .returned) ∧ ∀ p ∈ x.producers, p.loop = .returned

theorem AtRest.holds {x : Connections} {o : Dialer} (h : x.AtRest o) : x.holds o = .none := by
  cases o with
  | consumer k => rcases h with h | h <;> simp [Connections.holds, h, ConsumerLoop.holds]
  | producer k =>
    obtain ⟨p, hk, h | h⟩ := h <;> simp [Connections.holds, hk, h, ProducerLoop.holds]

theorem Stopped.holds {x : Connections} (h : x.Stopped) (o : Dialer) : x.holds o = .none := by
  cases o with
  | consumer k =>
    cases hk : x.consumers.loops[k]? with
    | none => simp [Connections.holds, hk]
    | some loop => simp [Connections.holds, hk, h.1 loop (List.mem_of_getElem? hk), ConsumerLoop.holds]
  | producer k =>
    cases hk : x.producers[k]? with
    | none => simp [Connections.holds, hk]
    | some p => simp [Connections.holds, hk, h.2 p (List.mem_of_getElem? hk), ProducerLoop.holds]

theorem holds_of_registered {loop : ConsumerLoop} {conn : Nat} (h : loop.registered = .some conn) :
    loop.holds = .some conn := by
  cases loop <;> first | exact h | cases h

theorem holds_eq_registered {loop : ConsumerLoop} (h : ¬ loop.HandingOver) :
    loop.holds = loop.registered := by
  cases loop with
  | dialed conn => exact (h trivial).elim
  | unregistered conn next => exact (h trivial).elim
  | _ => rfl

/-- A registered connection was dialed by the loop that has it there. -/
theorem Accounted.dialer {x : Connections} (h : x.Accounted) {k : Nat} {loop : ConsumerLoop}
    (hk : x.consumers.loops[k]? = .some loop) {conn : Nat} (hr : loop.registered = .some conn) :
    x.dialers[conn]? = .some (.consumer k) := by
  refine h.ledger.taker (.consumer k) conn ?_
  simp only [Connections.holds, hk, Option.bind_some]
  exact holds_of_registered hr

/-- **No connection leaks.** In every run of a worker of any type, whatever the
outcomes of the calls of its loops and with forced disconnects at any points:
no two registered connections are of one goroutine; the registry has the
connections of the loops that are between `registerConsumerConn` and
`unregisterConsumerConn`, which are all that the loops hold but for one that is
on its way into or out of the registry; a goroutine that is about to dial or has
returned has closed all that it dialed; and when all have returned the registry
is empty and everything is closed. -/
theorem no_connection_leak (c : RunnableConfig) (name : WorkerName) {es : List Event} {x : Connections}
    (h : exec step (start c name) es = .some x) :
    (x.consumers.shared.consumerConns.map fun conn => x.dialers[conn]?).Nodup ∧
      x.consumers.shared.consumerConns.Perm (held ConsumerLoop.registered x.consumers.loops) ∧
      ((∀ loop ∈ x.consumers.loops, ¬ loop.HandingOver) →
        x.consumers.shared.consumerConns.Perm (held ConsumerLoop.holds x.consumers.loops)) ∧
      (∀ o, x.AtRest o → ∀ conn, x.dialers[conn]? = .some o → conn ∈ x.closed) ∧
      (x.Stopped → x.consumers.shared.consumerConns = [] ∧
        ∀ conn < x.dialers.length, conn ∈ x.closed) := by
  have hx := accounted h
  refine ⟨?_, hx.registry, fun hover => ?_, fun o ho conn hconn => hx.ledger.mem_returned ho.holds hconn,
    fun hstopped => ⟨?_, fun conn hconn => ?_⟩⟩
  · have hnodup : ((held ConsumerLoop.registered x.consumers.loops).map fun conn =>
        x.dialers[conn]?).Nodup :=
      nodup_owner (fun k => .some (.consumer k)) (fun i j hij => by simpa using hij)
        fun k loop hk conn hr => hx.dialer hk hr
    exact (hx.registry.map _).nodup_iff.mpr hnodup
  · rw [held_congr fun loop hloop => holds_eq_registered (hover loop hloop)]
    exact hx.registry
  · have hnil : held ConsumerLoop.registered x.consumers.loops = [] :=
      held_eq_nil fun loop hloop => hstopped.1 loop hloop ▸ rfl
    exact List.perm_nil.mp (hnil ▸ hx.registry)
  · exact hx.ledger.mem_returned (hstopped.holds _) (List.getElem?_eq_getElem hconn)

/-- The one consumer of a worker is disconnected while it serves, and a producer
cannot attach; then both are stopped. -/
def churn : List Event :=
  [.consumer 0 .check, .consumer 0 (.dial (.some 0)), .consumer 0 .register, .consumer 0 (.session true),
    .consumer 0 (.receiver true), .consumer 0 .signalReady, .startProducers, .producer 0 .check,
    .producer 0 (.dial (.some 1)), .producer 0 (.session true), .disconnect, .producer 0 (.sender false),
    .forceClose 0, .consumer 0 .linkDown, .producer 0 .close, .consumer 0 .unregister,
    .consumer 0 .close,
    .consumer 0 .check, .consumer 0 (.dial (.some 2)), .consumer 0 .register, .cancelProducers,
    .producer 0 .interrupted, .producer 0 .close, .cancelConsumers, .consumer 0 (.session false),
    .consumer 0 .unregister, .consumer 0 .close, .consumer 0 .check]

set_option maxRecDepth 20000 in
theorem no_connection_leak_churn :
    ∃ x, exec step (start smallWindow .eventsStore) churn = .some x ∧ x.Stopped ∧ x.dialers.length = 3 ∧
      x.consumers.shared.consumerConns = [] ∧ ∀ conn < x.dialers.length, conn ∈ x.closed := by
  have hx : (exec step (start smallWindow .eventsStore) churn).map
      (fun x => (x.consumers.loops, x.producers, x.dialers.length)) =
      .some ([.returned], [{ ctx := 0, loop := .returned }], 3) := by decide +kernel
  obtain ⟨x, hx, h⟩ := Option.map_eq_some_iff.mp hx
  simp only [Prod.mk.injEq] at h
  obtain ⟨hloops, hproducers, hlength⟩ := h
  have hstopped : x.Stopped := by simp [Stopped, hloops, hproducers]
  exact ⟨x, hx, hstopped, hlength, (no_connection_leak smallWindow .eventsStore hx).2.2.2.2 hstopped⟩

end Connections

end Burnin
