/-
The consumer side of the workers: the retry loops of their consumers,
subscribers and responders (`consumeLoop`, `subscribeLoop`, `rpcResponder.run`),
the ready signal and the registry of connections that the loops of one worker
share, and the wait of the engine for a group of workers
(`WaitForConsumerReady`).

A loop is where its goroutine is (`Pc`), and each of its steps is the outcome of
one call or one critical section. What it does with deliveries while it serves
is in the worker's own model; here a loop serves until its link goes down.

`WaitForConsumerReady` returns without an error when each worker has signalled
once. The signal is the first loop's, so it says that all loops are attached
when there is one (`ready_attached_iff`).
-/
import Burnin.Group

namespace Burnin

open Machine

/-- What a loop does once it has let go of a connection. -/
inductive Next where
  | retry
  | sleep
  | reconnect
  deriving DecidableEq, Repr

/-- Where the goroutine of a consumer loop is, with the connection it holds. -/
inductive ConsumerLoop where
  /-- before the check of its context -/
  | top
  | checked
  /-- before `registerConsumerConn` -/
  | dialed (conn : Nat)
  | connected (conn : Nat)
  | inSession (conn : Nat)
  /-- a responder, before it attaches its reply sender -/
  | receiving (conn : Nat)
  /-- before `signalReady` -/
  | attached (conn : Nat)
  | serving (conn : Nat)
  /-- before `unregisterConsumerConn` -/
  | cleanup (conn : Nat) (next : Next)
  /-- before the close of the connection -/
  | unregistered (conn : Nat) (next : Next)
  | sleeping
  | returned
  deriving DecidableEq, Repr

namespace ConsumerLoop

/-- The steps of a loop, with the outcomes of its calls. -/
inductive Event where
  | check
  | dial (conn : Option Nat)
  | register
  | session (ok : Bool)
  | receiver (ok : Bool)
  | sender (ok : Bool)
  | signalReady
  /-- the serving loop returns -/
  | linkDown
  | unregister
  | close
  | slept
  /-- `sleepCtx` is cut short -/
  | interrupted
  deriving DecidableEq, Repr

end ConsumerLoop

/-- What the consumer loops of one worker share. -/
structure ConsumerShared where
  consumerConns : List Nat := []
  /-- `consumerReady` is closed -/
  ready : Bool := false
  /-- the consumer context is cancelled -/
  cancelled : Bool := false
  errors : Nat := 0
  reconnections : Nat := 0
  deriving DecidableEq, Repr

namespace ConsumerShared

def recordError (s : ConsumerShared) : ConsumerShared := { s with errors := s.errors + 1 }

def recordReconnection (s : ConsumerShared) : ConsumerShared :=
  { s with reconnections := s.reconnections + 1 }

def registerConsumerConn (s : ConsumerShared) (conn : Nat) : ConsumerShared :=
  { s with consumerConns := s.consumerConns ++ [conn] }

def unregisterConsumerConn (s : ConsumerShared) (conn : Nat) : ConsumerShared :=
  { s with consumerConns := s.consumerConns.erase conn }

def signalReady (s : ConsumerShared) : ConsumerShared := { s with ready := true }

end ConsumerShared

namespace ConsumerLoop

/-- One step of a loop, of a responder's if it `replies`. -/
def step (replies : Bool) (loop : ConsumerLoop) (s : ConsumerShared) (e : Event) :
    Option (ConsumerLoop × ConsumerShared) :=
  match loop, e with
  | .top, .check => .some (if s.cancelled then .returned else .checked, s)
  | .checked, .dial (.some conn) => .some (.dialed conn, s)
  | .checked, .dial .none => .some (.sleeping, s.recordError)
  | .dialed conn, .register => .some (.connected conn, s.registerConsumerConn conn)
  | .connected conn, .session true => .some (.inSession conn, s)
  | .connected conn, .session false => .some (.cleanup conn .retry, s.recordError)
  | .inSession conn, .receiver true => .some (if replies then .receiving conn else .attached conn, s)
  | .inSession conn, .receiver false => .some (.cleanup conn .sleep, s.recordError)
  | .receiving conn, .sender true => .some (.attached conn, s)
  | .receiving conn, .sender false => .some (.cleanup conn .sleep, s.recordError)
  | .attached conn, .signalReady => .some (.serving conn, s.signalReady)
  | .serving conn, .linkDown => .some (.cleanup conn .reconnect, s)
  | .cleanup conn next, .unregister => .some (.unregistered conn next, s.unregisterConsumerConn conn)
  | .unregistered _ .retry, .close => .some (.top, s)
  | .unregistered _ .sleep, .close => .some (.sleeping, s)
  | .unregistered _ .reconnect, .close => .some (.top, if s.cancelled then s else s.recordReconnection)
  | .sleeping, .slept => .some (.top, s)
  | .sleeping, .interrupted => if s.cancelled then .some (.returned, s) else .none
  | _, _ => .none

end ConsumerLoop

/-- The consumer side of a worker. -/
structure Consumers where
  /-- its loops are responders, with a reply sender each -/
  replies : Bool
  loops : List ConsumerLoop
  shared : ConsumerShared := {}
  deriving DecidableEq, Repr

namespace Consumers

inductive Event where
  | loop (k : Nat) (e : ConsumerLoop.Event)
  /-- `StopConsumers` or the run's context cancels the consumer context -/
  | cancel
  deriving DecidableEq, Repr

def step (w : Consumers) : Event → Option Consumers
  | .loop k e =>
    match w.loops[k]? with
    | .none => .none
    | .some loop =>
      (loop.step w.replies w.shared e).map fun (loop, shared) =>
        { w with loops := w.loops.set k loop, shared }
  | .cancel => .some { w with shared := { w.shared with cancelled := true } }

/-- How many loops `Start` starts. -/
def count (c : RunnableConfig) (name : WorkerName) : Nat :=
  let wc := c.cfg.getWorkerConfig name
  let atLeastOne (n : Int) : Nat := if n < 1 then 1 else n.toNat
  match name with
  | .queues => atLeastOne wc.consumersPerChannel
  | .events => Worker.subscribers c
  -- A durable subscription has one claim, and credit_flow one receiver.
  | .eventsStore | .creditFlow => 1
  | .commands | .queries => atLeastOne wc.respondersPerChannel

/-- A worker after `Start`. -/
def start (c : RunnableConfig) (name : WorkerName) : Consumers where
  replies := name.isRPCWorker
  loops := .replicate (count c name) .top

end Consumers

/-- Where `WaitForConsumerReady` is: at the worker it waits for, which is past
the last once it has returned without an error. -/
inductive ReadyWait where
  | at (i : Nat)
  | timedOut
  deriving DecidableEq, Repr

/-- A group whose consumers are started, and the wait for them. -/
structure ConsumerGroup where
  workers : List Consumers
  wait : ReadyWait := .at 0
  deriving DecidableEq, Repr

namespace ConsumerGroup

inductive Event where
  | worker (j : Nat) (e : Consumers.Event)
  /-- the wait receives from `ConsumerReady` -/
  | ready
  | timeout
  deriving DecidableEq, Repr

def step (g : ConsumerGroup) : Event → Option ConsumerGroup
  | .worker j e =>
    match g.workers[j]? with
    | .none => .none
    | .some w => (w.step e).map fun w => { g with workers := g.workers.set j w }
  | .ready =>
    match g.wait with
    | .at i =>
      if g.workers[i]?.elim false (·.shared.ready) then
        .some { g with wait := .at (i + 1) }
      else .none
    | .timedOut => .none
  | .timeout =>
    match g.wait with
    | .at i => if i < g.workers.length then .some { g with wait := .timedOut } else .none
    | .timedOut => .none

/-- The group after `StartConsumers`. -/
def start (c : RunnableConfig) (name : WorkerName) : ConsumerGroup where
  workers := .replicate (c.cfg.getWorkerChannels name) (.start c name)

/-- `WaitForConsumerReady` has returned nil. -/
def Returned (g : ConsumerGroup) : Prop := g.wait = .at g.workers.length

end ConsumerGroup

/-! ## One step -/

namespace ConsumerLoop

/-- Everything that a step of a loop can do. -/
inductive Moves (replies : Bool) (s : ConsumerShared) :
    ConsumerLoop → Event → ConsumerLoop → ConsumerShared → Prop
  | check : Moves replies s .top .check (if s.cancelled then .returned else .checked) s
  | dial (conn : Nat) : Moves replies s .checked (.dial (.some conn)) (.dialed conn) s
  | dialFailed : Moves replies s .checked (.dial .none) .sleeping s.recordError
  | register (conn : Nat) : Moves replies s (.dialed conn) .register (.connected conn)
      (s.registerConsumerConn conn)
  | session (conn : Nat) : Moves replies s (.connected conn) (.session true) (.inSession conn) s
  | sessionFailed (conn : Nat) :
    Moves replies s (.connected conn) (.session false) (.cleanup conn .retry) s.recordError
  | receiver (conn : Nat) :
    Moves replies s (.inSession conn) (.receiver true)
      (if replies then .receiving conn else .attached conn) s
  | receiverFailed (conn : Nat) :
    Moves replies s (.inSession conn) (.receiver false) (.cleanup conn .sleep) s.recordError
  | sender (conn : Nat) : Moves replies s (.receiving conn) (.sender true) (.attached conn) s
  | senderFailed (conn : Nat) : Moves replies s (.receiving conn) (.sender false)
      (.cleanup conn .sleep) s.recordError
  | signalReady (conn : Nat) : Moves replies s (.attached conn) .signalReady
      (.serving conn) s.signalReady
  | linkDown (conn : Nat) : Moves replies s (.serving conn) .linkDown (.cleanup conn .reconnect) s
  | unregister (conn : Nat) (next : Next) :
    Moves replies s (.cleanup conn next) .unregister (.unregistered conn next)
      (s.unregisterConsumerConn conn)
  | closeRetry (conn : Nat) : Moves replies s (.unregistered conn .retry) .close .top s
  | closeSleep (conn : Nat) : Moves replies s (.unregistered conn .sleep) .close .sleeping s
  | closeReconnect (conn : Nat) :
    Moves replies s (.unregistered conn .reconnect) .close .top
      (if s.cancelled then s else s.recordReconnection)
  | slept : Moves replies s .sleeping .slept .top s
  | interrupted (h : s.cancelled = true) : Moves replies s .sleeping .interrupted .returned s

theorem step_moves {replies : Bool} {loop loop' : ConsumerLoop} {s s' : ConsumerShared} {e : Event}
    (h : loop.step replies s e = .some (loop', s')) : Moves replies s loop e loop' s' := by
  unfold step at h
  split at h
  case h_18 =>
    split at h
    · next hc =>
      cases h
      exact .interrupted hc
    · cases h
  case h_19 => cases h
  all_goals
    obtain ⟨rfl, rfl⟩ := Prod.mk.inj (Option.some.inj h)
    constructor

/-- The loop has a receiver and has not signalled yet. -/
def Attaching : ConsumerLoop → Prop
  | .receiving _ | .attached _ => True
  | _ => False

theorem Moves.attaching {replies : Bool} {loop loop' : ConsumerLoop} {s s' : ConsumerShared} {e : Event}
    (h : Moves replies s loop e loop' s') (ha : loop'.Attaching) :
    loop.Attaching ∨ e = .receiver true := by
  cases h with
  | receiver conn => exact .inr rfl
  | sender conn => exact .inl trivial
  | check => split at ha <;> exact ha.elim
  | _ => exact ha.elim

theorem Moves.ready {replies : Bool} {loop loop' : ConsumerLoop} {s s' : ConsumerShared} {e : Event}
    (h : Moves replies s loop e loop' s') (hr : s'.ready = true) : s.ready = true ∨ loop.Attaching := by
  cases h with
  | signalReady conn => exact .inr trivial
  | closeReconnect conn => split at hr <;> exact .inl hr
  | _ => exact .inl hr

theorem Moves.ready_of {replies : Bool} {loop loop' : ConsumerLoop} {s s' : ConsumerShared} {e : Event}
    (h : Moves replies s loop e loop' s') (hr : s.ready = true) : s'.ready = true := by
  cases h with
  | signalReady conn => rfl
  | closeReconnect conn => split <;> exact hr
  | _ => exact hr

end ConsumerLoop

namespace Consumers

/-- Everything that a step of a worker's loops can do. -/
theorem step_loop {w w' : Consumers} {k : Nat} {e : ConsumerLoop.Event}
    (h : w.step (.loop k e) = .some w') :
    ∃ loop loop' shared, w.loops[k]? = .some loop ∧ loop.Moves w.replies w.shared e loop' shared ∧
      w' = { w with loops := w.loops.set k loop', shared } := by
  cases hk : w.loops[k]? with
  | none => simp [step, hk] at h
  | some loop =>
    simp only [step, hk, Option.map_eq_some_iff, Prod.exists] at h
    obtain ⟨loop', shared, hs, rfl⟩ := h
    exact ⟨loop, loop', shared, rfl, ConsumerLoop.step_moves hs, rfl⟩

theorem step_length {w w' : Consumers} {e : Event} (h : w.step e = .some w') :
    w'.loops.length = w.loops.length := by
  cases e with
  | loop k e =>
    obtain ⟨loop, loop', shared, -, -, rfl⟩ := step_loop h
    exact List.length_set
  | cancel => cases h; rfl

theorem step_ready {w w' : Consumers} {e : Event} (h : w.step e = .some w')
    (hr : w.shared.ready = true) : w'.shared.ready = true := by
  cases e with
  | loop k e =>
    obtain ⟨loop, loop', shared, -, hm, rfl⟩ := step_loop h
    exact hm.ready_of hr
  | cancel => cases h; exact hr

/-! ## Ready and attached -/

/-- The worker's flag and its loops agree with `Has`, which says of each loop
whether it has attached a receiver. -/
structure Attached (Has : Nat → Prop) (w : Consumers) : Prop where
  attaching : ∀ k loop, w.loops[k]? = .some loop → loop.Attaching → Has k
  ready : w.shared.ready = true → ∃ k < w.loops.length, Has k

theorem Attached.mono {Has Has' : Nat → Prop} {w : Consumers} (h : w.Attached Has)
    (hi : ∀ k, Has k → Has' k) : w.Attached Has' where
  attaching k loop hk ha := hi k (h.attaching k loop hk ha)
  ready hr := by
    obtain ⟨k, hk, hh⟩ := h.ready hr
    exact ⟨k, hk, hi k hh⟩

theorem Attached.step {Has : Nat → Prop} {w w' : Consumers} {e : Event} (h : w.Attached Has)
    (hs : w.step e = .some w') : w'.Attached fun k => Has k ∨ e = .loop k (.receiver true) := by
  cases e with
  | cancel =>
    cases hs
    have h' : w.Attached fun k => Has k ∨ Event.cancel = .loop k (.receiver true) := h.mono fun _ => .inl
    exact ⟨h'.attaching, h'.ready⟩
  | loop k e =>
    obtain ⟨loop, loop', shared, hk, hm, rfl⟩ := step_loop hs
    refine ⟨fun k' loop'' hk' ha => ?_, fun hr => ?_⟩
    · by_cases hkk : k = k'
      · subst hkk
        rw [List.getElem?_set_self (List.getElem?_eq_some_iff.mp hk).1] at hk'
        cases hk'
        exact (hm.attaching ha).imp (h.attaching k loop hk) fun he => by rw [he]
      · rw [List.getElem?_set_ne hkk] at hk'
        exact .inl (h.attaching k' loop'' hk' ha)
    · rw [List.length_set]
      rcases hm.ready hr with hr | ha
      · obtain ⟨k', hk', hh⟩ := h.ready hr
        exact ⟨k', hk', .inl hh⟩
      · exact ⟨k, (List.getElem?_eq_some_iff.mp hk).1, .inl (h.attaching k loop hk ha)⟩

theorem attached_start (c : RunnableConfig) (name : WorkerName) :
    (start c name).Attached fun _ => False where
  attaching k loop hk ha := by
    obtain ⟨_, rfl⟩ := List.getElem?_eq_some_iff.mp hk
    simp [start, ConsumerLoop.Attaching] at ha
  ready hr := by cases hr

end Consumers

namespace ConsumerGroup

/-- Loop `k` of worker `j` has attached its receiver in the run `H`. -/
def HasAttached (H : List Event) (j k : Nat) : Prop := .worker j (.loop k (.receiver true)) ∈ H

/-- What a run of a group, of `m` workers with `n` loops each, leaves. -/
structure Waited (m n : Nat) (H : List Event) (g : ConsumerGroup) : Prop where
  length : g.workers.length = m
  workers : ∀ j (w : Consumers), g.workers[j]? = .some w → w.loops.length = n ∧
    w.Attached (HasAttached H j)
  waited : ∀ i, g.wait = .at i → ∀ j < i, ∀ w : Consumers, g.workers[j]? = .some w →
    w.shared.ready = true

theorem step_worker {g g' : ConsumerGroup} {j : Nat} {e : Consumers.Event}
    (h : g.step (.worker j e) = .some g') :
    ∃ w w', g.workers[j]? = .some w ∧ w.step e = .some w' ∧
      g' = { g with workers := g.workers.set j w' } := by
  cases hj : g.workers[j]? with
  | none => simp [step, hj] at h
  | some w =>
    simp only [step, hj, Option.map_eq_some_iff] at h
    obtain ⟨w', hs, rfl⟩ := h
    exact ⟨w, w', rfl, hs, rfl⟩

theorem Waited.snoc {m n : Nat} {H : List Event} {g g' : ConsumerGroup} {e : Event} (h : g.Waited m n H)
    (hs : g.step e = .some g') : g'.Waited m n (H ++ [e]) := by
  have hworkers : ∀ j (w : Consumers), g.workers[j]? = .some w →
      w.loops.length = n ∧ w.Attached (HasAttached (H ++ [e]) j) := fun j w hj =>
    (h.workers j w hj).imp_right fun ha => ha.mono fun k hk => List.mem_append_left _ hk
  cases e with
  | worker j e =>
    obtain ⟨w, w', hj, hw, rfl⟩ := step_worker hs
    have hlt := (List.getElem?_eq_some_iff.mp hj).1
    refine ⟨by rw [List.length_set, h.length], fun j' w'' hj' => ?_, fun i hi j' hj' w'' hw'' => ?_⟩
    · by_cases hjj : j = j'
      · subst hjj
        rw [List.getElem?_set_self hlt] at hj'
        cases hj'
        refine ⟨(Consumers.step_length hw).trans (h.workers j w hj).1, ?_⟩
        refine ((h.workers j w hj).2.step hw).mono fun k hk => ?_
        rcases hk with hk | rfl
        · exact List.mem_append_left _ hk
        · exact List.mem_append_right _ (List.mem_singleton_self _)
      · rw [List.getElem?_set_ne hjj] at hj'
        exact hworkers j' w'' hj'
    · by_cases hjj : j = j'
      · subst hjj
        rw [List.getElem?_set_self hlt] at hw''
        cases hw''
        exact Consumers.step_ready hw (h.waited i hi j hj' w hj)
      · rw [List.getElem?_set_ne hjj] at hw''
        exact h.waited i hi j' hj' w'' hw''
  | ready =>
    simp only [step] at hs
    split at hs
    · next i hi =>
      split at hs
      · next hr =>
        cases hs
        refine ⟨h.length, hworkers, fun i' hi' j hj w hw => ?_⟩
        cases hi'
        rcases Nat.lt_succ_iff_lt_or_eq.mp hj with hj | rfl
        · exact h.waited i hi j hj w hw
        · rw [hw] at hr
          exact hr
      · cases hs
    · cases hs
  | timeout =>
    simp only [step] at hs
    split at hs
    · split at hs
      · cases hs
        exact ⟨h.length, hworkers, fun i hi => by cases hi⟩
      · cases hs
    · cases hs

theorem waited_start (c : RunnableConfig) (name : WorkerName) :
    (start c name).Waited (c.cfg.getWorkerChannels name) (Consumers.count c name) [] where
  length := List.length_replicate
  workers j w hj := by
    obtain ⟨hlt, rfl⟩ := List.getElem?_eq_some_iff.mp hj
    simp only [start, List.getElem_replicate]
    exact ⟨List.length_replicate, (Consumers.attached_start c name).mono fun _ => False.elim⟩
  waited i hi j hj := by
    cases hi
    exact absurd hj (Nat.not_lt_zero j)

/-- **Once the wait is over** some loop of every worker has attached. -/
theorem exists_attached {c : RunnableConfig} {name : WorkerName} {H : List Event} {g : ConsumerGroup}
    (h : exec step (start c name) H = .some g) (hr : g.Returned) :
    ∀ j < c.cfg.getWorkerChannels name, ∃ k < Consumers.count c name, HasAttached H j k := by
  have hw : g.Waited (c.cfg.getWorkerChannels name) (Consumers.count c name) H :=
    exec_rec (P := Waited (c.cfg.getWorkerChannels name) (Consumers.count c name)) (waited_start c name)
      (fun H g e g' _ => Waited.snoc) h
  intro j hj
  rw [← hw.length] at hj
  have hget : g.workers[j]? = .some g.workers[j] := List.getElem?_eq_getElem hj
  obtain ⟨hlen, hatt⟩ := hw.workers j _ hget
  rw [← hlen]
  exact hatt.ready (hw.waited _ hr j hj _ hget)

/-! ### A run in which only the first loops attach -/

theorem exec_worker {g : ConsumerGroup} {j : Nat} {w w' : Consumers} (hj : g.workers[j]? = .some w)
    {es : List Consumers.Event} (h : exec Consumers.step w es = .some w') :
    exec step g (es.map (.worker j)) = .some { g with workers := g.workers.set j w' } := by
  obtain ⟨hlt, rfl⟩ := List.getElem?_eq_some_iff.mp hj
  induction es using List.reverseRecOn generalizing w' with
  | nil =>
    cases h
    rw [List.set_getElem_self]
    rfl
  | append_singleton es e ih =>
    obtain ⟨w₁, h₁, hs⟩ := exec_snoc_eq_some.mp h
    rw [List.map_append, exec_append, ih h₁]
    simp [exec_singleton, step, hlt, hs]

theorem exec_workers {w₀ w₁ : Consumers} {es : List Consumers.Event}
    (h : exec Consumers.step w₀ es = .some w₁) {m i : Nat} (hi : i ≤ m) :
    exec step { workers := .replicate m w₀ } ((List.range i).flatMap fun j => es.map (.worker j)) =
      .some { workers := .replicate i w₁ ++ .replicate (m - i) w₀ } := by
  induction i with
  | zero => simp [exec_nil]
  | succ i ih =>
    rw [List.range_succ, List.flatMap_append, exec_append, ih (by omega)]
    obtain ⟨l, hl⟩ : ∃ l, m - i = l + 1 := ⟨m - (i + 1), by omega⟩
    have hl' : m - (i + 1) = l := by omega
    have hget : (List.replicate i w₁ ++ w₀ :: List.replicate l w₀)[i]? = .some w₀ := by
      rw [List.getElem?_append_right (by simp)]
      simp
    have hset : (List.replicate i w₁ ++ w₀ :: List.replicate l w₀).set i w₁ =
        List.replicate (i + 1) w₁ ++ List.replicate l w₀ := by
      rw [List.set_append_right _ _ (by simp), List.replicate_succ']
      simp
    rw [hl, hl', List.replicate_succ, Option.bind_some, List.flatMap_singleton, exec_worker hget h]
    exact congrArg (fun ws => Option.some (ConsumerGroup.mk ws (.at 0))) hset

theorem exec_ready {w : Consumers} (hr : w.shared.ready = true) {m i : Nat} (hi : i ≤ m) :
    exec step { workers := .replicate m w } (.replicate i .ready) =
      .some { workers := .replicate m w, wait := .at i } := by
  induction i with
  | zero => rfl
  | succ i ih =>
    rw [List.replicate_succ', exec_append, ih (by omega), Option.bind_some, exec_singleton]
    have hlt : i < m := hi
    simp [step, hlt, hr]

/-- How the first loop of a worker attaches. -/
def attachFirst (replies : Bool) : List Consumers.Event :=
  [.loop 0 .check, .loop 0 (.dial (.some 0)), .loop 0 .register, .loop 0 (.session true),
    .loop 0 (.receiver true)] ++
    (if replies then [.loop 0 (.sender true)] else []) ++ [.loop 0 .signalReady]

theorem exec_attachFirst (replies : Bool) (loops : List ConsumerLoop) :
    exec Consumers.step { replies, loops := .top :: loops } (attachFirst replies) =
      .some { replies, loops := .serving 0 :: loops,
              shared := { consumerConns := [0], ready := true } } := by
  cases replies <;> rfl

/-- A run of `m` workers in which the first loop of each attaches, and then the
wait ends. -/
def onlyFirst (replies : Bool) (m : Nat) : List Event :=
  ((List.range m).flatMap fun j => (attachFirst replies).map (.worker j)) ++ .replicate m .ready

theorem exec_onlyFirst {replies : Bool} {w : Consumers} {loops : List ConsumerLoop}
    (hw : w = { replies, loops := .top :: loops }) (m : Nat) :
    ∃ g, exec step { workers := .replicate m w } (onlyFirst replies m) = .some g ∧ g.Returned := by
  subst hw
  rw [onlyFirst, exec_append, exec_workers (exec_attachFirst replies loops) (Nat.le_refl m),
    Option.bind_some, Nat.sub_self, List.replicate_zero, List.append_nil, exec_ready rfl (Nat.le_refl m)]
  exact ⟨_, rfl, congrArg ReadyWait.at (List.length_replicate).symm⟩

theorem not_hasAttached_onlyFirst (replies : Bool) (m j : Nat) :
    ¬ HasAttached (onlyFirst replies m) j 1 := by
  cases replies <;> simp [HasAttached, onlyFirst, attachFirst]

end ConsumerGroup

theorem Config.getWorkerChannels_pos (c : Config) (name : WorkerName) :
    0 < c.getWorkerChannels name := by
  unfold getWorkerChannels
  dsimp only
  split <;> omega

theorem Consumers.count_pos (c : RunnableConfig) (name : WorkerName) : 0 < count c name := by
  cases name <;> simp only [count]
  case events => exact Worker.subscribers_pos c
  case eventsStore | creditFlow => exact Nat.one_pos
  all_goals split <;> omega

/-- **When ready means attached.** Whatever the loops of a group's workers do,
each of them has attached its receiver by the time `WaitForConsumerReady`
returns without an error, exactly when the workers have one loop each. -/
theorem ready_attached_iff (c : RunnableConfig) (name : WorkerName) :
    (∀ H g, exec ConsumerGroup.step (.start c name) H = .some g → g.Returned →
        ∀ j < c.cfg.getWorkerChannels name, ∀ k < Consumers.count c name,
          ConsumerGroup.HasAttached H j k) ↔
      Consumers.count c name = 1 := by
  refine ⟨fun h => ?_, fun h1 H g hg hr j hj k hk => ?_⟩
  · by_contra hne
    have hpos := Consumers.count_pos c name
    obtain ⟨n, hn⟩ : ∃ n, Consumers.count c name = n + 1 := ⟨Consumers.count c name - 1, by omega⟩
    have hstart : Consumers.start c name =
        { replies := name.isRPCWorker, loops := .top :: .replicate n .top } := by
      rw [Consumers.start, hn, List.replicate_succ]
    obtain ⟨g, hg, hr⟩ := ConsumerGroup.exec_onlyFirst hstart (c.cfg.getWorkerChannels name)
    exact ConsumerGroup.not_hasAttached_onlyFirst _ _ 0
      (h _ g hg hr 0 (c.cfg.getWorkerChannels_pos name) 1 (by omega))
  · obtain ⟨k', hk', ha⟩ := ConsumerGroup.exists_attached hg hr j hj
    obtain rfl : k' = k := by omega
    exact ha

/-- The events worker of the defaults has two subscribers, and the wait is over
when the first is attached and the second has not yet dialed. -/
theorem ready_before_attached :
    ∃ g, exec ConsumerGroup.step (.start smallWindow .events) (ConsumerGroup.onlyFirst false 1) =
      .some g ∧
      g.Returned ∧ g.workers.map (·.loops) = [[.serving 0, .top]] ∧
      ¬ ConsumerGroup.HasAttached (ConsumerGroup.onlyFirst false 1) 0 1 :=
  ⟨_, rfl, rfl, rfl, ConsumerGroup.not_hasAttached_onlyFirst false 1 0⟩

end Burnin
