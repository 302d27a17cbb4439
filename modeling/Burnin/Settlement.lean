/-
The channel of a queues worker and its broker (`burnin/worker/queues.go`).

The producer of the channel sends and, unless the sender is settled, waits for
the disposition of the broker. The consumers compete: each attaches a link,
handles a message before it accepts it, and goes back for a new link when
either fails. What the broker does with a message between a link's credit and
its loss is `Settle`, and nothing in it is ordered with the code but by
messages: a push, a disposition and the loss of a link come when they come. The
loss of a link is a NAck of all that is unsettled, and the broker removes a
message that was NAcked up to its cap, whether it was handled or not
(`docs/concepts/settlement-and-delivery-state.md`). The cap is the broker's own,
so here any NAck may be the last.

`queue_tracker_account` says what the tracker and the counters of the worker
have at the end of a measurement window: each attempt of the producer is one
distinct sequence received, was not stored, or was removed unhandled.
-/
import Burnin.Consumers
import Burnin.Lib.Settle
import Burnin.TrackerReorder

namespace Burnin

open Worker

/-- `WorkerSettleMode`. -/
def Config.workerSettleMode (c : Config) (name : WorkerName) : String :=
  if (c.getWorkerConfig name).settleMode ≠ "" then (c.getWorkerConfig name).settleMode
  else if c.amqp10.settleMode ≠ "" then c.amqp10.settleMode
  else "unsettled"

/-- Where `consumeLoop` of a queues worker is, or the `drainReceiver` that it
calls. The steps to a link and away from it are those of `ConsumerLoop`; here
they are one each. -/
inductive QueueConsumer where
  | connecting
  | receiving (link : Nat)
  | accepting (link : Nat) (seq : UInt64)
  | leaving (link : Nat)
  | stopped
  deriving DecidableEq

namespace QueueConsumer

/-- What a consumer does next. A call that can fail comes with how it ends. -/
inductive Section where
  /-- `Dial`, `NewSession` and `NewReceiver`, and whether the broker has a link
  even if they fail. -/
  | attach (ok : Bool) (linked : Bool)
  /-- `Receive` returns a message, and `handleDelivery` has it. -/
  | receive (seq : UInt64) (crcMismatch : Bool) (latency : Option Int)
  /-- `Receive` returns an error, or the context is cancelled before it. -/
  | receiveFailed
  /-- `AcceptMessage`, and whether a disposition is under way. -/
  | accept (err : Bool) (disposed : Bool)
  /-- `cleanupConn`. -/
  | close (cancelled : Bool)
  /-- The context is cancelled. -/
  | stop
  deriving DecidableEq

/-- Where it is then, and what the broker sees of it; a new link is `fresh`. -/
def step (fresh : Nat) : QueueConsumer → Section → Option (QueueConsumer × Option (Settle.Act UInt64))
  | .connecting, .attach true true => .some (.receiving fresh, .some .attach)
  | .connecting, .attach false linked => .some (.connecting, if linked then .some .attach else .none)
  | .connecting, .stop => .some (.stopped, .none)
  | .receiving link, .receive seq _ _ => .some (.accepting link seq, .some (.hand link seq))
  | .receiving link, .receiveFailed => .some (.leaving link, .none)
  -- An accept that returns no error has passed the disposition on.
  | .accepting link _, .accept false true => .some (.receiving link, .none)
  | .accepting link _, .accept true _ => .some (.leaving link, .none)
  | .leaving _, .close _ => .some (.connecting, .none)
  | _, _ => .none

/-- The disposition that it passes on. -/
def disposition : QueueConsumer → Section → Option (Nat × UInt64)
  | .accepting link seq, .accept _ true => .some (link, seq)
  | _, _ => .none

/-- What consumer `k` counts. -/
def Section.event (k : Nat) : Section → Option Worker.Event
  | .attach ok _ => if ok then .none else .some .error
  | .receive seq crcMismatch latency => .some (.deliver k seq crcMismatch latency)
  | .accept err _ => if err then .some .error else .none
  | .close cancelled => if cancelled then .none else .some .reconnected
  | .receiveFailed | .stop => .none

/-- A consumer hands over what it counts as delivered; it stores and removes
nothing. -/
theorem step_act {fresh k : Nat} {s s' : QueueConsumer} {sec : Section}
    {act : Option (Settle.Act UInt64)} (h : s.step fresh sec = .some (s', act)) :
    act.bind Settle.Act.hand? = (sec.event k).bind Event.delivered ∧ act.bind Settle.Act.put? = .none ∧
      (act.map Settle.Act.removed).getD [] = [] := by
  unfold step at h
  split at h
  case h_2 linked =>
    cases h
    cases linked <;> exact ⟨rfl, rfl, rfl⟩
  case h_8 link cancelled =>
    cases h
    cases cancelled <;> exact ⟨rfl, rfl, rfl⟩
  case h_9 => cases h
  all_goals
    cases h
    exact ⟨rfl, rfl, rfl⟩

end QueueConsumer

/-- A queues worker, its consumers, and the broker's side of its channel. -/
structure QueueChannel where
  worker : Worker
  consumers : List QueueConsumer
  store : Settle.Store UInt64 := {}
  /-- The dispositions under way, with the links they go over. -/
  dispositions : List (Nat × UInt64) := []

namespace QueueChannel

inductive Act where
  /-- A round of the producer, and whether the broker has stored its message. -/
  | send (o : Worker.Outcome) (stored : Bool)
  /-- `connectSender` fails. -/
  | connectFailed
  | consumer (k : Nat) (sec : QueueConsumer.Section)
  | push (link : Nat) (seq : UInt64)
  | settle (link : Nat) (seq : UInt64)
  /-- The broker loses a link, and removes what has come to its cap. -/
  | lose (link : Nat) (removed : List UInt64)
  | tick
  | detectGaps
  | resetAfterWarmup
  deriving DecidableEq

/-- What the worker counts of an action. -/
def Act.event : Act → Option Worker.Event
  | .send o _ => .some (.send o)
  | .connectFailed => .some .error
  | .consumer k sec => sec.event k
  | .tick => .some .tick
  | .detectGaps => .some .detectGaps
  | .resetAfterWarmup => .some .resetAfterWarmup
  | .push _ _ | .settle _ _ | .lose _ _ => .none

/-- What the broker removes in an action. -/
def Act.removed : Act → List UInt64
  | .lose _ removed => removed
  | _ => []

/-- The queues worker of the channel `idx`, whose consumers have been started. -/
def start (c : RunnableConfig) (idx : Nat) : QueueChannel where
  worker := newQueuesWorker c idx
  consumers := .replicate (Consumers.count c .queues) .connecting

/-- The credit of its links. -/
def credit (c : RunnableConfig) : Nat := c.cfg.amqp10.credit.toNat

/-- What the broker does, when it does something. -/
def broker (c : RunnableConfig) (s : Settle.Store UInt64) :
    Option (Settle.Act UInt64) → Option (Settle.Store UInt64)
  | .some a => s.step (credit c) a
  | .none => .some s

/-- What an action is for the broker, and the consumers and dispositions after
it; none where it is not enabled. -/
def move (c : RunnableConfig) (q : QueueChannel) :
    Act → Option (Option (Settle.Act UInt64) × List QueueConsumer × List (Nat × UInt64))
  | .send o stored =>
    -- The disposition that an unsettled `Send` waits for is of a stored message.
    if o = .accepted ∧ stored = false ∧ c.cfg.workerSettleMode .queues ≠ "settled" then .none
    else .some (if stored then .some (.put (q.worker.seq + 1)) else .none, q.consumers, q.dispositions)
  | .consumer k sec =>
    q.consumers[k]?.bind fun s => (s.step q.store.links.length sec).map fun (s', a) =>
      (a, q.consumers.set k s', q.dispositions ++ (s.disposition sec).toList)
  | .push link seq => .some (.some (.push link seq), q.consumers, q.dispositions)
  | .settle link seq =>
    if (link, seq) ∈ q.dispositions then
      .some (.some (.settle link seq), q.consumers, q.dispositions.erase (link, seq))
    else .none
  | .lose link removed => .some (.some (.lose link removed), q.consumers, q.dispositions)
  | .connectFailed | .tick | .detectGaps | .resetAfterWarmup =>
    .some (.none, q.consumers, q.dispositions)

def step (c : RunnableConfig) (q : QueueChannel) (a : Act) : Option QueueChannel :=
  (q.move c a).bind fun (act, consumers, dispositions) => (broker c q.store act).map fun store =>
    { worker := (a.event.map q.worker.step).getD q.worker, consumers, store, dispositions }

/-- The runs of a channel that was started. -/
def Runs (c : RunnableConfig) (idx : Nat) (H : List Act) (q : QueueChannel) : Prop :=
  Machine.exec (step c) (start c idx) H = .some q

/-- What the worker counts in a run. -/
def events (H : List Act) : List Worker.Event := H.filterMap Act.event

variable {c : RunnableConfig} {idx : Nat}

theorem step_eq_some {q q' : QueueChannel} {a : Act} :
    step c q a = .some q' ↔ ∃ act consumers dispositions store,
      q.move c a = .some (act, consumers, dispositions) ∧ broker c q.store act = .some store ∧
        q' = { worker := (a.event.map q.worker.step).getD q.worker, consumers, store,
               dispositions } := by
  simp only [step, Option.bind_eq_some_iff, Option.map_eq_some_iff, Prod.exists]
  constructor
  · intro h
    obtain ⟨act, consumers, dispositions, hm, store, hb, rfl⟩ := h
    exact ⟨act, consumers, dispositions, store, hm, hb, rfl⟩
  · intro h
    obtain ⟨act, consumers, dispositions, store, hm, hb, rfl⟩ := h
    exact ⟨act, consumers, dispositions, hm, store, hb, rfl⟩

/-- The sequence that an action leaves with the broker, when the worker's last
was `seq`. -/
def Act.put? (seq : UInt64) : Act → Option UInt64
  | .send _ true => .some (seq + 1)
  | _ => .none

/-- **What the broker sees of an action**: the message that the worker counts as
delivered, the one that the producer stamped, and what it removes. -/
theorem move_act {q : QueueChannel} {a : Act} {act : Option (Settle.Act UInt64)} {r}
    (h : q.move c a = .some (act, r)) :
    act.bind Settle.Act.hand? = a.event.bind Event.delivered ∧
      act.bind Settle.Act.put? = a.put? q.worker.seq ∧
      (act.map Settle.Act.removed).getD [] = a.removed := by
  cases a with
  | send o stored =>
    obtain ⟨-, h⟩ := Option.ite_none_left_eq_some.mp h
    obtain rfl := congrArg Prod.fst (Option.some.inj h)
    cases stored <;> exact ⟨rfl, rfl, rfl⟩
  | consumer k sec =>
    obtain ⟨s, -, h⟩ := Option.bind_eq_some_iff.mp h
    obtain ⟨⟨s', a⟩, hstep, h⟩ := Option.map_eq_some_iff.mp h
    obtain rfl : a = act := congrArg Prod.fst h
    exact QueueConsumer.step_act hstep
  | settle link seq =>
    obtain ⟨-, h⟩ := Option.ite_none_right_eq_some.mp h
    obtain rfl := congrArg Prod.fst (Option.some.inj h)
    exact ⟨rfl, rfl, rfl⟩
  | _ =>
    obtain rfl := congrArg Prod.fst (Option.some.inj h)
    exact ⟨rfl, rfl, rfl⟩

theorem broker_recorded {s s' : Settle.Store UInt64} {act : Option (Settle.Act UInt64)}
    (h : broker c s act = .some s') :
    s'.stored = s.stored ++ (act.bind Settle.Act.put?).toList ∧
      s'.handed = s.handed ++ (act.bind Settle.Act.hand?).toList ∧
      s'.removed = s.removed ++ (act.map Settle.Act.removed).getD [] := by
  cases act with
  | none =>
    obtain rfl := Option.some.inj h
    simp
  | some a => exact Settle.Store.step_recorded h

/-- **What a step adds** to the messages stored, handed over and removed, and
what the worker counts. -/
structure Adds (q : QueueChannel) (a : Act) (q' : QueueChannel) : Prop where
  stored : q'.store.stored = q.store.stored ++ (a.put? q.worker.seq).toList
  handed : q'.store.handed = q.store.handed ++ (a.event.bind Event.delivered).toList
  removed : q'.store.removed = q.store.removed ++ a.removed
  worker : q'.worker = q.worker.after a.event.toList

theorem step_adds {q q' : QueueChannel} {a : Act} (h : step c q a = .some q') : Adds q a q' := by
  obtain ⟨act, consumers, dispositions, store, hm, hb, rfl⟩ := step_eq_some.mp h
  obtain ⟨hstored, hhanded, hremoved⟩ := broker_recorded hb
  obtain ⟨hhand, hput, hrem⟩ := move_act hm
  rw [hput] at hstored
  rw [hhand] at hhanded
  rw [hrem] at hremoved
  refine ⟨hstored, hhanded, hremoved, ?_⟩
  cases a.event <;> rfl

theorem step_store {q q' : QueueChannel} {a : Act} (h : step c q a = .some q') :
    q'.store = q.store ∨ ∃ act, q.store.step (credit c) act = .some q'.store := by
  obtain ⟨act, consumers, dispositions, store, hm, hb, rfl⟩ := step_eq_some.mp h
  cases act with
  | none => exact .inl (Option.some.inj hb).symm
  | some act => exact .inr ⟨act, hb⟩

/-- **The broker's side of a run** is a run of the store. -/
theorem exec_store {q q' : QueueChannel} {H : List Act} (h : Machine.exec (step c) q H = .some q') :
    ∃ acts, Machine.exec (Settle.Store.step (credit c)) q.store acts = .some q'.store := by
  refine Machine.exec_rec (P := fun _ q' => ∃ acts,
    Machine.exec (Settle.Store.step (credit c)) q.store acts =
    .some q'.store) ⟨[], rfl⟩ (fun H s a s' _ ih hs => ?_) h
  obtain ⟨acts, hacts⟩ := ih
  rcases step_store hs with heq | ⟨act, hact⟩
  · exact ⟨acts, heq ▸ hacts⟩
  · exact ⟨acts ++ [act], Machine.exec_snoc_eq_some.mpr ⟨_, hacts, hact⟩⟩

theorem events_snoc (H : List Act) (a : Act) : events (H ++ [a]) = events H ++ a.event.toList :=
  Machine.filterMap_snoc Act.event H a

/-- What the broker removes in a run. -/
def removed (H : List Act) : List UInt64 := H.flatMap Act.removed

theorem exec_worker {q q' : QueueChannel} {H : List Act} (h : Machine.exec (step c) q H = .some q') :
    q'.worker = q.worker.after (events H) ∧ q'.store.handed = q.store.handed ++ deliveries (events H) ∧
      q'.store.removed = q.store.removed ++ removed H := by
  refine Machine.exec_rec (P := fun H q' => q'.worker = q.worker.after (events H) ∧
    q'.store.handed = q.store.handed ++ deliveries (events H) ∧
      q'.store.removed = q.store.removed ++ removed H)
    ⟨rfl, (List.append_nil _).symm, (List.append_nil _).symm⟩ (fun H s a s' _ ih hs => ?_) h
  obtain ⟨-, hhanded, hremoved, hworker⟩ := step_adds hs
  obtain ⟨ihworker, ihhanded, ihremoved⟩ := ih
  rw [hworker, hhanded, hremoved, ihworker, ihhanded, ihremoved, events_snoc]
  refine ⟨(List.foldl_append ..).symm, ?_, ?_⟩
  · rw [List.append_assoc]
    cases ha : a.event with
    | none => simp
    | some e => simp [deliveries_snoc]
  · simp [removed]

theorem outcomes_events_snoc (H : List Act) (a : Act) :
    outcomes (events (H ++ [a])) = outcomes (events H) ++ match a with
      | .send o _ => [o]
      | _ => [] := by
  rw [events_snoc, outcomes, List.filterMap_append]
  refine congrArg _ ?_
  cases a with
  | consumer k sec =>
    cases sec with
    | attach ok linked => cases ok <;> rfl
    | accept err disposed => cases err <;> rfl
    | close cancelled => cases cancelled <;> rfl
    | _ => rfl
  | _ => rfl

/-! ## The messages of a run -/

/-- The attempts that left nothing with the broker. -/
def unstored (H : List Act) : Nat := H.countP fun
  | .send _ false => true
  | _ => false

/-- The sequence that the producer stamps on its attempt `i` from `q` on. -/
def stamp (q : QueueChannel) (i : Nat) : UInt64 := q.worker.seq + .ofNat (i + 1)

theorem step_seq {q q' : QueueChannel} {a : Act} (h : step c q a = .some q') :
    q'.worker.seq = match a with
      | .send _ _ => q.worker.seq + 1
      | _ => q.worker.seq := by
  have hw := (step_adds h).worker
  cases a with
  | send o stored => exact hw ▸ Worker.step_seq q.worker (.send o)
  | consumer k sec =>
    cases sec with
    | receive seq crcMismatch latency =>
      exact hw ▸ Worker.step_seq q.worker (.deliver k seq crcMismatch latency)
    | attach ok linked => cases ok <;> rw [hw] <;> rfl
    | accept err disposed => cases err <;> rw [hw] <;> rfl
    | close cancelled => cases cancelled <;> rw [hw] <;> rfl
    | _ => rw [hw]; rfl
  | _ => rw [hw]; rfl

/-- **What a run stores**: the messages of some of its attempts, in order. -/
theorem stored_since {q q' : QueueChannel} {H : List Act} (h : Machine.exec (step c) q H = .some q') :
    q'.worker.seq = q.worker.seq + .ofNat (outcomes (events H)).length ∧
      ∃ kept : List Nat, kept.Sublist (List.range (outcomes (events H)).length) ∧
        kept.length + unstored H = (outcomes (events H)).length ∧
        q'.store.stored = q.store.stored ++ kept.map q.stamp := by
  refine Machine.exec_rec (P := fun H (q' : QueueChannel) =>
    q'.worker.seq = q.worker.seq + .ofNat (outcomes (events H)).length ∧
      ∃ kept : List Nat, kept.Sublist (List.range (outcomes (events H)).length) ∧
        kept.length + unstored H = (outcomes (events H)).length ∧
        q'.store.stored = q.store.stored ++ kept.map q.stamp) ?_ (fun H s a s' _ ih hs => ?_) h
  · exact ⟨by simp [events, outcomes], [], List.nil_sublist _, rfl, (List.append_nil _).symm⟩
  · obtain ⟨hseq, kept, hsub, hlen, hstored⟩ := ih
    rw [step_seq hs, (step_adds hs).stored, outcomes_events_snoc, hstored]
    cases a with
    | send o stored =>
      have hnext : s.worker.seq + 1 = q.stamp (outcomes (events H)).length := by
        rw [hseq, stamp, UInt64.ofNat_add, add_assoc]
        rfl
      rw [List.length_append, List.length_singleton, List.range_succ]
      refine ⟨hnext, ?_⟩
      cases stored with
      | true =>
        refine ⟨kept ++ [(outcomes (events H)).length], hsub.append_right _, ?_, ?_⟩
        · simp only [unstored, List.countP_append, List.length_append, List.length_singleton] at hlen ⊢
          simp
          omega
        · rw [List.map_append, ← List.append_assoc]
          exact congrArg (_ ++ [·]) hnext
      | false =>
        refine ⟨kept, hsub.trans (List.sublist_append_left _ _), ?_, List.append_nil _⟩
        simp only [unstored, List.countP_append] at hlen ⊢
        simp
        omega
    | _ =>
      dsimp only
      rw [List.append_nil]
      refine ⟨hseq, kept, hsub, ?_, List.append_nil _⟩
      simpa [unstored] using hlen

/-- While the sender is not settled, what is counted as sent was stored. -/
theorem accepted_add_unstored_le (hmode : c.cfg.workerSettleMode .queues ≠ "settled")
    {q q' : QueueChannel} {H : List Act} (h : Machine.exec (step c) q H = .some q') :
    (outcomes (events H)).count .accepted + unstored H ≤ (outcomes (events H)).length := by
  refine Machine.exec_rec (P := fun H (_ : QueueChannel) =>
    (outcomes (events H)).count .accepted + unstored H ≤ (outcomes (events H)).length) le_rfl
    (fun H s a s' _ ih hs => ?_) h
  obtain ⟨act, consumers, dispositions, store, hm, -, -⟩ := step_eq_some.mp hs
  rw [outcomes_events_snoc]
  cases a with
  | send o stored =>
    obtain ⟨hstored, -⟩ := Option.ite_none_left_eq_some.mp hm
    simp only [unstored, List.countP_append, List.count_append, List.length_append,
      List.length_singleton] at ih ⊢
    cases stored with
    | true => cases o <;> simp <;> omega
    | false =>
      have ho : o ≠ .accepted := fun ho => hstored ⟨ho, rfl, hmode⟩
      cases o with
      | accepted => exact absurd rfl ho
      | _ => simp; omega
  | _ => simpa [unstored] using ih

/-! ## The counters at the end of a measurement window -/

/-- A run with a measurement window: from an idle channel on, until nothing is
left to hand over. -/
structure Window (c : RunnableConfig) (idx : Nat) (H₁ H₂ : List Act) (q₁ q₂ : QueueChannel) : Prop where
  warmup : Runs c idx H₁ q₁
  idle : q₁.store.Idle
  run : Machine.exec (step c) q₁ (.resetAfterWarmup :: H₂) = .some q₂
  once : .resetAfterWarmup ∉ H₂
  rest : q₂.store.Rest
  noWrap : q₁.worker.seq.toNat + (outcomes (events H₂)).length < 2 ^ 64

/-- What the broker removes in a run before a consumer has handled it. -/
def dropped (H : List Act) : List UInt64 := (removed H).filter (· ∉ deliveries (events H))

namespace Window

variable {H₁ H₂ : List Act} {q₁ q₂ : QueueChannel}

theorem runs (h : Window c idx H₁ H₂ q₁ q₂) : Runs c idx (H₁ ++ .resetAfterWarmup :: H₂) q₂ :=
  Machine.exec_append_eq_some.mpr ⟨q₁, h.warmup, h.run⟩

theorem fresh (h : Window c idx H₁ H₂ q₁ q₂) : .resetAfterWarmup ∉ events H₂ := by
  intro hm
  obtain ⟨a, ha, he⟩ := List.mem_filterMap.mp hm
  cases a with
  | resetAfterWarmup => exact h.once ha
  | consumer k sec => cases sec <;> simp [Act.event, QueueConsumer.Section.event] at he
  | _ => simp [Act.event] at he

theorem measured_eq (h : Window c idx H₁ H₂ q₁ q₂) :
    measured (events (H₁ ++ .resetAfterWarmup :: H₂)) = events H₂ := by
  have hsplit : events (H₁ ++ .resetAfterWarmup :: H₂) = (events H₁ ++ [.resetAfterWarmup]) ++
      events H₂ := by
    simp [events, List.filterMap_append, Act.event]
  rw [hsplit]
  exact measured_append_of_fresh h.fresh (by rw [measured_snoc, if_pos rfl])

theorem toNat_stamp (h : Window c idx H₁ H₂ q₁ q₂) {i : Nat} (hi : i < (outcomes (events H₂)).length) :
    (q₁.stamp i).toNat = q₁.worker.seq.toNat + (i + 1) := by
  have hwrap := h.noWrap
  rw [stamp, UInt64.toNat_add, UInt64.toNat_ofNat', Nat.add_mod_mod]
  exact Nat.mod_eq_of_lt (by omega)

/-- The broker's side of a window, with nothing recorded before it. -/
structure Stored (H₂ : List Act) (q₁ q₂ : QueueChannel) (kept : List Nat)
    (r : Settle.Store UInt64) : Prop where
  sublist : kept.Sublist (List.range (outcomes (events H₂)).length)
  length : kept.length + unstored H₂ = (outcomes (events H₂)).length
  stored : r.stored = kept.map q₁.stamp
  handed : r.handed = deliveries (events H₂)
  removed : r.removed = removed H₂
  losses : r.losses = q₂.store.losses - q₁.store.losses
  rest : r.Rest

theorem exists_stored (h : Window c idx H₁ H₂ q₁ q₂) :
    ∃ kept r, Settle.Accounted (credit c) r ∧ Stored H₂ q₁ q₂ kept r := by
  obtain ⟨acts, hacts⟩ := exec_store h.run
  obtain ⟨r, hr, hstore⟩ := Settle.Store.exec_idle h.idle hacts
  obtain ⟨-, kept, hsub, hlen, hstored⟩ := stored_since h.run
  obtain ⟨-, hhanded, hremoved⟩ := exec_worker h.run
  have hrest := h.rest
  rw [hstore] at hstored hhanded hremoved hrest
  refine ⟨kept, r, hr, ?_⟩
  exact
    { sublist := hsub
      length := hlen
      stored := List.append_cancel_left hstored
      handed := List.append_cancel_left hhanded
      removed := List.append_cancel_left hremoved
      losses := by
        rw [hstore]
        exact (Nat.add_sub_cancel_left _ _).symm
      rest := hrest }

variable {kept : List Nat} {r : Settle.Store UInt64}

theorem Stored.nodup (hs : Stored H₂ q₁ q₂ kept r) (h : Window c idx H₁ H₂ q₁ q₂) : r.stored.Nodup := by
  rw [hs.stored]
  refine List.Nodup.map_on (fun i hi j hj hij => ?_) (List.nodup_range.sublist hs.sublist)
  have hi := List.mem_range.mp (hs.sublist.subset hi)
  have hj := List.mem_range.mp (hs.sublist.subset hj)
  have hnat := congrArg UInt64.toNat hij
  rw [h.toNat_stamp hi, h.toNat_stamp hj] at hnat
  omega

theorem Stored.filter_removed (hs : Stored H₂ q₁ q₂ kept r) :
    r.removed.filter (· ∉ r.handed) = dropped H₂ := by
  rw [hs.removed, hs.handed, dropped]

/-- **The account of a window**: an attempt is one distinct sequence handled, or
it was not stored, or it was removed unhandled. -/
theorem Stored.card_handled (hs : Stored H₂ q₁ q₂ kept r) (h : Window c idx H₁ H₂ q₁ q₂)
    (hr : Settle.Accounted (credit c) r) :
    (deliveries (events H₂)).toFinset.card + unstored H₂ + (dropped H₂).length =
      (outcomes (events H₂)).length := by
  have hcard := hr.card_handed hs.rest (hs.nodup h)
  rw [hs.filter_removed, hs.handed, hs.stored, List.length_map] at hcard
  have := hs.length
  omega

/-- Of a window with no attempt unstored and nothing dropped, every sequence is
handled. -/
theorem Stored.mem_deliveries (hs : Stored H₂ q₁ q₂ kept r) (h : Window c idx H₁ H₂ q₁ q₂)
    (hr : Settle.Accounted (credit c) r) (hall : unstored H₂ = 0) (hnone : dropped H₂ = []) {n : Nat} :
    n ∈ (deliveries (events H₂)).map UInt64.toNat ↔
      q₁.worker.seq.toNat < n ∧ n ≤ q₁.worker.seq.toNat + (outcomes (events H₂)).length := by
  have hkept : kept = List.range (outcomes (events H₂)).length := by
    refine hs.sublist.eq_of_length ?_
    have := hs.length
    rw [List.length_range]
    omega
  have hmem (x : UInt64) : x ∈ deliveries (events H₂) ↔
      ∃ i < (outcomes (events H₂)).length, q₁.stamp i = x := by
    have hset : x ∈ r.handed ↔ x ∈ r.stored := by
      refine ⟨fun hx => hr.handed_subset hs.rest hx, fun hx => ?_⟩
      by_contra hnot
      have hdrop : x ∈ r.removed.filter (· ∉ r.handed) :=
        (hr.filter_notMem_perm hs.rest).mem_iff.mpr (by simp [hx, hnot])
      rw [hs.filter_removed, hnone] at hdrop
      exact List.not_mem_nil hdrop
    rw [← hs.handed, hset, hs.stored, hkept, List.mem_map]
    simp [List.mem_range]
  constructor
  · intro hn
    obtain ⟨x, hx, rfl⟩ := List.mem_map.mp hn
    obtain ⟨i, hi, rfl⟩ := (hmem x).mp hx
    rw [h.toNat_stamp hi]
    omega
  · intro hn
    have hi : n - q₁.worker.seq.toNat - 1 < (outcomes (events H₂)).length := by omega
    refine List.mem_map.mpr ⟨_, (hmem _).mpr ⟨_, hi, rfl⟩, ?_⟩
    rw [h.toNat_stamp hi]
    omega

theorem trk_eq (h : Window c idx H₁ H₂ q₁ q₂) :
    q₂.worker.base.trk = Tracker.calls c.window (trackerCalls (channel .queues idx) (events H₂)) ∧
      numbers (channel .queues idx) (trackerCalls (channel .queues idx) (events H₂)) =
        (deliveries (events H₂)).map UInt64.toNat := by
  constructor
  · have hw : q₂.worker = (new c idx .queues).after (events (H₁ ++ .resetAfterWarmup :: H₂)) :=
      (exec_worker h.runs).1
    rw [hw, trk_after (show Pattern.queues ≠ .events by decide), trackerCalls, trackerCalls,
      h.measured_eq, measured_of_fresh h.fresh]
    rfl
  · rw [numbers_trackerCalls, measured_of_fresh h.fresh]

theorem sent_eq (h : Window c idx H₁ H₂ q₁ q₂) :
    q₂.worker.base.sent = (outcomes (events H₂)).count .accepted := by
  have hw : q₂.worker = (q₁.worker.step .resetAfterWarmup).after (events H₂) := (exec_worker h.run).1
  rw [hw, sent_after _ h.fresh]
  exact Nat.zero_add _

end Window

/-- The first message is handled over a link that is lost before it is settled,
and again over the next one. The second is not stored, and the third removed
while it waits at the receiver. -/
def cappedWindow : List Act :=
  [.consumer 0 (.attach true true), .send .accepted true, .push 0 1,
    .consumer 0 (.receive 1 false .none), .lose 0 [], .consumer 0 (.accept true false),
    .consumer 0 (.close false), .consumer 0 (.attach true true), .push 1 1,
    .consumer 0 (.receive 1 false .none), .consumer 0 (.accept false true), .settle 1 1,
    .send .failed false,
    .connectFailed, .send .accepted true, .push 1 3, .lose 1 [3], .consumer 0 .receiveFailed,
    .consumer 0 (.close false)]

end QueueChannel
end Burnin
