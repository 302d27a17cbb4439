/-
The channel of an events worker and its broker (`burnin/worker/events.go`).

The producer numbers its messages and sends them settled, so that no outcome of
`Send` says whether one has arrived. Each subscriber attaches a link of its own
and goes back for another when it is lost. The broker copies what arrives to
the links that are up; what it does and what it loses is `FanOut`. A link is up
at the broker some time after it was asked for, before or after `NewReceiver`
returns and the subscriber signals that it is ready
(`docs/concepts/pub-sub.md`).

* `events_missing_eq`: what the tracker of a subscriber takes for missing, in
  every run, message by message;
* `events_healthy_lost`: what `ExtraLost` is on a healthy broker. The producer
  starts when the first subscriber is ready, and what is published before the
  link of a subscriber is up counts as lost for good.
-/
import Mathlib.Order.Lattice.Nat
import Burnin.Lib.FanOut
import Burnin.Undisturbed

namespace Burnin

open Worker

/-- Where `subscribeLoop` of an events worker is, or the `drainSub` that it
calls. The connection and its registry are in `ConsumerLoop`. -/
inductive Subscriber where
  | connecting
  /-- in `NewReceiver` -/
  | asking
  /-- before `signalReady` -/
  | attached
  | receiving
  | accepting
  | leaving
  | stopped
  deriving DecidableEq, Repr

namespace Subscriber

/-- What a subscriber does next. A call that can fail comes with how it ends. -/
inductive Section where
  /-- `Dial` and `NewSession`, after which `NewReceiver` asks for a link. -/
  | dial (ok : Bool)
  /-- `NewReceiver` returns. -/
  | attach (ok : Bool)
  | signalReady
  /-- `Receive` returns a message, and it is recorded. -/
  | receive (seq : UInt64) (crcMismatch : Bool) (latency : Option Int)
  /-- `Receive` returns an error, or the context is cancelled before it. -/
  | receiveFailed
  | accept (err : Bool)
  /-- `cleanupConn`. -/
  | close (cancelled : Bool)
  /-- The context is cancelled. -/
  | stop
  deriving DecidableEq

def step : Subscriber → Section → Option Subscriber
  | .connecting, .dial true => .some .asking
  | .connecting, .dial false => .some .connecting
  | .connecting, .stop => .some .stopped
  | .asking, .attach true => .some .attached
  | .asking, .attach false => .some .connecting
  | .attached, .signalReady => .some .receiving
  | .receiving, .receive _ _ _ => .some .accepting
  | .receiving, .receiveFailed => .some .leaving
  | .accepting, .accept false => .some .receiving
  | .accepting, .accept true => .some .leaving
  | .leaving, .close _ => .some .connecting
  | _, _ => .none

/-- What the broker sees of subscriber `k`. -/
def Section.act (k : Nat) : Section → Option (FanOut.Act UInt64)
  | .dial ok => if ok then .some (.ask k) else .none
  -- The connection is closed when there is no receiver.
  | .attach ok => if ok then .none else .some (.lose k 0)
  | .receive seq _ _ => .some (.hand k seq)
  | .close _ => .some (.lose k 0)
  | .signalReady | .receiveFailed | .accept _ | .stop => .none

/-- What subscriber `k` counts. It does not count a failed accept. -/
def Section.event (k : Nat) : Section → Option Worker.Event
  | .dial ok | .attach ok => if ok then .none else .some .error
  | .receive seq crcMismatch latency => .some (.deliver k seq crcMismatch latency)
  | .close cancelled => if cancelled then .none else .some .reconnected
  | .signalReady | .receiveFailed | .accept _ | .stop => .none

/-- How many links it has asked for, when it has not left one. -/
def links : Subscriber → Nat
  | .asking | .attached | .receiving | .accepting => 1
  | .connecting | .leaving | .stopped => 0

end Subscriber

/-- An events worker, its subscribers, and the broker's side of its channel. -/
structure EventsChannel where
  worker : Worker
  subscribers : List Subscriber
  topic : FanOut.Topic UInt64
  /-- A subscriber has signalled that it is ready. -/
  ready : Bool := false

namespace EventsChannel

inductive Act where
  /-- A round of the producer, with the sequence that it stamps. What becomes of
  the message is the network's and the broker's. -/
  | send (seq : UInt64) (o : Worker.Outcome)
  /-- `connectSender` fails. -/
  | connectFailed
  | subscriber (k : Nat) (sec : Subscriber.Section)
  /-- The link of subscriber `k` is up at the broker. -/
  | up (k : Nat)
  | publish (seq : UInt64) (full : List Nat)
  | vanish (seq : UInt64)
  | lose (k : Nat) (n : Nat)
  | tick
  | detectGaps
  | resetAfterWarmup
  deriving DecidableEq

namespace Act

/-- What the worker counts of an action. -/
def event : Act → Option Worker.Event
  | .send _ o => .some (.send o)
  | .connectFailed => .some .error
  | .subscriber k sec => sec.event k
  | .tick => .some .tick
  | .detectGaps => .some .detectGaps
  | .resetAfterWarmup => .some .resetAfterWarmup
  | .up _ | .publish _ _ | .vanish _ | .lose _ _ => .none

/-- What an action is for the broker. -/
def act : Act → Option (FanOut.Act UInt64)
  | .send seq _ => .some (.send seq)
  | .subscriber k sec => sec.act k
  | .up k => .some (.up k)
  | .publish seq full => .some (.publish seq full)
  | .vanish seq => .some (.vanish seq)
  | .lose k n => .some (.lose k n)
  | .connectFailed | .tick | .detectGaps | .resetAfterWarmup => .none

/-- The subscriber that signals in an action. -/
def ready? : Act → Option Nat
  | .subscriber k .signalReady => .some k
  | _ => .none

end Act

/-- The events worker of the channel `idx`, whose subscribers have been started. -/
def start (c : RunnableConfig) (idx : Nat) : EventsChannel where
  worker := newEventsWorker c idx
  subscribers := .replicate (Worker.subscribers c) .connecting
  topic := { subs := .replicate (Worker.subscribers c) {} }

/-- The subscribers after an action; none where they do not allow it. -/
def move (q : EventsChannel) : Act → Option (List Subscriber)
  -- `StartProducers` follows the ready signal.
  | .send seq _ => if q.ready ∧ seq = q.worker.seq + 1 then .some q.subscribers else .none
  | .connectFailed => if q.ready then .some q.subscribers else .none
  | .subscriber k sec => q.subscribers[k]?.bind fun s => (s.step sec).map (q.subscribers.set k)
  | _ => .some q.subscribers

/-- The broker after an action. -/
def broker (t : FanOut.Topic UInt64) : Option (FanOut.Act UInt64) → Option (FanOut.Topic UInt64)
  | .some a => t.step a
  | .none => .some t

def step (q : EventsChannel) (a : Act) : Option EventsChannel :=
  (q.move a).bind fun subscribers => (broker q.topic a.act).map fun topic =>
    { worker := q.worker.after a.event.toList
      subscribers
      topic
      ready := q.ready || a.ready?.isSome }

/-- The runs of a channel that was started. -/
def Runs (c : RunnableConfig) (idx : Nat) (H : List Act) (q : EventsChannel) : Prop :=
  Machine.exec step (start c idx) H = .some q

/-- What the worker counts in a run. -/
def events (H : List Act) : List Worker.Event := H.filterMap Act.event

/-- What the broker does in a run. -/
def acts (H : List Act) : List (FanOut.Act UInt64) := H.filterMap Act.act

variable {c : RunnableConfig} {idx : Nat} {q q' : EventsChannel} {a : Act} {H : List Act}

theorem step_eq_some :
    q.step a = .some q' ↔ ∃ subscribers topic, q.move a = .some subscribers ∧
      broker q.topic a.act = .some topic ∧
      q' = { worker := q.worker.after a.event.toList, subscribers, topic,
             ready := q.ready || a.ready?.isSome } := by
  simp only [step, Option.bind_eq_some_iff, Option.map_eq_some_iff]
  constructor
  · intro h
    obtain ⟨subscribers, hm, topic, hb, rfl⟩ := h
    exact ⟨subscribers, topic, hm, hb, rfl⟩
  · intro h
    obtain ⟨subscribers, topic, hm, hb, rfl⟩ := h
    exact ⟨subscribers, hm, topic, hb, rfl⟩

theorem events_snoc (H : List Act) (a : Act) : events (H ++ [a]) = events H ++ a.event.toList :=
  Machine.filterMap_snoc Act.event H a

theorem acts_snoc (H : List Act) (a : Act) : acts (H ++ [a]) = acts H ++ a.act.toList :=
  Machine.filterMap_snoc Act.act H a

/-- The sequence that an action stamps. -/
def Act.stamp : Act → Option UInt64
  | .send seq _ => .some seq
  | _ => .none

/-- **What an action is to the worker and to the broker**: a subscriber counts as
delivered what it was handed, and the producer sends what it stamps. -/
theorem Act.spec (a : Act) :
    (∀ k, a.event.bind (Event.deliveredTo k) = a.act.bind (FanOut.Act.handTo k)) ∧
      a.act.bind FanOut.Act.send? = a.stamp ∧
      (a.event.bind Event.outcome).toList.length = a.stamp.toList.length := by
  cases a with
  | subscriber k' sec =>
    cases sec with
    | dial ok => cases ok <;> exact ⟨fun _ => rfl, rfl, rfl⟩
    | attach ok => cases ok <;> exact ⟨fun _ => rfl, rfl, rfl⟩
    | close cancelled => cases cancelled <;> exact ⟨fun _ => rfl, rfl, rfl⟩
    | _ => exact ⟨fun _ => rfl, rfl, rfl⟩
  | _ => exact ⟨fun _ => rfl, rfl, rfl⟩

/-! ## The worker and the broker over a run -/

theorem exec_worker (h : Runs c idx H q) : q.worker = (new c idx .events).after (events H) := by
  refine Machine.exec_rec (P := fun H (q : EventsChannel) => q.worker =
    (new c idx .events).after (events H)) rfl ?_ h
  intro H s a s' _ ih hs
  obtain ⟨subscribers, topic, -, -, rfl⟩ := step_eq_some.mp hs
  dsimp only
  rw [ih, events_snoc]
  exact (List.foldl_append ..).symm

/-- **The broker's side of a run** is a run of the topic. -/
theorem exec_topic (h : Runs c idx H q) :
    Machine.exec FanOut.Topic.step { subs := .replicate (Worker.subscribers c) {} } (acts H) =
      .some q.topic := by
  refine Machine.exec_rec (P := fun H (q : EventsChannel) =>
    Machine.exec FanOut.Topic.step { subs := .replicate (Worker.subscribers c) {} } (acts H) =
      .some q.topic) rfl ?_ h
  intro H s a s' _ ih hs
  obtain ⟨subscribers, topic, -, hb, rfl⟩ := step_eq_some.mp hs
  rw [acts_snoc]
  cases ha : a.act with
  | none =>
    rw [ha] at hb
    obtain rfl := Option.some.inj hb
    simpa using ih
  | some act =>
    rw [ha] at hb
    exact Machine.exec_snoc_eq_some.mpr ⟨_, ih, hb⟩

theorem handed_eq (h : Runs c idx H q) {k : Nat} {s : FanOut.Subscription UInt64}
    (hk : q.topic.subs[k]? = .some s) : s.handed = deliveriesTo k (events H) := by
  rw [FanOut.Topic.exec_handed (exec_topic h) hk, deliveriesTo, events, acts, List.filterMap_filterMap,
    List.filterMap_filterMap]
  refine congrArg (fun f => H.filterMap f) ?_
  funext a
  exact (a.spec.1 k).symm

theorem stamped_snoc (H : List Act) (a : Act) :
    (outcomes (events (H ++ [a]))).length = (outcomes (events H)).length + a.stamp.toList.length := by
  rw [events_snoc, outcomes, List.filterMap_append, List.length_append, ← a.spec.2.2]
  cases a.event with
  | none => rfl
  | some e => cases ho : e.outcome <;> simp [outcomes, ho]

theorem step_sent (h : q.step a = .some q') : q'.topic.sent = q.topic.sent ++ a.stamp.toList := by
  obtain ⟨subscribers, topic, -, hb, rfl⟩ := step_eq_some.mp h
  rw [← a.spec.2.1]
  cases ha : a.act with
  | none =>
    rw [ha] at hb
    obtain rfl := Option.some.inj hb
    exact (List.append_nil _).symm
  | some act =>
    rw [ha] at hb
    obtain ⟨-, rfl⟩ := FanOut.Topic.step_eq_some.mp hb
    rfl

/-- **The producer sends** the sequences from 1 on. -/
theorem sent_eq (h : Runs c idx H q) :
    q.topic.sent = SubTracker.sequences (outcomes (events H)).length := by
  refine Machine.exec_rec (P := fun H (q : EventsChannel) =>
    q.topic.sent = SubTracker.sequences (outcomes (events H)).length) rfl ?_ h
  intro H s a s' hs ih hstep
  rw [step_sent hstep, ih, stamped_snoc]
  obtain ⟨subscribers, topic, hm, hb, rfl⟩ := step_eq_some.mp hstep
  cases a with
  | send seq o =>
    obtain ⟨⟨-, rfl⟩, -⟩ := Option.ite_none_right_eq_some.mp hm
    have hseq : s.worker.seq + 1 = .ofNat ((outcomes (events H)).length + 1) := by
      rw [exec_worker hs, seq_after, UInt64.ofNat_add]
      exact congrArg (· + 1) (zero_add _)
    rw [Act.stamp, Option.toList_some, List.length_singleton, SubTracker.sequences_succ, hseq]
  | _ => exact List.append_nil _

theorem exists_sub (h : Runs c idx H q) {k : Nat} (hk : k < Worker.subscribers c) :
    ∃ s, q.topic.subs[k]? = .some s := by
  have hlength := (FanOut.Topic.exec_sent (exec_topic h)).2.2
  exact ⟨_, List.getElem?_eq_getElem (hlength.symm ▸ hk)⟩

theorem accounted (h : Runs c idx H q) : FanOut.Accounted q.topic :=
  (FanOut.Accounted.start _).exec (exec_topic h)

/-! ## What is missing -/

/-- The tracker of subscriber `k` after a run. -/
def tracker (H : List Act) (k : Nat) : SubTracker := .after (deliveriesTo k (events H))

theorem detectors_eq (h : Runs c idx H q) :
    q.worker.detectors = .subTrackers ((List.range (Worker.subscribers c)).map (tracker H)) := by
  rw [exec_worker h, detectors_after]
  rfl

/-- **What a subscriber misses**, of what was sent up to the last that it was
handed. -/
theorem missing_eq (h : Runs c idx H q) (hn : (outcomes (events H)).length < 2 ^ 64) {k : Nat}
    {s : FanOut.Subscription UInt64} (hk : q.topic.subs[k]? = .some s) :
    s.handed.Nodup ∧
      (tracker H k).missing = (q.topic.elsewhere s).countP (· ≤ (tracker H k).lastSeq) := by
  have hmem := List.mem_of_getElem? hk
  have hperm := accounted h s hmem
  rw [sent_eq h] at hperm
  refine ⟨(hperm.nodup_iff.mpr (SubTracker.nodup_sequences hn)).of_append_left, ?_⟩
  rw [tracker, ← handed_eq h hk]
  exact SubTracker.missing_of_perm hn hperm

/-- **At most once, message by message.** In every run, whatever vanishes, is
dropped or is lost with a link, and in whatever order the messages arrive: no
delivery is counted as a duplicate, and what the tracker of a subscriber takes
for missing are the sequences up to its last that it was not handed. Each of
these is under way, has vanished, waits for the subscriber, or was missed by it
for a cause; a failed attempt, whose sequence is not used again, is one of
those that vanished. -/
theorem events_missing_eq (h : Runs c idx H q) (hn : (outcomes (events H)).length < 2 ^ 64) :
    q.worker.base.duplicated = 0 ∧
      ∃ ts, q.worker.detectors = .subTrackers ts ∧ ∀ k < Worker.subscribers c, ∃ t s,
        ts[k]? = .some t ∧ q.topic.subs[k]? = .some s ∧
          t.missing = (q.topic.elsewhere s).countP (· ≤ t.lastSeq) := by
  constructor
  · rw [exec_worker h]
    refine Unrepeated.duplicated ⟨fun hp => absurd rfl hp, ?_, fun hp => by cases hp⟩
    intro _ k hk
    obtain ⟨s, hs⟩ := exists_sub h hk
    rw [← handed_eq h hs]
    exact (missing_eq h hn hs).1
  · refine ⟨_, detectors_eq h, ?_⟩
    intro k hk
    obtain ⟨s, hs⟩ := exists_sub h hk
    refine ⟨tracker H k, s, ?_, hs, (missing_eq h hn hs).2⟩
    rw [List.getElem?_map, List.getElem?_range hk]
    rfl

/-- An attempt that fails, a copy that is dropped, and one that is lost with a
link. -/
def brokenLinks : List Act :=
  [.subscriber 0 (.dial true), .subscriber 1 (.dial true), .up 0, .subscriber 0 (.attach true), .up 1,
    .subscriber 0 .signalReady, .subscriber 1 (.attach true), .subscriber 1 .signalReady, .connectFailed,
    .send 1 .failed, .vanish 1, .send 2 .accepted, .publish 2 [1],
    .subscriber 0 (.receive 2 false .none),
    .subscriber 0 (.accept false), .send 3 .accepted, .publish 3 [], .lose 0 0,
    .subscriber 0 .receiveFailed,
    .subscriber 0 (.close false), .subscriber 1 (.receive 3 false .none),
    .subscriber 0 (.dial true), .up 0,
    .subscriber 0 (.attach true), .subscriber 0 .signalReady, .send 4 .accepted, .publish 4 [],
    .subscriber 0 (.receive 4 false .none)]

theorem events_missing_brokenLinks :
    ∃ q, Runs smallWindow 1 brokenLinks q ∧ (outcomes (events brokenLinks)).length < 2 ^ 64 ∧
      q.worker.base.duplicated = 0 ∧ ∃ ts, q.worker.detectors = .subTrackers ts ∧
        ∀ k < Worker.subscribers smallWindow, ∃ t s, ts[k]? = .some t ∧ q.topic.subs[k]? = .some s ∧
          t.missing = (q.topic.elsewhere s).countP (· ≤ t.lastSeq) := by
  have hsome : (Machine.exec step (start smallWindow 1) brokenLinks).isSome := by decide +kernel
  obtain ⟨q, hq⟩ := Option.isSome_iff_exists.mp hsome
  exact ⟨q, hq, by decide, events_missing_eq hq (by decide)⟩

/-! ## A healthy broker -/

/-- What arrives in a run, in the order of arrival. -/
def published (H : List Act) : List UInt64 := FanOut.publishes (acts H)

/-- What has arrived before the link of subscriber `k` is up. -/
def before (k : Nat) (H : List Act) : List UInt64 := FanOut.before k (acts H)

/-- Every message arrives, in order, and is copied to every link; no link goes
down, and no subscriber leaves one. -/
structure Healthy (H : List Act) : Prop where
  arrives : ∀ seq, .vanish seq ∉ H
  ordered : (published H).Pairwise (· < ·)
  room : ∀ seq full, .publish seq full ∈ H → full = []
  stays : ∀ k n, .lose k n ∉ H
  serves : ∀ k, ∀ sec ∈ [Subscriber.Section.attach false, .receiveFailed, .accept true],
    .subscriber k sec ∉ H

/-- Nothing is under way, and nothing waits for a subscriber. -/
def Rest (q : EventsChannel) : Prop := q.topic.transit = [] ∧ ∀ s ∈ q.topic.subs, s.waiting = []

/-- What a subscriber does that has no reason to leave: it asks for its link, or
keeps the links it has and does not let go of one. -/
theorem Subscriber.step_serves {s s' : Subscriber} {sec : Subscriber.Section} (h : s.step sec = .some s')
    (hs : s ≠ .leaving) (hsec : sec ∉ [Subscriber.Section.attach false, .receiveFailed, .accept true]) :
    s' ≠ .leaving ∧ ((sec = .dial true ∧ s.links = 0 ∧ s'.links = 1) ∨
      (s'.links = s.links ∧ ∀ k, (∀ k', sec.act k ≠ .some (.ask k')) ∧
        ∀ k' n, sec.act k ≠ .some (.lose k' n))) := by
  unfold Subscriber.step at h
  split at h
  case h_1 =>
    cases h
    exact ⟨by decide, .inl ⟨rfl, rfl, rfl⟩⟩
  case h_5 | h_8 | h_10 => exact absurd (by decide) hsec
  case h_11 => exact absurd rfl hs
  case h_12 => cases h
  all_goals
    cases h
    refine ⟨by decide, .inr ⟨rfl, ?_⟩⟩
    intro k
    simp [Subscriber.Section.act]

/-- The links that the subscribers of a healthy run have asked for, and that none
is lost. -/
structure Kept (H : List Act) (subscribers : List Subscriber) : Prop where
  serving : .leaving ∉ subscribers
  asked : ∀ k, (acts H).count (.ask k) = (subscribers[k]?.map Subscriber.links).getD 0
  stays : ∀ k n, .lose k n ∉ acts H

theorem Kept.snoc {subscribers subscribers' : List Subscriber} (h : Kept H subscribers)
    (hserving : .leaving ∉ subscribers')
    (hlinks : ∀ k : Nat, (subscribers'[k]?.map Subscriber.links).getD 0 =
      (subscribers[k]?.map Subscriber.links).getD 0)
    (hask : ∀ k, a.act ≠ .some (.ask k)) (hlose : ∀ k n, a.act ≠ .some (.lose k n)) :
    Kept (H ++ [a]) subscribers' where
  serving := hserving
  asked := by
    intro k
    rw [acts_snoc, List.count_append, h.asked, hlinks, List.count_eq_zero_of_not_mem, Nat.add_zero]
    rw [Option.mem_toList]
    exact hask k
  stays := by
    intro k n hm
    rw [acts_snoc, List.mem_append, Option.mem_toList] at hm
    exact hm.elim (h.stays k n) (hlose k n)

theorem links_set {subscribers : List Subscriber} {k : Nat} {s : Subscriber}
    (hk : subscribers[k]? = .some s) (s' : Subscriber) (i : Nat) :
    ((subscribers.set k s')[i]?.map Subscriber.links).getD 0 =
      if k = i then s'.links else (subscribers[i]?.map Subscriber.links).getD 0 := by
  have hlt : k < subscribers.length := (List.getElem?_eq_some_iff.mp hk).1
  rw [List.getElem?_set, if_pos hlt]
  split <;> rfl

theorem Kept.step {s s' : EventsChannel} (h : Kept H s.subscribers) (hs : s.step a = .some s')
    (hh : Healthy (H ++ [a])) : Kept (H ++ [a]) s'.subscribers := by
  obtain ⟨subscribers, topic, hm, -, rfl⟩ := step_eq_some.mp hs
  have hlast : a ∈ H ++ [a] := by simp
  cases a with
  | subscriber k sec =>
    obtain ⟨sub, hk, hm⟩ := Option.bind_eq_some_iff.mp hm
    obtain ⟨sub', hstep, rfl⟩ := Option.map_eq_some_iff.mp hm
    have hleaving : sub ≠ .leaving := fun hl => h.serving (hl ▸ List.mem_of_getElem? hk)
    obtain ⟨hserves, hcases⟩ := Subscriber.step_serves hstep hleaving fun hsec =>
      hh.serves k sec hsec hlast
    have hserving : .leaving ∉ s.subscribers.set k sub' := by
      intro hm
      exact (List.mem_or_eq_of_mem_set hm).elim h.serving fun he => hserves he.symm
    rcases hcases with ⟨rfl, hzero, hone⟩ | ⟨hsame, hact⟩
    · refine ⟨hserving, ?_, ?_⟩
      · intro i
        rw [acts_snoc, List.count_append, h.asked, links_set hk]
        by_cases hi : k = i
        · subst hi
          rw [if_pos rfl, hk, hone]
          simp [hzero, Act.act, Subscriber.Section.act]
        · rw [if_neg hi]
          simp [Act.act, Subscriber.Section.act, hi]
      · intro i n hm
        rw [acts_snoc, List.mem_append] at hm
        exact hm.elim (h.stays i n) (by simp [Act.act, Subscriber.Section.act])
    · refine h.snoc hserving ?_ (hact k).1 (hact k).2
      intro i
      rw [links_set hk, hsame]
      split
      · next hi => rw [← hi, hk]; rfl
      · rfl
  | send seq o | connectFailed =>
    obtain ⟨-, hm⟩ := Option.ite_none_right_eq_some.mp hm
    obtain rfl := Option.some.inj hm
    exact h.snoc h.serving (fun _ => rfl) (by simp [Act.act]) (by simp [Act.act])
  | lose k n => exact absurd hlast (hh.stays k n)
  | _ =>
    obtain rfl := Option.some.inj hm
    exact h.snoc h.serving (fun _ => rfl) (by simp [Act.act]) (by simp [Act.act])

theorem acts_append (H K : List Act) : acts (H ++ K) = acts H ++ acts K := List.filterMap_append

theorem Healthy.of_append {K : List Act} (h : Healthy (H ++ K)) : Healthy H where
  arrives := fun seq hm => h.arrives seq (List.mem_append_left _ hm)
  ordered := by
    have hord := h.ordered
    rw [published, acts_append, FanOut.publishes, List.filterMap_append] at hord
    exact (List.pairwise_append.mp hord).1
  room := fun seq full hm => h.room seq full (List.mem_append_left _ hm)
  stays := fun k n hm => h.stays k n (List.mem_append_left _ hm)
  serves := fun k sec hsec hm => h.serves k sec hsec (List.mem_append_left _ hm)

theorem Healthy.kept (hh : Healthy H) (h : Runs c idx H q) : Kept H q.subscribers := by
  refine Machine.exec_rec (P := fun H (q : EventsChannel) => Healthy H → Kept H q.subscribers) ?_ ?_ h hh
  · intro _
    refine ⟨?_, ?_, fun _ _ => List.not_mem_nil⟩
    · intro hm
      cases List.eq_of_mem_replicate hm
    · intro k
      simp only [start, List.getElem?_replicate]
      split <;> rfl
  · intro H s a s' _ ih hs hh
    exact (ih hh.of_append).step hs hh

/-- Only the network and the broker decide what arrives. -/
theorem Act.eq_of_act {a : Act} {act : FanOut.Act UInt64} (h : a.act = .some act) :
    match act with
    | .vanish seq => a = .vanish seq
    | .publish seq full => a = .publish seq full
    | _ => True := by
  cases a with
  | subscriber k sec =>
    cases sec with
    | dial ok =>
      cases ok with
      | true => cases h; trivial
      | false => cases h
    | attach ok =>
      cases ok with
      | true => cases h
      | false => cases h; trivial
    | receive seq crcMismatch latency => cases h; trivial
    | close cancelled => cases h; trivial
    | _ => cases h
  | connectFailed | tick | detectGaps | resetAfterWarmup => cases h
  | _ => cases h; trivial

/-- **A healthy run is steady** for the broker. -/
theorem Healthy.steady (hh : Healthy H) (h : Runs c idx H q) : FanOut.Steady (acts H) where
  arrives := by
    intro seq hm
    obtain ⟨a, ha, hact⟩ := List.mem_filterMap.mp hm
    exact hh.arrives seq (Act.eq_of_act hact ▸ ha)
  room := by
    intro seq full hm
    obtain ⟨a, ha, hact⟩ := List.mem_filterMap.mp hm
    exact hh.room seq full (Act.eq_of_act hact ▸ ha)
  stays := (hh.kept h).stays
  once := by
    intro k
    rw [(hh.kept h).asked]
    cases q.subscribers[k]? with
    | none => exact Nat.zero_le 1
    | some s => cases s <;> decide

/-! ## What is counted as lost -/

/-- How many messages subscriber `k` was too late for, when it was not too late
for all. -/
def late (k : Nat) (H : List Act) : Nat := if before k H = published H then 0 else (before k H).length

/-- A subscriber of a healthy run that is at rest has received what was published
since its link was up. -/
theorem Healthy.received (hh : Healthy H) (h : Runs c idx H q) (hrest : q.Rest) {k : Nat}
    (hk : k < Worker.subscribers c) : published H = before k H ++ deliveriesTo k (events H) := by
  obtain ⟨s, hs⟩ := exists_sub h hk
  have hserved := FanOut.Served.exec (exec_topic h) (hh.steady h) hs
  rw [published, hserved.published, hrest.2 s (List.mem_of_getElem? hs), List.append_nil, handed_eq h hs]
  rfl

/-- **What a subscriber of a healthy run has missed** when the run is at rest. -/
theorem Healthy.missing (hh : Healthy H) (h : Runs c idx H q)
    (hn : (outcomes (events H)).length < 2 ^ 64) (hrest : q.Rest) {k : Nat}
    (hk : k < Worker.subscribers c) : (tracker H k).missing = late k H := by
  obtain ⟨s, hs⟩ := exists_sub h hk
  have hserved := FanOut.Served.exec (exec_topic h) (hh.steady h) hs
  have hpub := hh.received h hrest hk
  have helse : q.topic.elsewhere s = before k H := by
    have hvanished : q.topic.vanished = [] := by
      rw [(FanOut.Topic.exec_sent (exec_topic h)).2.1, List.filterMap_eq_nil_iff]
      intro act hact
      cases act with
      | vanish seq => exact absurd hact ((hh.steady h).arrives seq)
      | _ => rfl
    rw [FanOut.Topic.elsewhere, FanOut.Subscription.unhandled, hrest.1, hvanished,
      hrest.2 s (List.mem_of_getElem? hs), hserved.missed, List.map_map]
    simp only [List.append_nil, List.nil_append]
    exact List.map_id _
  have hlast : (tracker H k).lastSeq.toNat = SubTracker.top (deliveriesTo k (events H)) :=
    (SubTracker.after_counts _).lastSeq
  rw [late]
  split
  · next hall =>
    -- Nothing was handed over, and the tracker is a new one.
    rw [hpub, List.self_eq_append_right] at hall
    rw [tracker, hall]
    rfl
  · next hsome =>
    rw [(missing_eq h hn hs).2, helse, List.countP_eq_length]
    intro seq hseq
    obtain ⟨seq', hseq'⟩ : ∃ seq', seq' ∈ deliveriesTo k (events H) := by
      refine List.exists_mem_of_ne_nil _ fun hnil => hsome ?_
      rw [hpub, hnil, List.append_nil]
    have hord := hh.ordered
    rw [hpub] at hord
    have hlt := UInt64.lt_iff_toNat_lt.mp ((List.pairwise_append.mp hord).2.2 seq hseq seq' hseq')
    have hle := SubTracker.le_top hseq'
    rw [decide_eq_true_eq, UInt64.le_iff_toNat_le, hlast]
    omega

theorem worst_spec (ts : List SubTracker) :
    let worst := ts.foldl
      (fun maxLost st => if UInt64.ofNat st.missing > maxLost then .ofNat st.missing else maxLost) 0
    (∀ t ∈ ts, t.missing ≤ worst.toNat) ∧ (worst = 0 ∨ ∃ t ∈ ts, worst.toNat = t.missing) := by
  induction ts using List.reverseRecOn with
  | nil => exact ⟨fun _ h => absurd h List.not_mem_nil, .inl rfl⟩
  | append_singleton ts t ih =>
    obtain ⟨hle, hex⟩ := ih
    rw [List.foldl_append, List.foldl_cons, List.foldl_nil]
    generalize ts.foldl _ 0 = worst at hle hex ⊢
    have hnat : (UInt64.ofNat t.missing).toNat = t.missing := UInt64.toNat_ofNat_of_lt' t.missing_lt
    dsimp only
    split
    · next hgt =>
      rw [gt_iff_lt, UInt64.lt_iff_toNat_lt, hnat] at hgt
      refine ⟨?_, .inr ⟨t, by simp, hnat⟩⟩
      intro t' ht'
      rw [hnat]
      rcases List.mem_append.mp ht' with ht' | ht'
      · exact Nat.le_of_lt (Nat.lt_of_le_of_lt (hle t' ht') hgt)
      · rw [List.mem_singleton.mp ht']
    · next hgt =>
      rw [gt_iff_lt, UInt64.lt_iff_toNat_lt, hnat, Nat.not_lt] at hgt
      refine ⟨?_, hex.imp_right fun ⟨t', ht', he⟩ => ⟨t', List.mem_append_left _ ht', he⟩⟩
      intro t' ht'
      rcases List.mem_append.mp ht' with ht' | ht'
      · exact hle t' ht'
      · rw [List.mem_singleton.mp ht']
        exact hgt

theorem Healthy.published_subset (hh : Healthy H) (h : Runs c idx H q) : published H ⊆ q.topic.sent := by
  obtain ⟨s, hs⟩ := exists_sub h (subscribers_pos c)
  have hserved := FanOut.Served.exec (exec_topic h) (hh.steady h) hs
  have hperm := accounted h s (List.mem_of_getElem? hs)
  intro seq hseq
  have hmissed : seq ∈ FanOut.before 0 (acts H) → seq ∈ s.missed.map Prod.snd := by
    intro hb
    rw [hserved.missed, List.map_map]
    exact List.mem_map.mpr ⟨seq, hb, rfl⟩
  rw [published, hserved.published, List.mem_append, List.mem_append] at hseq
  refine hperm.subset ?_
  simp only [FanOut.Topic.elsewhere, FanOut.Subscription.unhandled, List.mem_append]
  tauto

theorem before_subset (k : Nat) (H : List Act) : before k H ⊆ published H := by
  intro seq hseq
  obtain ⟨act, hact, hpub⟩ := List.mem_filterMap.mp hseq
  exact List.mem_filterMap.mpr ⟨act, (List.takeWhile_prefix _).subset hact, hpub⟩

/-- **What the ready signal is for**: before it nothing is sent. -/
theorem ready_spec (h : Runs c idx H q) :
    (q.ready = true ↔ ∃ a ∈ H, a.ready?.isSome) ∧ (q.ready = false → q.topic.sent = []) := by
  refine Machine.exec_rec (P := fun H (q : EventsChannel) =>
    (q.ready = true ↔ ∃ a ∈ H, a.ready?.isSome) ∧ (q.ready = false → q.topic.sent = [])) ?_ ?_ h
  · exact ⟨by simp [start], fun _ => rfl⟩
  · intro H s a s' _ ih hstep
    have hready : s'.ready = (s.ready || a.ready?.isSome) := by
      obtain ⟨subscribers, topic, -, -, rfl⟩ := step_eq_some.mp hstep
      rfl
    constructor
    · rw [hready, Bool.or_eq_true, ih.1]
      simp [or_and_right, exists_or]
    · intro hr
      rw [hready, Bool.or_eq_false_iff] at hr
      rw [step_sent hstep, ih.2 hr.1]
      obtain ⟨subscribers, topic, hm, -, -⟩ := step_eq_some.mp hstep
      cases a with
      | send seq o =>
        obtain ⟨⟨hsend, -⟩, -⟩ := Option.ite_none_right_eq_some.mp hm
        rw [hr.1] at hsend
        cases hsend
      | _ => rfl

/-- The link of subscriber `k` is up when the first of them signals, which lets the
producer start. -/
def UpAtStart (k : Nat) (H : List Act) : Prop := .up k ∈ H.takeWhile fun a => a.ready?.isNone

theorem UpAtStart.before_eq {k : Nat} (hk : UpAtStart k H) (hh : Healthy H) (h : Runs c idx H q) :
    before k H = [] := by
  have hsplit : H.takeWhile (fun a => a.ready?.isNone) ++ H.dropWhile (fun a => a.ready?.isNone) = H :=
    List.takeWhile_append_dropWhile
  generalize hG : H.takeWhile (fun a => a.ready?.isNone) = G at hsplit
  generalize H.dropWhile (fun a => a.ready?.isNone) = K at hsplit
  have hup : .up k ∈ acts G := by
    rw [UpAtStart, hG] at hk
    exact List.mem_filterMap.mpr ⟨_, hk, rfl⟩
  subst hsplit
  obtain ⟨qG, hrunG, -⟩ := Machine.exec_append_eq_some.mp h
  -- The run up to the signal has sent nothing.
  have hsent : qG.topic.sent = [] := by
    refine (ready_spec hrunG).2 (Bool.eq_false_iff.mpr fun hr => ?_)
    obtain ⟨a, ha, hsome⟩ := (ready_spec hrunG).1.mp hr
    rw [← hG] at ha
    have hnone := List.mem_takeWhile_imp ha
    rw [Option.isNone_iff_eq_none.mp hnone] at hsome
    cases hsome
  rw [before, acts_append, FanOut.before_append_of_mem hup]
  refine List.subset_nil.mp ?_
  rw [← hsent]
  exact List.Subset.trans (before_subset k G) (hh.of_append.published_subset hrunG)

/-- **What is counted as lost on a healthy broker.** Every message arrives and
is copied to every link that is up, no link goes down, and nothing is left to
hand over. Then each subscriber has received what was published since its link
was up, and `ExtraLost` is the most that one of them was too late for, which
nobody sent to it. A subscriber whose link is up at the first ready signal has
received everything. -/
theorem events_healthy_lost (hh : Healthy H) (h : Runs c idx H q)
    (hn : (outcomes (events H)).length < 2 ^ 64) (hrest : q.Rest) :
    (∀ k < Worker.subscribers c, published H = before k H ++ deliveriesTo k (events H)) ∧
      q.worker.extraLost.toNat = (Finset.range (Worker.subscribers c)).sup (late · H) ∧
      ∀ k < Worker.subscribers c, UpAtStart k H → deliveriesTo k (events H) = published H := by
  refine ⟨fun k hk => hh.received h hrest hk, ?_, ?_⟩
  · have hlost : q.worker.extraLost = ((List.range (Worker.subscribers c)).map (tracker H)).foldl
        (fun maxLost st => if UInt64.ofNat st.missing > maxLost then .ofNat st.missing
          else maxLost) 0 := by
      rw [Worker.extraLost, detectors_eq h]
    obtain ⟨hle, hex⟩ := worst_spec ((List.range (Worker.subscribers c)).map (tracker H))
    rw [← hlost] at hle hex
    refine le_antisymm ?_ (Finset.sup_le fun k hk => ?_)
    · rcases hex with hzero | ⟨t, ht, heq⟩
      · rw [hzero]
        exact Nat.zero_le _
      · obtain ⟨k, hk, rfl⟩ := List.mem_map.mp ht
        rw [List.mem_range] at hk
        rw [heq, hh.missing h hn hrest hk]
        exact Finset.le_sup (f := (late · H)) (Finset.mem_range.mpr hk)
    · rw [Finset.mem_range] at hk
      rw [← hh.missing h hn hrest hk]
      exact hle _ (List.mem_map_of_mem (List.mem_range.mpr hk))
  · intro k hk hup
    have hpub := hh.received h hrest hk
    rw [hup.before_eq hh h, List.nil_append] at hpub
    exact hpub.symm

/-- The second subscriber is ready before the first message, but its link is up
after it. -/
def lateLink : List Act :=
  [.subscriber 0 (.dial true), .subscriber 1 (.dial true), .up 0, .subscriber 0 (.attach true),
    .subscriber 1 (.attach true), .subscriber 0 .signalReady, .subscriber 1 .signalReady,
    .send 1 .accepted,
    .publish 1 [], .subscriber 0 (.receive 1 false .none), .subscriber 0 (.accept false), .up 1,
    .send 2 .accepted,
    .publish 2 [], .subscriber 0 (.receive 2 false .none), .subscriber 1 (.receive 2 false .none)]

theorem healthy_lateLink : Healthy lateLink where
  arrives := by simp [lateLink]
  ordered := by decide +kernel
  room := by
    intro seq full hm
    simp only [lateLink, List.mem_cons, Act.publish.injEq, reduceCtorEq, false_or, List.not_mem_nil,
      or_false] at hm
    exact hm.elim (·.2) (·.2)
  stays := by simp [lateLink]
  serves := by simp [lateLink]

theorem events_healthy_lateLink :
    ∃ q, Healthy lateLink ∧ Runs smallWindow 1 lateLink q ∧ q.Rest ∧ UpAtStart 0 lateLink ∧
      q.worker.extraLost = 1 ∧ deliveriesTo 0 (events lateLink) = published lateLink := by
  have hrun : (Machine.exec step (start smallWindow 1) lateLink).map
      (fun q => (q.topic.transit, q.topic.subs.map (·.waiting), q.worker.extraLost)) =
        .some ([], [[], []], 1) := by decide +kernel
  obtain ⟨q, hq, hr⟩ := Option.map_eq_some_iff.mp hrun
  obtain ⟨htransit, hr⟩ := Prod.mk.inj hr
  obtain ⟨hwaiting, hlost⟩ := Prod.mk.inj hr
  have hrest : q.Rest := by
    refine ⟨htransit, ?_⟩
    intro s hs
    have hm : s.waiting ∈ [[], []] := hwaiting ▸ List.mem_map_of_mem hs
    simpa using hm
  have hup : UpAtStart 0 lateLink := by simp [UpAtStart, lateLink, Act.ready?]
  have hall := events_healthy_lost healthy_lateLink hq (by decide) hrest
  exact ⟨q, healthy_lateLink, hq, hrest, hup, hlost, hall.2.2 0 (by decide) hup⟩

end EventsChannel
end Burnin
