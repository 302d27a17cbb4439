/-
Facts about the worker model: what a whole run leaves in a worker's tracker,
in its other detectors and in its sequence, as functions of the run.

* `trk_after`: the tracker has the calls made since the last reset;
* `detectors_after`: the other detectors have every delivery of the run;
* `stamped_new`: the sequences a fresh worker's producer stamps;
* `lost_finalSnapshot`: what the snapshot of one worker makes of these.
-/
import Mathlib.Data.List.DropRight
import Burnin.TrackerHistory
import Burnin.Worker

namespace Burnin

/-! ## One step -/

namespace BaseWorker

theorem inspect_spec (b : BaseWorker) (m : Envelope) :
    (b.inspect m).trk = b.trk ∧ (b.inspect m).channelName = b.channelName := by
  unfold inspect
  cases m.latency <;> cases m.crcMismatch <;> exact ⟨rfl, rfl⟩

theorem recordTracked_spec (b : BaseWorker) (p : String) (seq : UInt64) :
    (b.recordTracked p seq).trk = (b.trk.record p seq).1 ∧
      (b.recordTracked p seq).channelName = b.channelName := by
  unfold recordTracked
  dsimp only
  split <;> exact ⟨rfl, rfl⟩

theorem recordSub_spec (b : BaseWorker) (st : SubTracker) (seq : UInt64) :
    (b.recordSub st seq).1.trk = b.trk ∧ (b.recordSub st seq).1.channelName = b.channelName ∧
      (b.recordSub st seq).2 = (st.record seq).1 := by
  unfold recordSub
  dsimp only
  split <;> exact ⟨rfl, rfl, rfl⟩

theorem inspect_counts (b : BaseWorker) (m : Envelope) :
    (b.inspect m).duplicated = b.duplicated ∧ (b.inspect m).received = b.received := by
  unfold inspect
  cases m.latency <;> cases m.crcMismatch <;> exact ⟨rfl, rfl⟩

theorem recordTracked_counts (b : BaseWorker) (p : String) (seq : UInt64) :
    (b.recordTracked p seq).duplicated = b.duplicated + (b.trk.record p seq).2.isDuplicate.toNat ∧
      (b.recordTracked p seq).received = b.received := by
  unfold recordTracked
  dsimp only
  cases (b.trk.record p seq).2.isDuplicate <;> exact ⟨rfl, rfl⟩

theorem recordSub_counts (b : BaseWorker) (st : SubTracker) (seq : UInt64) :
    (b.recordSub st seq).1.duplicated = b.duplicated + (st.record seq).2.toNat ∧
      (b.recordSub st seq).1.received = b.received := by
  unfold recordSub
  dsimp only
  cases (st.record seq).2 <;> exact ⟨rfl, rfl⟩

end BaseWorker

/-- What no handler of a delivery touches. -/
structure BaseWorker.Kept (b b' : BaseWorker) : Prop where
  sent : b'.sent = b.sent
  errors : b'.errors = b.errors
  reconnections : b'.reconnections = b.reconnections
  eventsDropped : b'.eventsDropped = b.eventsDropped

/-- A reading of a worker that nothing a handler of a delivery writes goes into. -/
structure BaseWorker.Unwritten {γ : Type*} (f : BaseWorker → γ) : Prop where
  corrupted : ∀ b : BaseWorker, f b.recordCorrupted = f b
  latency : ∀ (b : BaseWorker) (d : Int), f (b.recordLatency d) = f b
  trk : ∀ (b : BaseWorker) (trk : Tracker), f { b with trk } = f b
  duplicated : ∀ b : BaseWorker, f b.recordDuplicated = f b
  received : ∀ b : BaseWorker, f b.recordReceived = f b

namespace BaseWorker.Unwritten

variable {γ : Type*} {f : BaseWorker → γ}

theorem inspect (hf : Unwritten f) (b : BaseWorker) (m : Envelope) : f (b.inspect m) = f b := by
  have hcrc : f (if m.crcMismatch then b.recordCorrupted else b) = f b := by
    split
    · exact hf.corrupted b
    · rfl
  unfold BaseWorker.inspect
  cases m.latency with
  | none => exact hcrc
  | some d => exact (hf.latency _ d).trans hcrc

theorem recordTracked (hf : Unwritten f) (b : BaseWorker) (p : String) (seq : UInt64) :
    f (b.recordTracked p seq) = f b := by
  unfold BaseWorker.recordTracked
  dsimp only
  split
  · exact (hf.duplicated _).trans (hf.trk b _)
  · exact hf.trk b _

theorem recordSub (hf : Unwritten f) (b : BaseWorker) (st : SubTracker) (seq : UInt64) :
    f (b.recordSub st seq).1 = f b := by
  unfold BaseWorker.recordSub
  dsimp only
  split
  · exact hf.duplicated b
  · rfl

theorem handleDelivery (hf : Unwritten f) (b : BaseWorker) (m : Option Envelope) :
    f (b.handleDelivery m) = f b := by
  cases m with
  | none => exact hf.received b
  | some m => exact (hf.received _).trans ((hf.recordTracked _ _ _).trans (hf.inspect b m))

theorem drainSub (hf : Unwritten f) (b : BaseWorker) (st : SubTracker) (m : Option Envelope) :
    f (b.drainSub st m).1 = f b := by
  cases m with
  | none => exact hf.received b
  | some m => exact (hf.received _).trans ((hf.recordSub _ st _).trans (hf.inspect b m))

theorem handleStoreDelivery (hf : Unwritten f) (b : BaseWorker) (st : SubTracker) (m : Option Envelope) :
    f (b.handleStoreDelivery st m).1 = f b := by
  cases m with
  | none => exact hf.received b
  | some m =>
    have hsub := (hf.recordSub _ st m.seq).trans (hf.inspect b m)
    exact (hf.received _).trans ((hf.recordTracked _ _ _).trans hsub)

/-- **No handler touches such a reading.** -/
theorem handle (hf : Unwritten f) (w : Worker) (sub : Nat) (m : Option Envelope) :
    f (w.handle sub m).base = f w.base := by
  unfold Worker.handle
  cases w.detectors with
  | none => exact hf.handleDelivery w.base m
  | subTrackers ts =>
    dsimp only
    cases ts[sub]? with
    | none => rfl
    | some st => exact hf.drainSub w.base st m
  | storeTrk st => exact hf.handleStoreDelivery w.base st m

end BaseWorker.Unwritten

theorem Worker.handle_kept (w : Worker) (sub : Nat) (m : Option Envelope) :
    w.base.Kept (w.handle sub m).base := by
  have hf : BaseWorker.Unwritten fun b => (b.sent, b.errors, b.reconnections, b.eventsDropped) :=
    ⟨fun _ => rfl, fun _ _ => rfl, fun _ _ => rfl, fun _ => rfl, fun _ => rfl⟩
  obtain ⟨h₁, h⟩ := Prod.mk.inj (hf.handle w sub m)
  obtain ⟨h₂, h⟩ := Prod.mk.inj h
  obtain ⟨h₃, h₄⟩ := Prod.mk.inj h
  exact ⟨h₁, h₂, h₃, h₄⟩

/-- A tracker and an envelope that a handler passes on to it. -/
def Tracker.track (t : Tracker) : Option Envelope → Tracker
  | .none => t
  | .some m => (t.record m.producerID m.seq).1

/-- A subscriber tracker and an envelope that a handler passes on to it. -/
def SubTracker.track (t : SubTracker) : Option Envelope → SubTracker
  | .none => t
  | .some m => (t.record m.seq).1

/-- The tracker calls an envelope a duplicate. -/
def Tracker.flags (t : Tracker) : Option Envelope → Bool
  | .none => false
  | .some m => (t.record m.producerID m.seq).2.isDuplicate

/-- The subscriber tracker calls an envelope a duplicate. -/
def SubTracker.flags (t : SubTracker) : Option Envelope → Bool
  | .none => false
  | .some m => (t.record m.seq).2

/-- The detectors after a delivery. -/
def Detectors.track (ds : Detectors) (sub : Nat) (m : Option Envelope) : Detectors :=
  match ds with
  | .none => .none
  | .subTrackers ts => .subTrackers (ts.modify sub (·.track m))
  | .storeTrk t => .storeTrk (t.track m)

/-- Whether the handlers that go with the detectors feed the tracker. -/
def Detectors.feedTracker : Detectors → Bool
  | .subTrackers _ => false
  | _ => true

namespace BaseWorker

theorem handleDelivery_spec (b : BaseWorker) (m : Option Envelope) :
    (b.handleDelivery m).trk = b.trk.track m ∧ (b.handleDelivery m).channelName = b.channelName := by
  cases m with
  | none => exact ⟨rfl, rfl⟩
  | some m =>
    obtain ⟨h1, h2⟩ := b.inspect_spec m
    obtain ⟨h3, h4⟩ := (b.inspect m).recordTracked_spec m.producerID m.seq
    rw [h1] at h3
    rw [h2] at h4
    exact ⟨h3, h4⟩

theorem drainSub_spec (b : BaseWorker) (st : SubTracker) (m : Option Envelope) :
    (b.drainSub st m).1.trk = b.trk ∧ (b.drainSub st m).1.channelName = b.channelName ∧
      (b.drainSub st m).2 = st.track m := by
  cases m with
  | none => exact ⟨rfl, rfl, rfl⟩
  | some m =>
    obtain ⟨h1, h2⟩ := b.inspect_spec m
    obtain ⟨h3, h4, h5⟩ := (b.inspect m).recordSub_spec st m.seq
    rw [h1] at h3
    rw [h2] at h4
    exact ⟨h3, h4, h5⟩

theorem handleStoreDelivery_spec (b : BaseWorker) (st : SubTracker) (m : Option Envelope) :
    (b.handleStoreDelivery st m).1.trk = b.trk.track m ∧
      (b.handleStoreDelivery st m).1.channelName = b.channelName ∧
      (b.handleStoreDelivery st m).2 = st.track m := by
  cases m with
  | none => exact ⟨rfl, rfl, rfl⟩
  | some m =>
    obtain ⟨h1, h2⟩ := b.inspect_spec m
    obtain ⟨h3, h4, h5⟩ := (b.inspect m).recordSub_spec st m.seq
    obtain ⟨h6, h7⟩ := ((b.inspect m).recordSub st m.seq).1.recordTracked_spec m.producerID m.seq
    rw [h3, h1] at h6
    rw [h4, h2] at h7
    exact ⟨h6, h7, h5⟩

end BaseWorker

namespace Worker

/-- **Everything a delivery does** to a worker's detectors. -/
theorem handle_spec (w : Worker) (sub : Nat) (m : Option Envelope) :
    (w.handle sub m).base.trk = (if w.detectors.feedTracker then w.base.trk.track m else w.base.trk) ∧
      (w.handle sub m).base.channelName = w.base.channelName ∧
      (w.handle sub m).detectors = w.detectors.track sub m ∧ (w.handle sub m).seq = w.seq := by
  unfold handle
  cases hd : w.detectors with
  | none =>
    obtain ⟨h1, h2⟩ := w.base.handleDelivery_spec m
    exact ⟨h1, h2, rfl, rfl⟩
  | subTrackers ts =>
    dsimp only
    cases hts : ts[sub]? with
    | none =>
      have hlen := List.getElem?_eq_none_iff.mp hts
      refine ⟨rfl, rfl, ?_, rfl⟩
      simp only [Detectors.track, List.modify_eq_self hlen, hd]
    | some st =>
      obtain ⟨h1, h2, h3⟩ := w.base.drainSub_spec st m
      refine ⟨h1, h2, ?_, rfl⟩
      simp only [Detectors.track, h3, List.modify_eq_set_getElem?, hts]
      rfl
  | storeTrk st =>
    obtain ⟨h1, h2, h3⟩ := w.base.handleStoreDelivery_spec st m
    exact ⟨h1, h2, by dsimp only [Detectors.track]; rw [h3], rfl⟩

theorem track_none (ds : Detectors) (sub : Nat) : ds.track sub .none = ds := by
  cases ds with
  | none => rfl
  | subTrackers ts => exact congrArg _ (List.modify_id sub ts)
  | storeTrk t => rfl

/-- The call of its tracker that an event makes for producer `p`, when the
handlers feed it. -/
def Event.call (p : String) : Event → Option Call
  | .deliver _ seq _ _ => .some (.record p seq)
  | .detectGaps => .some .detectGaps
  | _ => .none

theorem step_channelName (w : Worker) (e : Event) :
    (w.step e).base.channelName = w.base.channelName := by
  cases e with
  | send o => cases o <;> rfl
  | deliver sub seq crcMismatch latency => exact (w.handle_spec sub _).2.1
  | untracked sub => exact (w.handle_spec sub .none).2.1
  | _ => rfl

theorem step_seq (w : Worker) (e : Event) :
    (w.step e).seq = match e with
      | .send _ => w.seq + 1
      | _ => w.seq := by
  cases e with
  | send o => cases o <;> rfl
  | deliver sub seq crcMismatch latency => exact (w.handle_spec sub _).2.2.2
  | untracked sub => exact (w.handle_spec sub .none).2.2.2
  | _ => rfl

theorem step_detectors (w : Worker) (e : Event) :
    (w.step e).detectors = match e with
      | .deliver sub seq crcMismatch latency =>
        w.detectors.track sub (.some { producerID := w.base.channelName, seq, crcMismatch, latency })
      | _ => w.detectors := by
  cases e with
  | send o => cases o <;> rfl
  | deliver sub seq crcMismatch latency => exact (w.handle_spec sub _).2.2.1
  | untracked sub => exact (w.handle_spec sub .none).2.2.1.trans (track_none _ _)
  | _ => rfl

theorem step_trk {w : Worker} (hf : w.detectors.feedTracker = true) (e : Event) :
    (w.step e).base.trk =
      if e = .resetAfterWarmup then w.base.trk.reset
      else ((e.call w.base.channelName).map w.base.trk.call).getD w.base.trk := by
  cases e with
  | send o => cases o <;> rfl
  | deliver sub seq crcMismatch latency => exact (w.handle_spec sub _).1.trans (if_pos hf)
  | untracked sub => exact (w.handle_spec sub .none).1.trans (if_pos hf)
  | _ => rfl

/-- The tracker of a worker whose handlers do not feed it stays empty. -/
theorem step_trk_unfed {w : Worker} (hf : w.detectors.feedTracker = false) (h : w.base.trk.producers = ∅)
    (e : Event) : (w.step e).base.trk.producers = ∅ := by
  cases e with
  | send o => cases o <;> exact h
  | deliver sub seq crcMismatch latency =>
    rw [step, (w.handle_spec sub _).1, hf]
    exact h
  | untracked sub =>
    rw [step, (w.handle_spec sub .none).1, hf]
    exact h
  | detectGaps => simp only [step, Tracker.detectGaps, h]; rfl
  | resetAfterWarmup => rfl
  | _ => exact h

/-! ## Runs -/

theorem after_snoc (w : Worker) (es : List Event) (e : Event) :
    w.after (es ++ [e]) = (w.after es).step e := by
  simp [after, List.foldl_append]

/-- The events since the last reset. -/
def measured (es : List Event) : List Event := es.rtakeWhile (· ≠ .resetAfterWarmup)

/-- The calls of the tracker since the last reset. -/
def trackerCalls (p : String) (es : List Event) : List Call := (measured es).filterMap (Event.call p)

/-- The sequence that an event delivers. -/
def Event.delivered : Event → Option UInt64
  | .deliver _ seq _ _ => .some seq
  | _ => .none

/-- The sequence that an event delivers to subscriber `sub`. -/
def Event.deliveredTo (sub : Nat) : Event → Option UInt64
  | .deliver sub' seq _ _ => if sub' = sub then .some seq else .none
  | _ => .none

/-- The sequences delivered in a run, in order. -/
def deliveries (es : List Event) : List UInt64 := es.filterMap Event.delivered

/-- The sequences delivered to subscriber `sub` in a run, in order. -/
def deliveriesTo (sub : Nat) (es : List Event) : List UInt64 := es.filterMap (Event.deliveredTo sub)

theorem measured_snoc (es : List Event) (e : Event) :
    measured (es ++ [e]) = if e = .resetAfterWarmup then [] else measured es ++ [e] := by
  simp only [measured, List.rtakeWhile_concat, decide_eq_true_eq, ne_eq, ite_not]

theorem trackerCalls_snoc (p : String) (es : List Event) (e : Event) :
    trackerCalls p (es ++ [e]) =
      if e = .resetAfterWarmup then [] else trackerCalls p es ++ (e.call p).toList := by
  rw [trackerCalls, measured_snoc]
  split
  · rfl
  · rw [List.filterMap_append, trackerCalls]
    cases hc : e.call p <;> simp [hc]

theorem record_mem_trackerCalls {p : String} {es : List Event} {p' : String} {seq : UInt64} :
    .record p' seq ∈ trackerCalls p es ↔ p' = p ∧ seq ∈ deliveries (measured es) := by
  simp only [trackerCalls, deliveries, List.mem_filterMap]
  constructor
  · intro h
    obtain ⟨e, he, hc⟩ := h
    cases e with
    | deliver sub seq' crcMismatch latency =>
      simp only [Event.call, Option.some.injEq, Call.record.injEq] at hc
      exact ⟨hc.1.symm, _, he, congrArg some hc.2⟩
    | _ => simp [Event.call] at hc
  · intro h
    obtain ⟨hp, e, he, hd⟩ := h
    cases e with
    | deliver sub seq' crcMismatch latency =>
      simp only [Event.delivered, Option.some.injEq] at hd
      exact ⟨_, he, by rw [Event.call, hp, hd]⟩
    | _ => simp [Event.delivered] at hd

theorem measured_of_fresh {es : List Event} (h : .resetAfterWarmup ∉ es) : measured es = es := by
  rw [measured, List.rtakeWhile_eq_self_iff]
  intro e he
  exact decide_eq_true fun hr => h (hr ▸ he)

theorem measured_append_of_fresh {es fs : List Event} (h : .resetAfterWarmup ∉ fs)
    (hes : measured es = []) : measured (es ++ fs) = fs := by
  induction fs using List.reverseRecOn with
  | nil => rw [List.append_nil, hes]
  | append_singleton fs e ih =>
    have he : e ≠ .resetAfterWarmup :=
      fun he => h (List.mem_append_right _ (List.mem_singleton.mpr he.symm))
    rw [← List.append_assoc, measured_snoc, if_neg he, ih fun hm => h (List.mem_append_left _ hm)]

theorem numbers_trackerCalls (p : String) (es : List Event) :
    numbers p (trackerCalls p es) = (deliveries (measured es)).map UInt64.toNat := by
  rw [numbers, trackerCalls, deliveries, List.filterMap_filterMap, List.map_filterMap]
  congr 1
  funext e
  cases e with
  | deliver sub seq crcMismatch latency => simp [Event.call, Event.delivered, Call.number]
  | _ => rfl

theorem channelName_after (w : Worker) (es : List Event) :
    (w.after es).base.channelName = w.base.channelName := by
  induction es using List.reverseRecOn with
  | nil => rfl
  | append_singleton es e ih => rw [after_snoc, step_channelName, ih]

theorem feedTracker_after (w : Worker) (es : List Event) :
    (w.after es).detectors.feedTracker = w.detectors.feedTracker := by
  induction es using List.reverseRecOn with
  | nil => rfl
  | append_singleton es e ih =>
    rw [after_snoc, step_detectors, ← ih]
    cases e with
    | deliver sub seq crcMismatch latency => cases (w.after es).detectors <;> rfl
    | _ => rfl

/-- **The tracker after a run** has the calls since the last reset. -/
theorem trk_after {c : RunnableConfig} {idx : Nat} {pat : Pattern} (hp : pat ≠ .events)
    (es : List Event) :
    ((new c idx pat).after es).base.trk =
      Tracker.calls c.window (trackerCalls (channel pat.name idx) es) := by
  have hf : (new c idx pat).detectors.feedTracker = true := by
    cases pat with
    | events => exact absurd rfl hp
    | _ => rfl
  have hname : (new c idx pat).base.channelName = channel pat.name idx := by cases pat <;> rfl
  induction es using List.reverseRecOn with
  | nil => cases pat <;> rfl
  | append_singleton es e ih =>
    rw [after_snoc, step_trk ((feedTracker_after _ es).trans hf), trackerCalls_snoc,
      channelName_after, hname, ih]
    split
    · rw [Tracker.reset_eq_new, Tracker.calls_reorderWindow]
      rfl
    · cases e.call (channel pat.name idx) with
      | none => simp
      | some call => simp [Tracker.calls_snoc]

theorem trk_after_events (c : RunnableConfig) (idx : Nat) (es : List Event) :
    ((new c idx .events).after es).base.trk.producers = ∅ := by
  induction es using List.reverseRecOn with
  | nil => rfl
  | append_singleton es e ih =>
    rw [after_snoc]
    exact step_trk_unfed (feedTracker_after _ es) ih e

theorem deliveries_snoc (es : List Event) (e : Event) :
    deliveries (es ++ [e]) = deliveries es ++ e.delivered.toList := by
  rw [deliveries, List.filterMap_append]
  cases hd : e.delivered <;> simp [deliveries, hd]

theorem deliveriesTo_snoc (sub : Nat) (es : List Event) (e : Event) :
    deliveriesTo sub (es ++ [e]) = deliveriesTo sub es ++ (e.deliveredTo sub).toList := by
  rw [deliveriesTo, List.filterMap_append]
  cases hd : e.deliveredTo sub <;> simp [deliveriesTo, hd]

/-- The other detectors of a worker after a run, which no reset reaches. -/
def detectorsOf (c : RunnableConfig) (es : List Event) : Pattern → Detectors
  | .queues | .creditFlow => .none
  | .events => .subTrackers ((List.range (subscribers c)).map fun sub => .after (deliveriesTo sub es))
  | .eventsStore => .storeTrk (.after (deliveries es))

/-- **The other detectors after a run** have all its deliveries. -/
theorem detectors_after (c : RunnableConfig) (idx : Nat) (pat : Pattern) (es : List Event) :
    ((new c idx pat).after es).detectors = detectorsOf c es pat := by
  induction es using List.reverseRecOn with
  | nil =>
    cases pat with
    | events =>
      refine congrArg Detectors.subTrackers (List.ext_getElem? fun i => ?_)
      simp [deliveriesTo, SubTracker.after, List.getElem?_replicate]
    | _ => rfl
  | append_singleton es e ih =>
    rw [after_snoc, step_detectors, ih]
    cases e with
    | deliver sub seq crcMismatch latency =>
      cases pat with
      | events =>
        refine congrArg Detectors.subTrackers (List.ext_getElem? fun i => ?_)
        rw [List.getElem?_modify, List.getElem?_map, List.getElem?_map]
        cases hr : (List.range (subscribers c))[i]? with
        | none => rfl
        | some j =>
          obtain ⟨_, rfl⟩ := List.getElem?_eq_some_iff.mp hr
          simp only [List.getElem_range, Option.map_some, deliveriesTo_snoc, Event.deliveredTo]
          split
          · exact congrArg some (SubTracker.after_snoc _ seq).symm
          · simp
      | eventsStore =>
        simp only [detectorsOf, Detectors.track, deliveries_snoc, Event.delivered, Option.toList,
          SubTracker.after_snoc]
        rfl
      | _ => rfl
    | _ =>
      cases pat <;> simp [detectorsOf, deliveriesTo_snoc, deliveries_snoc, Event.deliveredTo,
        Event.delivered]

theorem subscribers_pos (c : RunnableConfig) : 0 < subscribers c := by
  unfold subscribers
  split <;> omega

/-- The worst of several subscribers is 0 when all are. -/
theorem worst_eq_zero_iff (ts : List SubTracker) :
    ts.foldl (fun maxLost st => if UInt64.ofNat st.missing > maxLost then .ofNat st.missing
      else maxLost) 0 = 0 ↔
      ∀ t ∈ ts, t.missing = 0 := by
  induction ts using List.reverseRecOn with
  | nil => simp
  | append_singleton ts t ih =>
    rw [List.foldl_append, List.foldl_cons, List.foldl_nil, List.forall_mem_append, ← ih]
    generalize ts.foldl _ 0 = m
    simp only [List.mem_singleton, forall_eq, ← t.ofNat_missing_eq_zero]
    generalize UInt64.ofNat t.missing = x
    split
    · next hgt =>
      have : x ≠ 0 := fun h => by rw [h] at hgt; exact absurd hgt (UInt64.not_lt_zero)
      simp [this]
    · next hgt =>
      refine ⟨fun h => ⟨h, ?_⟩, fun h => h.1⟩
      rw [h] at hgt
      exact UInt64.le_zero_iff.mp (UInt64.not_lt.mp hgt)

theorem extraLost_eq_zero_iff (c : RunnableConfig) (idx : Nat) (pat : Pattern) (es : List Event) :
    ((new c idx pat).after es).extraLost = 0 ↔
      match pat with
      | .queues | .creditFlow => True
      | .events => ∀ sub < subscribers c, SubTracker.Complete (deliveriesTo sub es)
      | .eventsStore => SubTracker.Complete (deliveries es) := by
  rw [extraLost, detectors_after]
  cases pat with
  | events =>
    simp only [detectorsOf, worst_eq_zero_iff, List.mem_map, List.mem_range,
      forall_exists_index, and_imp, forall_apply_eq_imp_iff₂, SubTracker.missing_after_eq_zero]
  | eventsStore => exact (SubTracker.ofNat_missing_eq_zero _).trans SubTracker.missing_after_eq_zero
  | _ => simp [detectorsOf]

/-! ## The producer -/

/-- The sequences stamped by the producer of `w` in a run, with their outcomes. -/
def stamped (w : Worker) : List Event → List (UInt64 × Outcome)
  | [] => []
  | .send o :: es => (w.seq + 1, o) :: stamped (w.step (.send o)) es
  | e :: es => stamped (w.step e) es

/-- The sequences whose `Send` succeeded. -/
def accepted (w : Worker) (es : List Event) : List UInt64 :=
  ((stamped w es).filter (·.2 = .accepted)).map (·.1)

def Event.outcome : Event → Option Outcome
  | .send o => .some o
  | _ => .none

/-- The outcomes of the attempts of a run. -/
def outcomes (es : List Event) : List Outcome := es.filterMap Event.outcome

/-- The attempt at position `i`, from 0 on, succeeded. -/
def Succeeds (os : List Outcome) (i : Nat) : Prop := os[i]? = .some .accepted

theorem stamped_eq (w : Worker) (es : List Event) :
    stamped w es = (outcomes es).zipIdx.map fun oi => (w.seq + .ofNat (oi.2 + 1), oi.1) := by
  induction es generalizing w with
  | nil => rfl
  | cons e es ih =>
    cases e with
    | send o =>
      have hout : outcomes (.send o :: es) = o :: outcomes es := rfl
      rw [stamped, ih, step_seq, hout, List.zipIdx_cons', List.map_cons, List.map_map]
      refine congrArg₂ _ rfl (List.map_congr_left fun oi _ => Prod.ext ?_ rfl)
      simp only [Function.comp_apply, Prod.map_snd]
      rw [UInt64.ofNat_add (oi.2 + 1) 1, add_assoc, add_comm _ (UInt64.ofNat 1)]
      rfl
    | _ => exact (ih _).trans (by rw [step_seq]; rfl)

theorem outcomes_snoc (es : List Event) (e : Event) :
    outcomes (es ++ [e]) = outcomes es ++ e.outcome.toList := by
  rw [outcomes, List.filterMap_append]
  cases ho : e.outcome <;> simp [outcomes, ho]

theorem seq_after (w : Worker) (es : List Event) :
    (w.after es).seq = w.seq + .ofNat (outcomes es).length := by
  induction es using List.reverseRecOn with
  | nil => exact (add_zero _).symm
  | append_singleton es e ih =>
    rw [after_snoc, step_seq, ih, outcomes_snoc, List.length_append]
    cases e with
    | send o =>
      rw [UInt64.ofNat_add, ← add_assoc]
      rfl
    | _ => rfl

theorem step_sent (w : Worker) {e : Event} (he : e ≠ .resetAfterWarmup) :
    (w.step e).base.sent = w.base.sent + (e.outcome.toList.count .accepted) := by
  cases e with
  | send o => cases o <;> rfl
  | deliver sub seq crcMismatch latency => exact (w.handle_kept sub _).sent
  | untracked sub => exact (w.handle_kept sub _).sent
  | resetAfterWarmup => exact absurd rfl he
  | _ => rfl

theorem sent_after (w : Worker) {es : List Event} (h : .resetAfterWarmup ∉ es) :
    (w.after es).base.sent = w.base.sent + (outcomes es).count .accepted := by
  induction es using List.reverseRecOn with
  | nil => rfl
  | append_singleton es e ih =>
    rw [List.mem_append, List.mem_singleton, not_or] at h
    rw [after_snoc, step_sent _ (Ne.symm h.2), ih h.1, outcomes_snoc, List.count_append, Nat.add_assoc]

/-- **The sequences a fresh worker's producer sends** are the positions, from 1
on, of the attempts that succeeded, while the counter does not wrap. -/
theorem accepted_new {c : RunnableConfig} {idx : Nat} {pat : Pattern} {es : List Event}
    (hn : (outcomes es).length < 2 ^ 64) :
    (accepted (new c idx pat) es).map UInt64.toNat =
      ((outcomes es).zipIdx.filter (·.1 = .accepted)).map (·.2 + 1) := by
  have hseq : (new c idx pat).seq = 0 := by cases pat <;> rfl
  rw [accepted, stamped_eq, List.filter_map, List.map_map, List.map_map, hseq]
  refine List.map_congr_left fun oi hoi => ?_
  have hlt := List.snd_lt_of_mem_zipIdx (List.mem_of_mem_filter hoi)
  simp only [Function.comp_apply, zero_add, UInt64.toNat_ofNat']
  exact Nat.mod_eq_of_lt (by omega)

section
variable {c : RunnableConfig} {idx : Nat} {pat : Pattern} {es : List Event}
  (hn : (outcomes es).length < 2 ^ 64)
include hn

theorem accepted_sorted : ((accepted (new c idx pat) es).map UInt64.toNat).Pairwise (· < ·) := by
  rw [accepted_new hn]
  have hsub : (((outcomes es).zipIdx.filter (·.1 = .accepted)).map (·.2 + 1)).Sublist
      ((outcomes es).zipIdx.map (·.2 + 1)) := List.filter_sublist.map _
  refine List.Pairwise.sublist hsub ?_
  have hidx : (outcomes es).zipIdx.map (·.2 + 1) = (List.range' 0 (outcomes es).length).map (· + 1) := by
    rw [← List.zipIdx_map_snd, List.map_map]
    rfl
  rw [hidx, List.pairwise_map]
  exact (List.pairwise_lt_range' 1).imp fun h => Nat.succ_lt_succ h

theorem mem_accepted {n : Nat} :
    n ∈ (accepted (new c idx pat) es).map UInt64.toNat ↔
      ∃ i, n = i + 1 ∧ Succeeds (outcomes es) i := by
  rw [accepted_new hn]
  simp only [List.mem_map, List.mem_filter, decide_eq_true_eq]
  constructor
  · intro ⟨⟨o, i⟩, ⟨hm, ho⟩, h⟩
    exact ⟨i, h.symm, (List.mem_zipIdx_iff_getElem?.mp hm).trans (congrArg _ ho)⟩
  · intro ⟨i, h, ho⟩
    exact ⟨(.accepted, i), ⟨List.mem_zipIdx_iff_getElem?.mpr ho, rfl⟩, h.symm⟩

end

end Worker

/-! ## The snapshot -/

theorem captureWorkerSnapshot_silent (hist : Histogram) (name : WorkerName) {w : Worker}
    (h : w.base.latAccum = {}) (hrpc : w.base.rpcLatAccum = {}) :
    captureWorkerSnapshot hist name [w] =
      { Capture.addCounters name {} w.base with
        lost := (Capture.addCounters name {} w.base).lost + w.extraLost } := by
  have hcount : LatencyAccumulator.count hist {} = 0 := hist.totalCount_nil
  simp [captureWorkerSnapshot, Capture.add, Capture.conclude, extraLost, h, hrpc, hcount,
    Capture.addCounters]

/-- A counter of a group's snapshot is the sum of the counts of its channels. -/
theorem Capture.counter_foldl {hist : Histogram} {name : WorkerName} {f : WorkerSnapshot → UInt64}
    {g : BaseWorker → Nat} (h : ∀ snap b, f (addCounters name snap b) = f snap + .ofNat (g b))
    (ws : List Worker) (c : Capture) :
    f (ws.foldl (Capture.add hist name) c).snap = f c.snap + .ofNat (ws.map fun w => g w.base).sum := by
  induction ws generalizing c with
  | nil => simp
  | cons w ws ih =>
    rw [List.foldl_cons, ih, List.map_cons, List.sum_cons, UInt64.ofNat_add, ← add_assoc]
    exact congrArg (· + _) (h c.snap w.base)

theorem Capture.lost_foldl {hist : Histogram} {name : WorkerName} (h : name.isRPCWorker = false)
    (ws : List Worker) (c : Capture) :
    (ws.foldl (Capture.add hist name) c).snap.lost =
      c.snap.lost + (ws.map fun w => UInt64.ofNat w.base.trk.totalLost).sum := by
  induction ws generalizing c with
  | nil => simp
  | cons w ws ih =>
    rw [List.foldl_cons, ih, List.map_cons, List.sum_cons, ← add_assoc]
    simp [Capture.add, Capture.addCounters, h]

theorem extraLost_eq (ws : List Worker) : extraLost ws = (ws.map (·.extraLost)).sum := by
  rw [extraLost, List.sum_eq_foldl, List.foldl_map]

theorem Tracker.totalLost_detectGaps (t : Tracker) : t.detectGaps.1.totalLost = t.totalLost := by
  simp [Tracker.totalLost, Tracker.sum, Tracker.detectGaps, Tracker.mapProducers, Tracker.report,
    Function.comp_def]

/-- **What a group's snapshot calls lost**: what the tracker and the other
detectors of each channel say, added up. -/
theorem lost_finalSnapshot {hist : Histogram} {name : WorkerName} (h : name.isRPCWorker = false)
    (ws : List Worker) :
    (finalSnapshot hist name ws).lost =
      (ws.map fun w => UInt64.ofNat w.base.trk.totalLost + w.extraLost).sum := by
  rw [finalSnapshot, captureWorkerSnapshot, Capture.conclude, Capture.lost_foldl h, extraLost_eq,
    List.sum_map_add, List.map_map, List.map_map]
  simp only [Function.comp_def, Worker.step, Tracker.totalLost_detectGaps]
  exact congrArg (· + _) (zero_add _)

/-! ## A configuration to run -/

/-- The default configuration with the smallest reorder window. -/
def smallWindow : RunnableConfig where
  cfg := { defaultConfig with message := { defaultConfig.message with reorderWindow := 100 } }
  accepted := by decide +kernel
  window := minReorderWindow
  window_eq := rfl

/-- A histogram that counts and has no quantiles. -/
def countOnly : Histogram := ⟨fun values => values.length, fun _ _ => 0, rfl⟩

end Burnin
