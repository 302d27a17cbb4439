/-
What a worker's counters say of a run, for each of the six workers.

* A delivery is counted as one duplicate at most, but for one that both
  detectors of an events_store worker call a repeat (`counted_once_iff`).
* A recorded drop fails the run on the events worker only
  (`drops_fail_iff`), and no other worker's drop is looked at.
* Nothing of warmup is left after the reset but what the subscriber trackers,
  which it does not reach, take for missing (`warmup_cleared_iff`).
-/
import Burnin.Group
import Burnin.RpcFacts
import Burnin.VerdictFacts

namespace Burnin

open Machine Past

/-! ## One delivery -/

namespace BaseWorker

theorem handleDelivery_counts (b : BaseWorker) (m : Option Envelope) :
    (b.handleDelivery m).duplicated = b.duplicated + (b.trk.flags m).toNat ∧
      (b.handleDelivery m).received = b.received + 1 := by
  cases m with
  | none => exact ⟨rfl, rfl⟩
  | some m =>
    obtain ⟨h1, h2⟩ := b.inspect_counts m
    obtain ⟨h3, h4⟩ := (b.inspect m).recordTracked_counts m.producerID m.seq
    rw [h1, (b.inspect_spec m).1] at h3
    rw [h2] at h4
    exact ⟨h3, congrArg (· + 1) h4⟩

theorem drainSub_counts (b : BaseWorker) (st : SubTracker) (m : Option Envelope) :
    (b.drainSub st m).1.duplicated = b.duplicated + (st.flags m).toNat ∧
      (b.drainSub st m).1.received = b.received + 1 := by
  cases m with
  | none => exact ⟨rfl, rfl⟩
  | some m =>
    obtain ⟨h1, h2⟩ := b.inspect_counts m
    obtain ⟨h3, h4⟩ := (b.inspect m).recordSub_counts st m.seq
    rw [h1] at h3
    rw [h2] at h4
    exact ⟨h3, congrArg (· + 1) h4⟩

theorem handleStoreDelivery_counts (b : BaseWorker) (st : SubTracker) (m : Option Envelope) :
    (b.handleStoreDelivery st m).1.duplicated = b.duplicated + (st.flags m).toNat +
      (b.trk.flags m).toNat ∧
      (b.handleStoreDelivery st m).1.received = b.received + 1 := by
  cases m with
  | none => exact ⟨rfl, rfl⟩
  | some m =>
    obtain ⟨h1, h2⟩ := b.inspect_counts m
    obtain ⟨h3, h4⟩ := (b.inspect m).recordSub_counts st m.seq
    obtain ⟨h5, h6⟩ := ((b.inspect m).recordSub st m.seq).1.recordTracked_counts m.producerID m.seq
    rw [h3, h1, ((b.inspect m).recordSub_spec st m.seq).1, (b.inspect_spec m).1] at h5
    rw [h4, h2] at h6
    exact ⟨h5, congrArg (· + 1) h6⟩

end BaseWorker

/-- What a step does to the counts of duplicates and of receipts: it clears
both, or counts `k` duplicates, of a delivery if there are any. -/
inductive Counted (k : Nat) (b b' : BaseWorker) : Prop
  | cleared (h : k = 0) (duplicated : b'.duplicated = 0) (received : b'.received = 0)
  | same (h : k = 0) (duplicated : b'.duplicated = b.duplicated) (received : b'.received = b.received)
  | receipt (duplicated : b'.duplicated = b.duplicated + k) (received : b'.received = b.received + 1)

namespace Worker

/-- How many detectors call a delivery a repeat. -/
def repeats (w : Worker) (sub : Nat) (m : Option Envelope) : Nat :=
  match w.detectors with
  | .none => (w.base.trk.flags m).toNat
  | .subTrackers ts => (ts[sub]?.elim false (·.flags m)).toNat
  | .storeTrk st => (st.flags m).toNat + (w.base.trk.flags m).toNat

theorem repeats_none (w : Worker) (sub : Nat) : w.repeats sub .none = 0 := by
  unfold repeats
  cases w.detectors with
  | subTrackers ts => cases hts : ts[sub]? <;> simp [hts, SubTracker.flags]
  | _ => rfl

theorem handle_counted (w : Worker) (sub : Nat) (m : Option Envelope) :
    Counted (w.repeats sub m) w.base (w.handle sub m).base := by
  unfold handle repeats
  cases w.detectors with
  | none => exact .receipt (w.base.handleDelivery_counts m).1 (w.base.handleDelivery_counts m).2
  | subTrackers ts =>
    dsimp only
    cases ts[sub]? with
    | none => exact .same rfl rfl rfl
    | some st => exact .receipt (w.base.drainSub_counts st m).1 (w.base.drainSub_counts st m).2
  | storeTrk st =>
    obtain ⟨h1, h2⟩ := w.base.handleStoreDelivery_counts st m
    exact .receipt (h1.trans (Nat.add_assoc _ _ _)) h2

/-- How many detectors call a repeat what a step delivers. -/
def repeated (w : Worker) : Event → Nat
  | .deliver sub seq crcMismatch latency =>
    w.repeats sub (.some { producerID := w.base.channelName, seq, crcMismatch, latency })
  | _ => 0

theorem step_counted (w : Worker) (e : Event) : Counted (w.repeated e) w.base (w.step e).base := by
  cases e with
  | send o => cases o <;> exact .same rfl rfl rfl
  | deliver sub seq crcMismatch latency => exact w.handle_counted sub _
  | untracked sub =>
    have h := w.handle_counted sub .none
    rw [repeats_none] at h
    exact h
  | resetAfterWarmup => exact .cleared rfl rfl rfl
  | _ => exact .same rfl rfl rfl

end Worker

theorem RpcRequester.Moves.counted {verifyOutcome : Bool} {rq rq' : RpcRequester} {b b' : BaseWorker}
    {e : RpcRequester.Event} (h : rq.Moves verifyOutcome b e rq' b') : ∃ k ≤ 1, Counted k b b' := by
  cases h with
  | request h o => cases o <;> exact ⟨0, Nat.zero_le 1, .same rfl rfl rfl⟩
  | @reply req h r elapsed =>
    obtain ⟨h1, h2⟩ := b.accountReply_counts verifyOutcome r req.correlation elapsed
    by_cases hacc : BaseWorker.Accounted verifyOutcome r req.correlation
    · rw [if_pos hacc] at h1 h2
      exact ⟨_, Bool.toNat_le _, .receipt h1 h2⟩
    · rw [if_neg hacc] at h1 h2
      exact ⟨0, Nat.zero_le 1, .same rfl h1 h2⟩
  | _ => exact ⟨0, Nat.zero_le 1, .same rfl rfl rfl⟩

theorem RpcWorker.step_counted {w w' : RpcWorker} {e : RpcWorker.Event} (h : w.step e = .some w') :
    ∃ k ≤ 1, Counted k w.base w'.base := by
  cases e with
  | startProducers =>
    simp only [step] at h
    split at h
    · cases h; exact ⟨0, Nat.zero_le 1, .same rfl rfl rfl⟩
    · cases h
  | requester k e =>
    obtain ⟨rq, rq', base, -, hm, rfl⟩ := step_requester h
    exact hm.counted
  | resetAfterWarmup => cases h; exact ⟨0, Nat.zero_le 1, .cleared rfl rfl rfl⟩
  | _ => cases h; exact ⟨0, Nat.zero_le 1, .same rfl rfl rfl⟩

namespace AnyWorker

/-- Two detectors call a repeat what a step delivers. -/
def RepeatedTwice : AnyWorker → AnyEvent → Prop
  | .plain w, .plain e => 1 < w.repeated e
  | _, _ => False

theorem step_counted {w w' : AnyWorker} {e : AnyEvent} (h : w.step e = .some w') :
    ∃ k, Counted k w.base w'.base ∧ (1 < k ↔ w.RepeatedTwice e) := by
  cases w with
  | plain w =>
    cases e with
    | plain e => cases h; exact ⟨_, w.step_counted e, Iff.rfl⟩
    | rpc e => cases h
  | rpc w =>
    cases e with
    | plain e => cases h
    | rpc e =>
      obtain ⟨w', hs, rfl⟩ := Option.map_eq_some_iff.mp h
      obtain ⟨k, hk, hc⟩ := RpcWorker.step_counted hs
      exact ⟨k, hc, fun h => absurd h (Nat.not_lt.mpr hk), False.elim⟩

/-! ## Whole runs -/

/-- The next step counts one duplicate at most, and leaves no more of them than
receipts. -/
def CountsOnce (w₀ : AnyWorker) (pre : List AnyEvent) (e : AnyEvent) : Prop :=
  ∀ w w', exec step w₀ pre = .some w → w.step e = .some w' →
    w'.base.duplicated ≤ w.base.duplicated + 1 ∧ w'.base.duplicated ≤ w'.base.received

/-- No two detectors call a repeat what the next step delivers. -/
def RepeatedOnce (w₀ : AnyWorker) (pre : List AnyEvent) (e : AnyEvent) : Prop :=
  ∀ w, exec step w₀ pre = .some w → ¬ w.RepeatedTwice e

theorem received_le_length {w₀ : AnyWorker} (h₀ : w₀.base.received = 0) {es : List AnyEvent}
    {w : AnyWorker} (h : exec step w₀ es = .some w) : w.base.received ≤ es.length := by
  refine exec_rec (P := fun es w => w.base.received ≤ es.length) (Nat.le_of_eq h₀) ?_ h
  intro es w e w' _ ih hs
  obtain ⟨k, hc, -⟩ := step_counted hs
  rw [List.length_append]
  cases hc <;> grind

theorem duplicated_le_received {w₀ : AnyWorker} (h₀ : w₀.base.duplicated = 0) {es : List AnyEvent}
    {w : AnyWorker} (h : exec step w₀ es = .some w) (hr : Always (RepeatedOnce w₀) es) :
    w.base.duplicated ≤ w.base.received := by
  refine exec_rec (P := fun es w => Always (RepeatedOnce w₀) es → w.base.duplicated ≤ w.base.received)
    (fun _ => h₀.le.trans (Nat.zero_le _)) ?_ h hr
  intro es w e w' hw ih hs hr
  obtain ⟨hr, he⟩ := always_snoc.mp hr
  obtain ⟨k, hc, hk⟩ := step_counted hs
  have hk1 : k ≤ 1 := Nat.not_lt.mp fun h => he w hw (hk.mp h)
  have := ih hr
  cases hc <;> omega

/-- A run counts each delivery once exactly when no two detectors call one a
repeat. -/
theorem counts_once_iff {w₀ : AnyWorker} (h₀ : w₀.base.duplicated = 0) {es : List AnyEvent}
    {w : AnyWorker} (h : exec step w₀ es = .some w) :
    Always (CountsOnce w₀) es ↔ Always (RepeatedOnce w₀) es := by
  refine ⟨fun hA pre e post hes w hw htwice => ?_, fun hA pre e post hes w w' hw hs => ?_⟩
  · rw [hes, exec_append_eq_some] at h
    obtain ⟨w₁, hw₁, h⟩ := h
    rw [hw] at hw₁
    obtain rfl := Option.some.inj hw₁
    rw [exec_cons, Option.bind_eq_some_iff] at h
    obtain ⟨w', hs, -⟩ := h
    obtain ⟨k, hc, hk⟩ := step_counted hs
    have hlt := hk.mpr htwice
    have hle := (hA pre e post hes w w' hw hs).1
    cases hc <;> omega
  · have hpre : Always (RepeatedOnce w₀) pre := hA.of_prefix ⟨e :: post, hes.symm⟩
    have hle := duplicated_le_received h₀ hw hpre
    obtain ⟨k, hc, hk⟩ := step_counted hs
    have hk1 : k ≤ 1 := Nat.not_lt.mp fun h => hA pre e post hes w hw (hk.mp h)
    cases hc <;> omega

end AnyWorker

/-- After `pre`, the next step of an events_store worker delivers what both its
detectors call a repeat: one that the subscriber tracker has kept, and one that
the tracker has kept, has skipped, or has first seen something above. -/
def RepeatsTwice (c : RunnableConfig) (idx : Nat) (pre : List Worker.Event) : Worker.Event → Prop
  | .deliver _ seq _ _ =>
    let p := channel .eventsStore idx
    let cs := Worker.trackerCalls p pre
    SubTracker.Repeats (Worker.deliveries pre) seq ∧
      (Tracked c.window p cs seq ∨ Skipped c.window p cs seq ∨
        ∃ s₀ ∈ (numbers p cs).head?, seq.toNat < s₀)
  | _ => False

/-- The next step of a worker is such a delivery. -/
def DeliversTwice (c : RunnableConfig) (idx : Nat) (name : WorkerName) (pre : List AnyEvent)
    (e : AnyEvent) : Prop :=
  name = .eventsStore ∧ ∃ e', e = .plain e' ∧ RepeatsTwice c idx (AnyWorker.plains pre) e'

namespace AnyWorker

theorem repeated_le_one {w : Worker} (h : ∀ st, w.detectors ≠ .storeTrk st) (e : Worker.Event) :
    w.repeated e ≤ 1 := by
  cases e with
  | deliver sub seq crcMismatch latency =>
    simp only [Worker.repeated, Worker.repeats]
    cases hd : w.detectors with
    | storeTrk st => exact absurd hd (h st)
    | _ => exact Bool.toNat_le _
  | _ => exact Nat.zero_le 1

theorem one_lt_repeated_store (c : RunnableConfig) (idx : Nat) (pre : List Worker.Event)
    (e : Worker.Event) :
    1 < ((Worker.new c idx .eventsStore).after pre).repeated e ↔ RepeatsTwice c idx pre e := by
  cases e with
  | deliver sub seq crcMismatch latency =>
    have hbool : ∀ a b : Bool, 1 < a.toNat + b.toNat ↔ a = true ∧ b = true := by decide
    simp only [Worker.repeated, Worker.repeats, Worker.detectors_after, Worker.detectorsOf, hbool,
      RepeatsTwice, SubTracker.flags, Tracker.flags, SubTracker.record_after_eq_true,
      Worker.trk_after (by decide : Pattern.eventsStore ≠ .events),
      Worker.channelName_after, ← isDuplicate_iff]
    rfl
  | _ => simp [Worker.repeated, RepeatsTwice]

theorem repeatedTwice_iff {c : RunnableConfig} {idx : Nat} {name : WorkerName} {pre : List AnyEvent}
    {w : AnyWorker} (h : exec step (new c idx name) pre = .some w) (e : AnyEvent) :
    w.RepeatedTwice e ↔ DeliversTwice c idx name pre e := by
  rcases new_cases c idx name with ⟨pat, rfl, hnew⟩ | ⟨pat, rfl, hnew⟩
  · rw [hnew] at h
    obtain rfl := exec_plain h
    cases e with
    | plain e =>
      by_cases hp : pat = .eventsStore
      · subst hp
        refine (one_lt_repeated_store c idx _ e).trans ⟨fun h => ⟨rfl, e, rfl, h⟩, fun h => ?_⟩
        obtain ⟨-, e', he, h⟩ := h
        cases he
        exact h
      · have hdet : ∀ st, ((Worker.new c idx pat).after (plains pre)).detectors ≠ .storeTrk st := by
          intro st
          rw [Worker.detectors_after]
          cases pat <;> simp_all [Worker.detectorsOf]
        refine ⟨fun h => absurd h (Nat.not_lt.mpr (repeated_le_one hdet e)), fun h => ?_⟩
        cases pat <;> simp_all [DeliversTwice, Pattern.name]
    | rpc e => simp [RepeatedTwice, DeliversTwice]
  · rw [hnew] at h
    obtain ⟨w, rfl⟩ := exec_rpc h
    cases pat <;> simp [RepeatedTwice, DeliversTwice, RpcPattern.name]

theorem base_new (c : RunnableConfig) (idx : Nat) (name : WorkerName) :
    (new c idx name).base = .new c name idx := by
  cases name <;> rfl

theorem always_repeatedOnce {c : RunnableConfig} {name : WorkerName} (r : ChannelRun c name) :
    Always (RepeatedOnce (new c r.idx name)) r.events ↔
      Always (fun pre e => ¬ DeliversTwice c r.idx name pre e) r.events := by
  refine ⟨fun h pre e post hes => ?_, fun h pre e post hes w hw => ?_⟩
  · have hran := r.ran
    rw [hes, exec_append_eq_some] at hran
    obtain ⟨w, hw, -⟩ := hran
    exact fun hd => h pre e post hes w hw ((repeatedTwice_iff hw e).mpr hd)
  · rw [repeatedTwice_iff hw]
    exact h pre e post hes

end AnyWorker

theorem pct_le_hundred {x y : UInt64} (h : x.toNat ≤ y.toNat) : pct x y ≤ 100 := by
  have hle : (x.toNat / y.toNat : ℚ) ≤ 1 := div_le_one_of_le₀ (Nat.cast_le.mpr h) (Nat.cast_nonneg _)
  unfold pct
  linarith

/-- **When each delivery is one duplicate at most.** In runs of the channels of
a group, no delivery is counted twice, there are never more duplicates than
receipts, and the duplication percentage is at most 100, exactly when no
events_store worker is delivered what both its detectors call a repeat. -/
theorem counted_once_iff (hist : Histogram) (c : RunnableConfig) (name : WorkerName)
    (runs : List (ChannelRun c name)) (hlen : (runs.map (·.events.length)).sum < 2 ^ 64) :
    ((∀ r ∈ runs, Always (AnyWorker.CountsOnce (.new c r.idx name)) r.events) ∧
        pct (captured hist runs).duplicated (captured hist runs).received ≤ 100) ↔
      ∀ r ∈ runs, Always (fun pre e => ¬ DeliversTwice c r.idx name pre e) r.events := by
  have hdup (r : ChannelRun c name) : (AnyWorker.new c r.idx name).base.duplicated = 0 := by
    rw [AnyWorker.base_new]; rfl
  have hrecv (r : ChannelRun c name) : (AnyWorker.new c r.idx name).base.received = 0 := by
    rw [AnyWorker.base_new]; rfl
  have honce (r : ChannelRun c name) :
      Always (AnyWorker.CountsOnce (.new c r.idx name)) r.events ↔
        Always (fun pre e => ¬ DeliversTwice c r.idx name pre e) r.events :=
    (AnyWorker.counts_once_iff (hdup r) r.ran).trans (AnyWorker.always_repeatedOnce r)
  simp only [honce]
  refine and_iff_left_of_imp fun h => ?_
  -- The sums do not wrap, so they are in the order of their summands.
  have hle : (runs.map (·.worker.base.duplicated)).sum ≤ (runs.map (·.worker.base.received)).sum :=
    List.sum_le_sum fun r hr =>
      AnyWorker.duplicated_le_received (hdup r) r.ran ((AnyWorker.always_repeatedOnce r).mpr (h r hr))
  have hlt : (runs.map (·.worker.base.received)).sum < 2 ^ 64 :=
    Nat.lt_of_le_of_lt (List.sum_le_sum fun r _ => AnyWorker.received_le_length (hrecv r) r.ran) hlen
  refine pct_le_hundred ?_
  rw [captured_counter (f := (·.duplicated)) (g := (·.duplicated)) rfl (fun _ _ => rfl) fun _ _ => rfl,
    captured_counter (f := (·.received)) (g := (·.received)) rfl (fun _ _ => rfl) fun _ _ => rfl,
      UInt64.toNat_ofNat_of_lt' hlt, UInt64.toNat_ofNat_of_lt' (Nat.lt_of_le_of_lt hle hlt)]
  exact hle

/-- An events_store worker that is delivered `seqs`. -/
def storeRun (seqs : List UInt64) : ChannelRun smallWindow .eventsStore :=
  .ofPlain smallWindow .eventsStore 1 (seqs.map (Worker.Event.deliver 0))

set_option maxRecDepth 20000 in
/-- Two deliveries in order. -/
theorem counted_once_in_order :
    (∀ r ∈ [storeRun [1, 2]],
        Always (AnyWorker.CountsOnce (.new smallWindow r.idx .eventsStore)) r.events) ∧
      pct (captured countOnly [storeRun [1, 2]]).duplicated
        (captured countOnly [storeRun [1, 2]]).received ≤ 100 := by
  refine (counted_once_iff countOnly smallWindow .eventsStore [storeRun [1, 2]] (by decide)).mpr ?_
  intro r hr
  obtain rfl := List.mem_singleton.mp hr
  refine (always_snoc (H := [_])).mpr ⟨(always_snoc (H := [])).mpr ⟨always_nil, ?_⟩, ?_⟩
  all_goals
    intro h
    obtain ⟨-, e', he, h⟩ := h
    cases he
    exact absurd (SubTracker.record_after_eq_true.mpr h.1) (by decide +kernel)

set_option maxRecDepth 20000 in
/-- Delivered three times, a message is two repeats and four duplicates. -/
theorem store_repeat_counted_twice :
    ¬ Always (AnyWorker.CountsOnce (.new smallWindow 1 .eventsStore)) (storeRun [1, 1, 1]).events ∧
      100 < pct (captured countOnly [storeRun [1, 1, 1]]).duplicated
        (captured countOnly [storeRun [1, 1, 1]]).received := by
  refine ⟨fun h => ?_, by decide +kernel⟩
  have hle :=
    (h [.plain (.deliver 0 1)] (.plain (.deliver 0 1)) [.plain (.deliver 0 1)] rfl _ _ rfl rfl).1
  exact absurd hle (by decide +kernel)

/-! ## Drops -/

namespace Worker

theorem step_eventsDropped (w : Worker) (e : Event) :
    (w.step e).base.eventsDropped = match e with
      | .stalled => w.base.eventsDropped + 1
      | .resetAfterWarmup => 0
      | _ => w.base.eventsDropped := by
  cases e with
  | send o => cases o <;> rfl
  | deliver sub seq crcMismatch latency => exact (w.handle_kept sub _).eventsDropped
  | untracked sub => exact (w.handle_kept sub .none).eventsDropped
  | _ => rfl

theorem eventsDropped_after (c : RunnableConfig) (idx : Nat) (pat : Pattern) (es : List Event) :
    ((new c idx pat).after es).base.eventsDropped = (measured es).count .stalled := by
  induction es using List.reverseRecOn with
  | nil => cases pat <;> rfl
  | append_singleton es e ih =>
    rw [after_snoc, step_eventsDropped, measured_snoc, ih]
    cases e <;> simp

end Worker

theorem eventsDropped_ne_zero (hist : Histogram) {c : RunnableConfig} {pat : Pattern}
    (runs : List (ChannelRun c pat.name)) (hlen : (runs.map (·.events.length)).sum < 2 ^ 64)
    (hdrop : ∃ r ∈ runs, .stalled ∈ Worker.measured (AnyWorker.plains r.events)) :
    (captured hist runs).eventsDropped ≠ 0 := by
  have hcount (r : ChannelRun c pat.name) :
      r.worker.base.eventsDropped = (Worker.measured (AnyWorker.plains r.events)).count .stalled := by
    rw [r.worker_plain]
    exact Worker.eventsDropped_after c r.idx pat _
  have hle (r : ChannelRun c pat.name) : r.worker.base.eventsDropped ≤ r.events.length := by
    rw [hcount]
    exact (List.count_le_length.trans (List.rtakeWhile_suffix _ _).length_le).trans
      (List.length_filterMap_le _ _)
  have hlt : (runs.map (·.worker.base.eventsDropped)).sum < 2 ^ 64 :=
    Nat.lt_of_le_of_lt (List.sum_le_sum fun r _ => hle r) hlen
  obtain ⟨r, hr, hs⟩ := hdrop
  have hpos : 0 < (runs.map (·.worker.base.eventsDropped)).sum := by
    refine Nat.lt_of_lt_of_le ?_ (List.single_le_sum (by simp) _ (List.mem_map_of_mem hr))
    rw [hcount]
    exact List.count_pos_iff.mpr hs
  rw [captured_counter (f := (·.eventsDropped)) (g := (·.eventsDropped)) rfl
    (fun _ _ => rfl) fun _ _ => rfl]
  intro h
  have h := congrArg UInt64.toNat h
  rw [UInt64.toNat_ofNat_of_lt' hlt] at h
  exact absurd h (Nat.ne_of_gt hpos)

/-- Both verdicts of a run fail whenever a worker of pattern `pat` has recorded
a drop in the measurement, whatever else was captured. -/
def DropsFail (c : RunnableConfig) (pat : Pattern) : Prop :=
  ∀ (hist : Histogram) (runs : List (ChannelRun c pat.name)) (snaps : Snapshots),
    (runs.map (·.events.length)).sum < 2 ^ 64 →
    (∃ r ∈ runs, .stalled ∈ Worker.measured (AnyWorker.plains r.events)) →
    snaps.lookup pat.name = .some (captured hist runs) →
    ∀ (measurementDuration : Int) (baseline peak : UInt64) (range : Range snaps) (reads : Reads)
      (range₁ range₂ : (m : Workers) → Range m),
      (computeVerdict c.cfg measurementDuration baseline peak range.entries).passed = false ∧
        (generateVerdict range₁ range₂ (summarize c.cfg snaps reads) c.cfg).passed = false

/-- A snapshot of events that were dropped fails the check of the report. -/
theorem generateVerdict_dropped {cfg : Config} (hen : (cfg.getWorkerConfig .events).enabled = true)
    {snaps : Snapshots} {snap : WorkerSnapshot} (hsnap : snaps.lookup .events = .some snap)
    (hdrop : snap.eventsDropped ≠ 0) (reads : Reads) (range₁ range₂ : (m : Workers) → Range m) :
    (generateVerdict range₁ range₂ (summarize cfg snaps reads) cfg).passed = false := by
  have hstats : (summaryWorkers cfg snaps).lookup .events =
      .some (workerStats (cfg.getWorkerConfig .events) snap) := by
    rw [lookup_summaryWorkers, statsOf, if_pos hen, hsnap]
    rfl
  simp only [generateVerdict, Verdict.conclude, summarize, addMemory_passed, hstats, addEvents,
    workerStats, if_true, Verdict.record_passed, hdrop]
  simp

theorem withinGates_dropped {cfg : Config} {d : Int} {name : WorkerName} (h : name ≠ .events) :
    WithinGates cfg d name { eventsDropped := 1 } := by
  refine ⟨rfl, UInt64.zero_le, fun hn => absurd hn h, ?_, ?_, ?_, ?_, ?_, ?_, ?_, ?_, ?_, ?_⟩ <;> simp

theorem addCounters_resetAfterWarmup (name : WorkerName) (b : BaseWorker) :
    Capture.addCounters name {} b.resetAfterWarmup = {} := by
  simp [Capture.addCounters, BaseWorker.resetAfterWarmup, Tracker.reset, Tracker.totalLost,
    Tracker.totalOutOfOrder, Tracker.sum, SlidingRateWindow.reset, SlidingRateWindow.rate, seconds]

theorem captured_stalled (c : RunnableConfig) {pat : Pattern} (h : pat ≠ .events) :
    captured countOnly [.ofPlain c pat 1 [.resetAfterWarmup, .stalled]] = { eventsDropped := 1 } := by
  have hextra : ((Worker.new c 1 pat).after [.resetAfterWarmup, .stalled]).extraLost = 0 := by
    cases pat with
    | events => exact absurd rfl h
    | _ => rfl
  have hcounters : Capture.addCounters pat.name {}
      ((Worker.new c 1 pat).after [.resetAfterWarmup, .stalled]).base =
      { Capture.addCounters pat.name {} (Worker.new c 1 pat).base.resetAfterWarmup with
        eventsDropped := 1 } := rfl
  refine (captureWorkerSnapshot_silent countOnly pat.name
    (w := (Worker.new c 1 pat).after [.resetAfterWarmup, .stalled]) rfl rfl).trans ?_
  rw [hcounters, addCounters_resetAfterWarmup, hextra]
  rfl

/-- **When a recorded drop fails the run**: on the events worker alone. -/
theorem drops_fail_iff (c : RunnableConfig) (pat : Pattern)
    (hen : (c.cfg.getWorkerConfig pat.name).enabled = true) : DropsFail c pat ↔ pat = .events := by
  refine ⟨fun h => ?_,
    fun hp hist runs snaps hlen hdrop hsnap d baseline peak range reads range₁ range₂ => ?_⟩
  · by_contra hp
    obtain ⟨hf, -⟩ := h countOnly [.ofPlain c pat 1 [.resetAfterWarmup, .stalled]]
      (.insert pat.name { eventsDropped := 1 } ∅) (by simp [ChannelRun.ofPlain])
      ⟨_, List.mem_singleton_self _, by
        rw [ChannelRun.ofPlain, AnyWorker.plains_map]; decide⟩
      (by rw [captured_stalled c hp]; exact AList.lookup_insert _) 0 0 0 (.stored _)
      { snapshots := .none, runConfig := .none, runID := "", runStartedAt := .none, runEndedAt := .none,
        baselineRSS := 0, peakRSS := 0, verdict := .none } .stored .stored
    refine absurd (computeVerdict_passed.mpr fun e he => ?_) (Bool.eq_false_iff.mp hf)
    obtain rfl := List.mem_singleton.mp he
    exact withinGates_dropped fun hn => hp (by cases pat <;> simp_all [Pattern.name])
  · subst hp
    have hne := eventsDropped_ne_zero hist runs hlen hdrop
    refine ⟨Bool.eq_false_iff.mpr fun hpassed => ?_,
      generateVerdict_dropped hen hsnap hne reads range₁ range₂⟩
    have hmem := range.perm.mem_iff.mpr (AList.mem_lookup_iff.mp hsnap)
    exact hne ((computeVerdict_passed.mp hpassed _ hmem).dropped rfl)

/-- The events worker of the defaults. -/
theorem drops_fail_events : DropsFail smallWindow .events :=
  (drops_fail_iff smallWindow .events rfl).mpr rfl

/-- A run of the events_store worker of the defaults in which its credit
stalls: a message is sent and delivered after warmup, then the link is
detached. -/
def stalledRun : ChannelRun smallWindow .eventsStore :=
  .ofPlain smallWindow .eventsStore 1 [.resetAfterWarmup, .send .accepted, .deliver 0 1, .stalled]

set_option maxRecDepth 20000 in
/-- Both verdicts pass it. -/
theorem store_drop_passes :
    .stalled ∈ Worker.measured (AnyWorker.plains stalledRun.events) ∧
      (captured countOnly [stalledRun]).eventsDropped = 1 ∧
      (computeVerdict smallWindow.cfg 20000000 0 0
        [⟨.eventsStore, captured countOnly [stalledRun]⟩]).passed = true ∧
      (generateVerdict .stored .stored
        (summarize smallWindow.cfg (.insert .eventsStore (captured countOnly [stalledRun]) ∅)
          (readsAfter smallWindow.cfg 20000000 0 0
            (.stored (.insert .eventsStore (captured countOnly [stalledRun]) ∅)) "run" (.some 0)
              (.some 20000000)))
        smallWindow.cfg).passed = true := by
  decide +kernel

/-! ## The reset after warmup -/

/-- Everything that `captureWorkerSnapshots` reads of a worker is 0. -/
structure Zeroed (hist : Histogram) (w : Worker) : Prop where
  sent : w.base.sent = 0
  received : w.base.received = 0
  errors : w.base.errors = 0
  corrupted : w.base.corrupted = 0
  reconnections : w.base.reconnections = 0
  downtime : w.base.downtime = 0
  duplicated : w.base.duplicated = 0
  fidelityFails : w.base.fidelityFails = 0
  eventsDropped : w.base.eventsDropped = 0
  rpcSuccessCount : w.base.rpcSuccessCount = 0
  rpcTimeoutCount : w.base.rpcTimeoutCount = 0
  rpcErrorCount : w.base.rpcErrorCount = 0
  totalLost : w.base.trk.totalLost = 0
  totalOutOfOrder : w.base.trk.totalOutOfOrder = 0
  latencies : w.base.latAccum.count hist = 0
  rpcLatencies : w.base.rpcLatAccum.count hist = 0
  peakRate : w.base.peakRate.peak = 0
  avgRate : w.base.rateWindow.rate = 0
  extraLost : w.extraLost = 0

/-- The subscriber trackers of a worker take nothing for missing after a run. -/
def NothingMissing (c : RunnableConfig) (es : List AnyEvent) : WorkerName → Prop
  | .events => ∀ sub < Worker.subscribers c,
      SubTracker.Complete (Worker.deliveriesTo sub (AnyWorker.plains es))
  | .eventsStore => SubTracker.Complete (Worker.deliveries (AnyWorker.plains es))
  | _ => True

theorem AnyWorker.toWorker_resetAfterWarmup (w : AnyWorker) :
    w.resetAfterWarmup.toWorker = { w.toWorker with base := w.base.resetAfterWarmup } := by
  cases w <;> rfl

theorem AnyWorker.extraLost_resetAfterWarmup (w : AnyWorker) :
    w.resetAfterWarmup.toWorker.extraLost = w.toWorker.extraLost := by
  rw [toWorker_resetAfterWarmup]
  rfl

theorem ChannelRun.extraLost_eq_zero_iff {c : RunnableConfig} {name : WorkerName}
    (r : ChannelRun c name) : r.worker.toWorker.extraLost = 0 ↔ NothingMissing c r.events name := by
  have hran := r.ran
  rcases AnyWorker.new_cases c r.idx name with ⟨pat, rfl, hnew⟩ | ⟨pat, rfl, hnew⟩
  · rw [r.worker_plain]
    refine (Worker.extraLost_eq_zero_iff c r.idx pat _).trans ?_
    cases pat <;> exact Iff.rfl
  · rw [hnew] at hran
    obtain ⟨w, hw⟩ := AnyWorker.exec_rpc hran
    rw [hw]
    cases pat <;> exact iff_of_true rfl trivial

/-- The reset clears all but what the detectors beside the tracker have. -/
theorem zeroed_iff (hist : Histogram) (w : AnyWorker) :
    Zeroed hist w.resetAfterWarmup.toWorker ↔ w.toWorker.extraLost = 0 := by
  refine ⟨fun h => (w.extraLost_resetAfterWarmup).symm.trans h.extraLost, fun h => ?_⟩
  have hextra := w.extraLost_resetAfterWarmup.trans h
  rw [w.toWorker_resetAfterWarmup] at hextra ⊢
  have hrate : SlidingRateWindow.rate (SlidingRateWindow.reset w.base.rateWindow) = 0 := by
    simp [SlidingRateWindow.rate, SlidingRateWindow.reset]
  exact ⟨rfl, rfl, rfl, rfl, rfl, rfl, rfl, rfl, rfl, rfl, rfl, rfl, rfl, rfl, hist.totalCount_nil,
    hist.totalCount_nil, rfl, hrate, hextra⟩

theorem captureWorkerSnapshot_zeroed (hist : Histogram) (name : WorkerName) {ws : List Worker}
    (h : ∀ w ∈ ws, Zeroed hist w) : captureWorkerSnapshot hist name ws = {} := by
  have hadd : ∀ w, Zeroed hist w → Capture.add hist name {} w = {} := fun w hw => by
    simp [Capture.add, Capture.addCounters, hw.sent, hw.received, hw.errors, hw.corrupted,
      hw.reconnections, hw.downtime, hw.duplicated, hw.fidelityFails, hw.eventsDropped,
      hw.rpcSuccessCount, hw.rpcTimeoutCount, hw.rpcErrorCount,
      hw.totalLost, hw.totalOutOfOrder, hw.latencies, hw.rpcLatencies, hw.peakRate, hw.avgRate, seconds]
  have hfold : ws.foldl (Capture.add hist name) {} = {} := by
    induction ws with
    | nil => rfl
    | cons w ws ih =>
      rw [List.foldl_cons, hadd w (h w (by simp))]
      exact ih fun w' hw' => h w' (by simp [hw'])
  have hextra : extraLost ws = 0 := by
    rw [extraLost_eq]
    refine List.sum_eq_zero fun x hx => ?_
    obtain ⟨w, hw, rfl⟩ := List.mem_map.mp hx
    exact (h w hw).extraLost
  rw [captureWorkerSnapshot, hfold, hextra]
  rfl

/-- **When the reset leaves nothing of warmup**: after any warmup of the channels
of a group, everything that the snapshot reads is 0, and so is the snapshot,
exactly when no subscriber tracker of an events or events_store worker takes
something for missing. -/
theorem warmup_cleared_iff (hist : Histogram) (c : RunnableConfig) (name : WorkerName)
    (runs : List (ChannelRun c name)) :
    ((∀ r ∈ runs, Zeroed hist r.worker.resetAfterWarmup.toWorker) ∧
        captureWorkerSnapshot hist name (runs.map fun r => r.worker.resetAfterWarmup.toWorker) = {}) ↔
      ∀ r ∈ runs, NothingMissing c r.events name := by
  simp only [zeroed_iff, ChannelRun.extraLost_eq_zero_iff]
  refine and_iff_left_of_imp fun h => captureWorkerSnapshot_zeroed hist name fun w hw => ?_
  obtain ⟨r, hr, rfl⟩ := List.mem_map.mp hw
  exact (zeroed_iff hist r.worker).mpr (r.extraLost_eq_zero_iff.mpr (h r hr))

/-- A warmup of two events, the first of which one of the two subscribers is too
late for. -/
def lateSubscriber : ChannelRun smallWindow .events :=
  .ofPlain smallWindow .events 1
    [.send .accepted, .deliver 0 1, .send .accepted, .deliver 0 2, .deliver 1 2]

set_option maxRecDepth 20000 in
/-- The loss is still there after the reset, and in the snapshot. -/
theorem warmup_loss_leaks :
    lateSubscriber.worker.resetAfterWarmup.toWorker.extraLost = 1 ∧
      (captureWorkerSnapshot countOnly .events
        [lateSubscriber.worker.resetAfterWarmup.toWorker]).lost = 1 ∧
      ¬ Zeroed countOnly lateSubscriber.worker.resetAfterWarmup.toWorker := by
  have hextra : lateSubscriber.worker.resetAfterWarmup.toWorker.extraLost = 1 := by decide +kernel
  refine ⟨hextra, by decide +kernel, fun h => ?_⟩
  exact absurd (hextra.symm.trans h.extraLost) (by decide)

end Burnin
