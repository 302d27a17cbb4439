/-
The loss a run ends with: the `Lost` that `shutdownWorkers` captures of a
worker, against what was sent and delivered.

Two detectors speak in it. The tracker reports a sequence that its window slid
over, and only the calls since the last reset count (`totalLost_after`). The
subscriber trackers report highest minus unique, and every delivery of the run
counts (`SubTracker.missing_after`). Three properties a reader of the snapshot
would want do not hold of it, and for each it is proved exactly when it does:

* what was sent between two delivered sequences and not delivered is reported;
* a sequence that was used up by a failed `Send` is not reported;
* no sequence is reported twice.
-/
import Burnin.WorkerFacts

namespace Burnin

open Tracker Worker

/-! ## The detectors of a worker -/

/-- The sequences that the tracker of a worker suspects at the end of a run. -/
def suspects (c : RunnableConfig) (idx : Nat) (pat : Pattern) (es : List Worker.Event) : Set UInt64 :=
  {q | Suspected c.window (channel pat.name idx) (trackerCalls (channel pat.name idx) es) q}

theorem totalLost_after {c : RunnableConfig} {idx : Nat} {pat : Pattern} (hp : pat ≠ .events)
    (es : List Worker.Event) :
    ((new c idx pat).after es).base.trk.totalLost = (suspects c idx pat es).ncard := by
  rw [trk_after hp, totalLost_calls fun p' seq h => (record_mem_trackerCalls.mp h).1]
  rfl

theorem ncard_suspects_lt (c : RunnableConfig) (idx : Nat) (pat : Pattern) (es : List Worker.Event) :
    (suspects c idx pat es).ncard < 2 ^ 64 := by
  have hle : (suspects c idx pat es).ncard ≤ 2 ^ 64 - 1 :=
    ncard_suspected_le fun seq _ => Nat.le_sub_one_of_lt seq.toNat_lt
  omega

/-- The `Lost` captured of the one channel of a worker at the end of a run. -/
def finalLost (hist : Histogram) (c : RunnableConfig) (idx : Nat) (pat : Pattern)
    (es : List Worker.Event) :
    UInt64 :=
  (finalSnapshot hist pat.name [(new c idx pat).after es]).lost

theorem finalLost_eq (hist : Histogram) (c : RunnableConfig) (idx : Nat) (pat : Pattern)
    (es : List Worker.Event) :
    finalLost hist c idx pat es =
      .ofNat ((new c idx pat).after es).base.trk.totalLost + ((new c idx pat).after es).extraLost := by
  have hrpc : pat.name.isRPCWorker = false := by cases pat <;> rfl
  rw [finalLost, lost_finalSnapshot hrpc, List.map_singleton, List.sum_singleton]

/-- A worker with no detector but the tracker reports the suspects. -/
theorem finalLost_queue (hist : Histogram) (c : RunnableConfig) (idx : Nat) {pat : Pattern}
    (hp : pat = .queues ∨ pat = .creditFlow) (es : List Worker.Event) :
    (finalLost hist c idx pat es).toNat = (suspects c idx pat es).ncard := by
  have hne : pat ≠ .events := by rcases hp with rfl | rfl <;> decide
  have hextra : ((new c idx pat).after es).extraLost = 0 := by
    rw [Worker.extraLost, detectors_after]
    rcases hp with rfl | rfl <;> rfl
  rw [finalLost_eq, hextra, add_zero, totalLost_after hne, UInt64.toNat_ofNat',
    Nat.mod_eq_of_lt (ncard_suspects_lt c idx pat es)]

/-- An events_store worker reports the suspects, and what its store tracker
misses. -/
theorem finalLost_store (hist : Histogram) (c : RunnableConfig) (idx : Nat) (es : List Worker.Event) :
    (finalLost hist c idx .eventsStore es).toNat =
      ((suspects c idx .eventsStore es).ncard +
        (SubTracker.after (deliveries es)).missing) % 2 ^ 64 := by
  rw [finalLost_eq, totalLost_after (by decide), Worker.extraLost, detectors_after]
  simp only [detectorsOf, UInt64.toNat_add, UInt64.toNat_ofNat', Nat.add_mod_mod, Nat.mod_add_mod]

/-! ## Every loss is reported -/

/-- Sent with success, between two sequences delivered in the measurement
window, and not delivered in it. -/
def unreceived (c : RunnableConfig) (idx : Nat) (pat : Pattern) (es : List Worker.Event) :
    Finset UInt64 :=
  let received := deliveries (measured es)
  (accepted (new c idx pat) es).toFinset.filter fun q =>
    (∃ r ∈ received, r ≤ q) ∧ (∃ r ∈ received, q ≤ r) ∧ q ∉ received

/-- **When the loss reported at the end is complete.** At least as many are
reported as were sent between two delivered sequences and not delivered,
exactly when those among them that no delivery slid the window over are at most
the suspects that are not among them. -/
theorem loss_complete_iff (hist : Histogram) (c : RunnableConfig) (idx : Nat) {pat : Pattern}
    (hp : pat = .queues ∨ pat = .creditFlow) (es : List Worker.Event) :
    (unreceived c idx pat es).card ≤ (finalLost hist c idx pat es).toNat ↔
      {q | q ∈ unreceived c idx pat es ∧
          ¬ Evicted c.window (channel pat.name idx) (trackerCalls (channel pat.name idx) es) q}.ncard ≤
        {q | q ∈ suspects c idx pat es ∧ q ∉ unreceived c idx pat es}.ncard := by
  have hset : {q | q ∈ unreceived c idx pat es ∧
      ¬ Evicted c.window (channel pat.name idx) (trackerCalls (channel pat.name idx) es) q} =
        (unreceived c idx pat es : Set UInt64) \ suspects c idx pat es := by
    ext q
    refine and_congr_right fun hq => not_congr (suspected_iff_evicted fun hr => ?_).symm
    exact (Finset.mem_filter.mp hq).2.2.2 (record_mem_trackerCalls.mp hr).2
  rw [hset, finalLost_queue hist c idx hp, ← Set.ncard_coe_finset]
  have h1 := Set.ncard_inter_add_ncard_sdiff_eq_ncard (unreceived c idx pat es : Set UInt64)
    (suspects c idx pat es)
  have h2 := Set.ncard_inter_add_ncard_sdiff_eq_ncard (suspects c idx pat es)
    (unreceived c idx pat es : Set UInt64)
  rw [Set.inter_comm] at h2
  have h3 : {q | q ∈ suspects c idx pat es ∧ q ∉ unreceived c idx pat es} =
      suspects c idx pat es \ (unreceived c idx pat es : Set UInt64) := rfl
  rw [h3]
  omega

/-- `n` messages sent with success, then the deliveries `seqs`. -/
def sendThenDeliver (n : Nat) (seqs : List UInt64) : List Worker.Event :=
  .replicate n (.send .accepted) ++ seqs.map (.deliver 0 ·)

/-- The attempts 1, 2 and 103 succeed, and 1 and 103 are delivered: the second
delivery slides the window over 2. -/
def secondLost : List Worker.Event :=
  [.send .accepted, .send .accepted] ++ .replicate 100 (.send .failed) ++
    [.send .accepted, .deliver 0 1, .deliver 0 103]

set_option maxRecDepth 20000 in
theorem loss_complete_secondLost :
    {q | q ∈ unreceived smallWindow 1 .queues secondLost ∧
        ¬ Evicted minReorderWindow (channel .queues 1)
          (trackerCalls (channel .queues 1) secondLost) q}.ncard ≤
      {q | q ∈ suspects smallWindow 1 .queues secondLost ∧
        q ∉ unreceived smallWindow 1 .queues secondLost}.ncard :=
  (loss_complete_iff countOnly smallWindow 1 (.inl rfl) secondLost).mp (by decide +kernel)

set_option maxRecDepth 20000 in
/-- Of three messages the second is not delivered, and nothing is reported. -/
theorem gap_in_window_not_reported :
    ¬ (unreceived smallWindow 1 .queues (sendThenDeliver 3 [1, 3])).card ≤
      (finalLost countOnly smallWindow 1 .queues (sendThenDeliver 3 [1, 3])).toNat := by
  decide +kernel

/-! ## Failed sends -/

/-- A run from the start, with a broker that delivers what it accepted once, in
order, to each subscriber, and nothing else. -/
structure ExactlyOnce (c : RunnableConfig) (idx : Nat) (pat : Pattern) (es : List Worker.Event) :
    Prop where
  fresh : .resetAfterWarmup ∉ es
  delivered : match pat with
    | .events => ∀ sub < subscribers c, deliveriesTo sub es = accepted (new c idx pat) es
    | _ => deliveries es = accepted (new c idx pat) es

/-- The outcomes that leave no loss behind. Highest minus unique takes every
attempt that failed before one that succeeded for a loss. The tracker starts at
the first success and takes it for one when the window slides over it. -/
def NoLossFrom (w : ReorderWindow) (os : List Outcome) : Pattern → Prop
  | .queues | .creditFlow =>
    ∀ i j k, i < j → j < k → Succeeds os i → ¬ Succeeds os j → Succeeds os k → k ≤ j + w.size
  | .events | .eventsStore => ∀ j k, j < k → Succeeds os k → Succeeds os j

section
variable {c : RunnableConfig} {idx : Nat} {pat : Pattern} {es : List Worker.Event}
  (hn : (outcomes es).length < 2 ^ 64)
include hn

theorem succ_mem_accepted {i : Nat} :
    i + 1 ∈ (accepted (new c idx pat) es).map UInt64.toNat ↔ Succeeds (outcomes es) i := by
  rw [mem_accepted hn]
  constructor
  · intro ⟨j, hj, hs⟩
    obtain rfl := Nat.succ_inj.mp hj
    exact hs
  · exact fun hs => ⟨i, rfl, hs⟩

theorem le_of_mem_accepted {q : UInt64} (hq : q ∈ accepted (new c idx pat) es) :
    q.toNat ≤ (outcomes es).length := by
  obtain ⟨i, hi, hs⟩ := (mem_accepted hn).mp (List.mem_map_of_mem hq)
  obtain ⟨hlt, _⟩ := List.getElem?_eq_some_iff.mp hs
  omega

theorem suspects_eq_empty_iff (hfresh : .resetAfterWarmup ∉ es)
    (hdel : deliveries es = accepted (new c idx pat) es) :
    suspects c idx pat es = ∅ ↔ ∀ i j k, i < j → j < k → Succeeds (outcomes es) i →
      ¬ Succeeds (outcomes es) j → Succeeds (outcomes es) k → k ≤ j + c.window.size := by
  have hord : ((accepted (new c idx pat) es).map UInt64.toNat).Pairwise (· < ·) := accepted_sorted hn
  rw [← not_iff_not, ← ne_eq, ← Set.nonempty_iff_ne_empty]
  refine exists_suspected_iff_gap.trans ?_
  rw [numbers_trackerCalls, measured_of_fresh hfresh, hdel, Gap.exists_suspected_iff c.window.pos hord]
  push Not
  constructor
  · intro ⟨s₀, hs₀, j, hj, hjH, k, hk, hjk⟩
    obtain ⟨i, rfl, hi⟩ := (mem_accepted hn).mp (List.mem_of_mem_head? hs₀)
    obtain ⟨k, rfl, hsk⟩ := (mem_accepted hn).mp hk
    obtain ⟨j, rfl⟩ : ∃ j', j = j' + 1 := ⟨j - 1, by omega⟩
    exact ⟨i, j, k, by omega, by omega, hi, fun h => hjH ((succ_mem_accepted hn).mpr h), hsk, by omega⟩
  · intro ⟨i, j, k, hij, hjk, hi, hj, hk, hlt⟩
    have hiH : i + 1 ∈ (accepted (new c idx pat) es).map UInt64.toNat := (succ_mem_accepted hn).mpr hi
    obtain ⟨s₀, hs₀, hle⟩ : ∃ s₀ ∈ ((accepted (new c idx pat) es).map UInt64.toNat).head?,
        s₀ ≤ i + 1 := by
      cases hH : (accepted (new c idx pat) es).map UInt64.toNat with
      | nil => rw [hH] at hiH; simp at hiH
      | cons s₀ H =>
        rw [hH] at hiH hord
        rcases List.mem_cons.mp hiH with h | h
        · exact ⟨s₀, rfl, by omega⟩
        · exact ⟨s₀, rfl, Nat.le_of_lt ((List.pairwise_cons.mp hord).1 _ h)⟩
    exact ⟨s₀, hs₀, j + 1, by omega, fun h => hj ((succ_mem_accepted hn).mp h), k + 1,
      (succ_mem_accepted hn).mpr hk, by omega⟩

theorem missing_eq_zero_iff :
    (SubTracker.after (accepted (new c idx pat) es)).missing = 0 ↔
      ∀ j k, j < k → Succeeds (outcomes es) k → Succeeds (outcomes es) j := by
  have h0 : 0 ∉ accepted (new c idx pat) es := by
    intro h
    obtain ⟨i, hi, _⟩ := (mem_accepted hn).mp (List.mem_map_of_mem h)
    exact absurd hi (by simp)
  rw [SubTracker.missing_of_sorted (accepted_sorted hn) h0, Finset.card_eq_zero]
  constructor
  · intro hgaps j k hjk hk
    have hkH : k + 1 ∈ (accepted (new c idx pat) es).map UInt64.toNat := (succ_mem_accepted hn).mpr hk
    obtain ⟨q, hq, hqk⟩ := List.mem_map.mp hkH
    have htop := SubTracker.le_top hq
    by_contra hj
    have hmem : j + 1 ∈ SubTracker.gaps (accepted (new c idx pat) es) :=
      SubTracker.mem_gaps.mpr ⟨by omega, by omega, fun h => hj ((succ_mem_accepted hn).mp h)⟩
    rw [hgaps] at hmem
    simp at hmem
  · intro hs
    refine Finset.eq_empty_of_forall_notMem fun n hmem => ?_
    obtain ⟨h1, htop, hnot⟩ := SubTracker.mem_gaps.mp hmem
    obtain ⟨j, rfl⟩ : ∃ j, n = j + 1 := ⟨n - 1, by omega⟩
    -- Some delivered sequence is not below the gap.
    obtain ⟨q, hq, hjq⟩ : ∃ q ∈ accepted (new c idx pat) es, j + 1 ≤ q.toNat := by
      by_contra hall
      push Not at hall
      have := SubTracker.top_le fun q hq => Nat.le_of_lt_succ (hall q hq)
      omega
    obtain ⟨k, hk, hsk⟩ := (mem_accepted hn).mp (List.mem_map_of_mem hq)
    refine hnot ((succ_mem_accepted hn).mpr ?_)
    rcases Nat.eq_or_lt_of_le (show j ≤ k by omega) with rfl | hlt
    · exact hsk
    · exact hs j k hlt hsk

end

theorem finalLost_events (hist : Histogram) (c : RunnableConfig) (idx : Nat) (es : List Worker.Event) :
    finalLost hist c idx .events es = 0 ↔
      ∀ sub < subscribers c, (SubTracker.after (deliveriesTo sub es)).missing = 0 := by
  have htrk : ((new c idx .events).after es).base.trk.totalLost = 0 := by
    rw [totalLost, Tracker.sum, trk_after_events]
    rfl
  rw [finalLost_eq, htrk, show UInt64.ofNat 0 = 0 from rfl, zero_add, extraLost_eq_zero_iff]
  simp only [SubTracker.missing_after_eq_zero]

section
variable {c : RunnableConfig} {idx : Nat} {es : List Worker.Event} (hn : (outcomes es).length < 2 ^ 63)
  (hfresh : .resetAfterWarmup ∉ es)
include hn hfresh

theorem finalLost_queue_eq_zero_iff (hist : Histogram) {pat : Pattern}
    (hp : pat = .queues ∨ pat = .creditFlow) (hdel : deliveries es = accepted (new c idx pat) es) :
    finalLost hist c idx pat es = 0 ↔ NoLossFrom c.window (outcomes es) .queues := by
  rw [← UInt64.toNat_inj, finalLost_queue hist c idx hp]
  exact (Set.ncard_eq_zero (Set.toFinite _)).trans (suspects_eq_empty_iff (by omega) hfresh hdel)

theorem finalLost_store_eq_zero_iff (hist : Histogram)
    (hdel : deliveries es = accepted (new c idx .eventsStore) es) :
    finalLost hist c idx .eventsStore es = 0 ↔ NoLossFrom c.window (outcomes es) .eventsStore := by
  have hn' : (outcomes es).length < 2 ^ 64 := by omega
  have hle : ∀ q ∈ deliveries es, q.toNat ≤ (outcomes es).length := fun q hq =>
    le_of_mem_accepted hn' (hdel ▸ hq)
  have hsus : (suspects c idx .eventsStore es).ncard ≤ (outcomes es).length :=
    ncard_suspected_le fun seq hseq => by
      rw [record_mem_trackerCalls, measured_of_fresh hfresh] at hseq
      exact hle seq hseq.2
  have hmiss : (SubTracker.after (deliveries es)).missing ≤ (outcomes es).length :=
    (SubTracker.missing_after_le _).trans (SubTracker.top_le hle)
  have hzero : (SubTracker.after (deliveries es)).missing = 0 ↔
      NoLossFrom c.window (outcomes es) .eventsStore := by
    rw [hdel]
    exact missing_eq_zero_iff hn'
  rw [← UInt64.toNat_inj, finalLost_store, Nat.mod_eq_of_lt (by omega)]
  constructor
  · intro h
    exact hzero.mp (Nat.eq_zero_of_add_eq_zero h).2
  · intro h
    -- Without a gap there is nothing to suspect either.
    have hempty := (suspects_eq_empty_iff hn' hfresh hdel).mpr fun i j k _ hjk _ hj hk =>
      absurd (h j k hjk hk) hj
    rw [hempty, Set.ncard_empty, hzero.mpr h]
    rfl

end

/-- **When failed sends are not loss.** A fresh worker whose broker delivers
what it accepted, once and in order, ends with no loss, exactly when the
outcomes of its attempts leave none behind. -/
theorem lost_eq_zero_iff (hist : Histogram) (c : RunnableConfig) (idx : Nat) (pat : Pattern)
    (es : List Worker.Event) (hb : ExactlyOnce c idx pat es) (hn : (outcomes es).length < 2 ^ 63) :
    finalLost hist c idx pat es = 0 ↔ NoLossFrom c.window (outcomes es) pat := by
  obtain ⟨hfresh, hdel⟩ := hb
  cases pat with
  | queues => exact finalLost_queue_eq_zero_iff hn hfresh hist (.inl rfl) hdel
  | creditFlow => exact finalLost_queue_eq_zero_iff hn hfresh hist (.inr rfl) hdel
  | eventsStore => exact finalLost_store_eq_zero_iff hn hfresh hist hdel
  | events =>
    have hn' : (outcomes es).length < 2 ^ 64 := by omega
    rw [finalLost_events]
    constructor
    · intro h
      have hmiss := h 0 (subscribers_pos c)
      rw [hdel 0 (subscribers_pos c)] at hmiss
      exact (missing_eq_zero_iff hn').mp hmiss
    · intro h sub hsub
      rw [hdel sub hsub]
      exact (missing_eq_zero_iff hn').mpr h

/-- The second of three attempts fails, and what the broker accepted is
delivered. -/
def secondFailed : List Worker.Event :=
  [.send .accepted, .deliver 0 1, .send .failed, .send .accepted, .deliver 0 3]

set_option maxRecDepth 20000 in
theorem lost_eq_zero_secondFailed :
    ExactlyOnce smallWindow 1 .queues secondFailed ∧
      finalLost countOnly smallWindow 1 .queues secondFailed = 0 := by
  have hb : ExactlyOnce smallWindow 1 .queues secondFailed := ⟨by decide, by decide +kernel⟩
  refine ⟨hb, (lost_eq_zero_iff countOnly smallWindow 1 .queues secondFailed hb (by decide)).mpr ?_⟩
  intro i j k _ _ _ _ hk
  obtain ⟨hlt, _⟩ := List.getElem?_eq_some_iff.mp hk
  have hlen : (outcomes secondFailed).length = 3 := rfl
  have hsize : smallWindow.window.size = 100 := rfl
  omega

set_option maxRecDepth 20000 in
/-- An events_store worker takes the sequence of the failed attempt for a loss. -/
theorem failed_send_reported :
    ExactlyOnce smallWindow 1 .eventsStore secondFailed ∧ (outcomes secondFailed).length < 2 ^ 63 ∧
      finalLost countOnly smallWindow 1 .eventsStore secondFailed ≠ 0 :=
  ⟨⟨by decide, by decide +kernel⟩, by decide, by decide +kernel⟩

/-! ## Each loss is reported once -/

/-- **When no loss is reported twice.** What an events_store worker reports is
at most the gaps in what was delivered, exactly when the suspects are no more
than the gaps and no more than the deliveries that its store tracker counts
beyond the sequences from 1 on, or when the sum of the two detectors wraps. -/
theorem store_lost_le_iff (hist : Histogram) (c : RunnableConfig) (idx : Nat) (es : List Worker.Event) :
    (finalLost hist c idx .eventsStore es).toNat ≤ (SubTracker.gaps (deliveries es)).card ↔
      (suspects c idx .eventsStore es).ncard ≤
          min (SubTracker.gaps (deliveries es)).card (SubTracker.surplus (deliveries es)) ∨
        2 ^ 64 ≤ (suspects c idx .eventsStore es).ncard +
          ((SubTracker.gaps (deliveries es)).card - SubTracker.surplus (deliveries es)) := by
  have hsus := ncard_suspects_lt c idx .eventsStore es
  have hmiss := (SubTracker.after (deliveries es)).missing_lt
  rw [finalLost_store]
  rw [SubTracker.missing_after] at hmiss ⊢
  omega

set_option maxRecDepth 20000 in
/-- Of 203 messages the first and the last are delivered: 201 are missing, and
301 are reported. -/
theorem store_lost_counted_twice :
    ¬ (finalLost countOnly smallWindow 1 .eventsStore (sendThenDeliver 203 [1, 203])).toNat ≤
      (SubTracker.gaps (deliveries (sendThenDeliver 203 [1, 203]))).card := by
  decide +kernel

end Burnin
