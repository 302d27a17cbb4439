/-
What holds of the tracker's producer states after every call: the
representation invariant (`representation_invariant`), over histories in which
`Reset` occurs too, and the account of suspected losses, over histories since
`New` or `Reset` (`suspected_entered_once`).

The account lists what the calls wrote into a producer's `pendingLost`
(`insertions`) and what they deleted from it (`recoveries`). Both are read off
the states before each call. A key is written from above the watermark and the
watermark then passes it, so it is never written again.
-/
import Burnin.TrackerHistory

namespace Burnin

open Past Tracker ProducerState

/-! ## One more call -/

section
variable {w : ReorderWindow} {cs : List Call} {p : String}

/-- **Induction over the calls that made a producer's state**: its first
arrival, one more, and a call that records nothing for it. -/
theorem calls_rec {motive : List Call → ProducerState → Prop}
    (first : ∀ cs seq, numbers p cs = [] → motive (cs ++ [.record p seq]) (ProducerState.first w seq))
    (record : ∀ cs ps seq, (calls w cs).producers.lookup p = .some ps → motive cs ps →
      motive (cs ++ [.record p seq]) (recordProducer w (.some ps) seq).1)
    (other : ∀ cs ps c n, c.number p = .none → motive cs ps →
      motive (cs ++ [c]) { ps with lastReportedLost := n })
    {ps : ProducerState} (h : ps ∈ (calls w cs).producers.lookup p) : motive cs ps := by
  induction cs using List.reverseRecOn generalizing ps with
  | nil => simp [calls, new] at h
  | append_singleton cs c ih =>
    rcases Call.record_or_none p c with ⟨seq, rfl⟩ | hc
    · rw [lookup_snoc_record, Option.mem_some_iff] at h
      cases hps : (calls w cs).producers.lookup p with
      | none =>
        rw [hps] at h
        exact h ▸ first cs seq (lookup_eq_none.mp hps)
      | some ps₀ =>
        rw [hps] at h
        exact h ▸ record cs ps₀ seq hps (ih hps)
    · obtain ⟨reported, hl⟩ := lookup_snoc_none w cs hc
      rw [hl, Option.mem_map] at h
      obtain ⟨ps₀, hps₀, rfl⟩ := h
      exact other cs ps₀ c _ hc (ih hps₀)

/-- **The watermark never moves down.** -/
theorem highContiguous_mono {c : Call} {ps ps' : ProducerState}
    (h : ps ∈ (calls w cs).producers.lookup p)
    (h' : ps' ∈ (calls w (cs ++ [c])).producers.lookup p) : ps.highContiguous ≤ ps'.highContiguous := by
  rw [Option.mem_def] at h
  rcases Call.record_or_none p c with ⟨seq, rfl⟩ | hc
  · obtain ⟨st, hst, hr⟩ := exists_state h
    have hs := (Gap.ledger_after hst).toSettled
    rw [lookup_snoc_record, h, Option.mem_some_iff] at h'
    have hr' := (recordProducer_refines hr hs seq).1
    rw [UInt64.le_iff_toNat_le, hr.high, ← h', hr'.high]
    exact (Gap.record_moves hs seq.toNat).high_le
  · obtain ⟨reported, hl⟩ := lookup_snoc_none w cs hc
    rw [hl, h, Option.map_some, Option.mem_some_iff] at h'
    rw [← h']
    exact UInt64.le_refl _

end

/-! ## The representation invariant -/

/-- The state of producer `p` after the calls `cs` since its tracker was new. -/
structure WellFormed (w : ReorderWindow) (p : String) (cs : List Call) (ps : ProducerState) : Prop where
  first_clear : getBit ps.window 0 = false
  rest_clear : ∀ i : Nat, w.size ≤ i → getBit ps.window i = false
  recorded : ∀ i : Nat, getBit ps.window i = true →
    ∃ q : UInt64, q.toNat = ps.highContiguous.toNat + 1 + i ∧ .record p q ∈ cs
  pending_le : ∀ q ∈ ps.pendingLost, q ≤ ps.highContiguous
  lost : ps.confirmedLost = ps.pendingLost.card

theorem wellFormed_calls {w : ReorderWindow} {cs : List Call} {p : String} {ps : ProducerState}
    (h : ps ∈ (calls w cs).producers.lookup p) : WellFormed w p cs ps := by
  obtain ⟨st, hst, hr⟩ := exists_state h
  have hl := Gap.ledger_after hst
  refine
    { first_clear := (hr.bit_false 0).mpr hl.gap
      rest_clear := fun i hi => (hr.bit_false i).mpr fun hm => ?_
      recorded := fun i hi => ?_
      pending_le := fun q hq => ?_
      lost := hr.lost }
  · have := hr.seen_le _ hm
    omega
  · have hm := (hr.bits i).mp hi
    have hq : (UInt64.ofNat (st.high + 1 + i)).toNat = st.high + 1 + i :=
      UInt64.toNat_ofNat_of_lt' (hr.seen_lt _ hm)
    refine ⟨UInt64.ofNat (st.high + 1 + i), by rw [hq, hr.high], mem_numbers.mp ?_⟩
    rw [hq]
    exact ((hl.seen_iff _).mp hm).2.mem
  · rw [UInt64.le_iff_toNat_le, hr.high]
    exact hl.pending_le _ ((hr.pending q).mp hq)

/-- The methods that change a tracker. -/
inductive TrackerOp where
  | call (c : Call)
  | reset
  deriving DecidableEq

namespace Tracker

def op (t : Tracker) : TrackerOp → Tracker
  | .call c => t.call c
  | .reset => t.reset

/-- The tracker after a history in which it may be reset. -/
def ops (w : ReorderWindow) (os : List TrackerOp) : Tracker := os.foldl op (new w)

end Tracker

/-- The calls since the last `Reset`. -/
def sinceReset (os : List TrackerOp) : List Call :=
  os.foldl (fun cs o => match o with
    | .call c => cs ++ [c]
    | .reset => []) []

theorem sinceReset_snoc (os : List TrackerOp) (o : TrackerOp) :
    sinceReset (os ++ [o]) = match o with
      | .call c => sinceReset os ++ [c]
      | .reset => [] := by
  rw [sinceReset, List.foldl_append]
  rfl

/-- Only the calls since the last `Reset` count. -/
theorem ops_eq_calls (w : ReorderWindow) (os : List TrackerOp) : ops w os = calls w (sinceReset os) := by
  induction os using List.reverseRecOn with
  | nil => rfl
  | append_singleton os o ih =>
    have hsnoc : ops w (os ++ [o]) = (ops w os).op o := by simp [ops, List.foldl_append]
    rw [hsnoc, sinceReset_snoc, ih]
    cases o with
    | call c => exact (calls_snoc w _ c).symm
    | reset =>
      simp only [op, reset_eq_new, calls_reorderWindow]
      rfl

/-- **The representation invariant.** After every history every producer's
state is well formed, and one more operation moves no producer's watermark
down unless it ends the producer's life. -/
theorem representation_invariant (w : ReorderWindow) (os : List TrackerOp) :
    (∀ p, ∀ ps ∈ (ops w os).producers.lookup p, WellFormed w p (sinceReset os) ps) ∧
      ∀ o p, ∀ ps ∈ (ops w os).producers.lookup p, ∀ ps' ∈ (ops w (os ++ [o])).producers.lookup p,
        ps.highContiguous ≤ ps'.highContiguous := by
  simp only [ops_eq_calls, sinceReset_snoc]
  refine ⟨fun p ps hps => wellFormed_calls hps, fun o p ps hps ps' hps' => ?_⟩
  cases o with
  | call c => exact highContiguous_mono hps hps'
  | reset => simp [calls, new] at hps'

/-! ## The account of suspected losses -/

namespace ProducerState

/-- The keys that the first loop of `slideWindow` writes into `pendingLost`. -/
def evicted (ps : ProducerState) (slideDist : Nat) : List UInt64 :=
  ((List.range slideDist).filter fun i => !getBit ps.window (i : Nat)).map
    fun i => ps.highContiguous + 1 + UInt64.ofNat i

/-- The keys that `Record` of `seq` writes into `pendingLost`. -/
def suspects (w : ReorderWindow) (ps : ProducerState) (seq : UInt64) : List UInt64 :=
  if seq ≤ ps.highContiguous ∨ seq - ps.highContiguous - 1 < w.u64 ∨
    seq - w.u64 - 1 ≤ ps.highContiguous then []
  else
    let dist := seq - w.u64 - 1 - ps.highContiguous
    ps.evicted (if dist > w.u64 then w.u64 else dist).toNat

/-- `Record` of `seq` deletes it from `pendingLost`. -/
def Recovers (ps : ProducerState) (seq : UInt64) : Prop := seq ≤ ps.highContiguous ∧ seq ∈ ps.pendingLost

instance (ps : ProducerState) (seq : UInt64) : Decidable (ps.Recovers seq) :=
  inferInstanceAs (Decidable (_ ∧ _))

theorem mem_evicted {ps : ProducerState} {n : Nat} {q : UInt64} :
    q ∈ evicted ps n ↔
      ∃ i < n, getBit ps.window (i : Nat) = false ∧ q = ps.highContiguous + 1 + UInt64.ofNat i := by
  simp only [evicted, List.mem_map, List.mem_filter, List.mem_range, Bool.not_eq_true', and_assoc,
    eq_comm (b := q)]

theorem evict_eq (ps : ProducerState) (n : Nat) :
    evict ps n = ps.pendingLost ∪ (evicted ps n).toFinset := by
  ext q
  rw [mem_evict, Finset.mem_union, List.mem_toFinset, mem_evicted]

theorem pendingLost_place (w : ReorderWindow) (ps : ProducerState) (seq : UInt64) :
    (ps.place w seq).1.pendingLost =
      if ps.Recovers seq then ps.pendingLost.erase seq
      else ps.pendingLost ∪ (ps.suspects w seq).toFinset := by
  have hkeep : ps.pendingLost = ps.pendingLost ∪ ([] : List UInt64).toFinset := by simp
  simp only [place]
  by_cases hle : seq ≤ ps.highContiguous
  · have hs : ps.suspects w seq = [] := if_pos (.inl hle)
    rw [if_pos hle, hs, ← hkeep]
    by_cases hp : seq ∈ ps.pendingLost
    · have hrec : ps.Recovers seq := ⟨hle, hp⟩
      rw [if_pos hp, if_pos hrec]
    · have hrec : ¬ ps.Recovers seq := fun h => hp h.2
      rw [if_neg hp, if_neg hrec]
  · have hrec : ¬ ps.Recovers seq := fun h => hle h.1
    rw [if_neg hle, if_neg hrec]
    by_cases hoff : seq - ps.highContiguous - 1 ≥ w.u64
    · rw [if_pos hoff]
      simp only [slideWindow]
      split
      · next hnew =>
        have hs : ps.suspects w seq = [] := if_pos (.inr (.inr hnew))
        rw [markOffset_fields, hs]
        exact hkeep
      · next hnew =>
        have hs : ps.suspects w seq = _ :=
          if_neg fun h => h.elim hle fun h => h.elim (UInt64.not_lt.mpr hoff) hnew
        rw [advanceContiguous_fields, markOffset_fields, hs]
        exact evict_eq ps _
    · have hs : ps.suspects w seq = [] := if_pos (.inr (.inl (UInt64.not_le.mp hoff)))
      rw [if_neg hoff, hs, ← hkeep]
      split
      · rfl
      · rw [advanceContiguous_fields]

/-- **What one call does to `pendingLost`.** -/
theorem pendingLost_recordProducer (w : ReorderWindow) (ps : ProducerState) (seq : UInt64) :
    (recordProducer w (.some ps) seq).1.pendingLost =
      if ps.Recovers seq then ps.pendingLost.erase seq
      else ps.pendingLost ∪ (ps.suspects w seq).toFinset :=
  pendingLost_place w (ps.arrive seq).1 seq

end ProducerState

section
variable {w : ReorderWindow} {ps : ProducerState} {st : Gap.State} {seq : UInt64} (hr : Refines w ps st)
include hr

/-- What a call suspects is a stretch above the watermark that ends more than
the window below the arrival. -/
theorem Refines.suspects_eq (seq : UInt64) :
    ps.suspects w seq = [] ∨ ∃ n, ps.suspects w seq = ps.evicted n ∧
      st.high + n + w.size < seq.toNat := by
  have hhigh := hr.high
  rw [suspects]
  split
  · exact .inl rfl
  · next h =>
    rw [not_or, not_or] at h
    obtain ⟨hgt, hoff, hnew⟩ := h
    rw [UInt64.le_iff_toNat_le, hhigh] at hgt
    rw [UInt64.lt_iff_toNat_lt, w.toNat_u64, toNat_sub_sub_one (by omega), hhigh] at hoff
    refine .inr ⟨_, rfl, ?_⟩
    rw [UInt64.le_iff_toNat_le, toNat_newHigh (by omega), hhigh] at hnew
    rw [toNat_slideDist, hr.toNat_dist (by omega)]
    omega

theorem Refines.lt_of_mem_suspects {q : UInt64} (hq : q ∈ ps.suspects w seq) : st.high < q.toNat := by
  rcases hr.suspects_eq seq with h | ⟨n, h, hn⟩
  · rw [h] at hq
    cases hq
  · rw [h] at hq
    obtain ⟨i, hi, -, rfl⟩ := mem_evicted.mp hq
    have := seq.toNat_lt
    have hhigh := hr.high
    rw [toNat_position (by omega)]
    omega

theorem Refines.suspects_nodup : (ps.suspects w seq).Nodup := by
  rcases hr.suspects_eq seq with h | ⟨n, h, hn⟩
  · rw [h]
    exact List.nodup_nil
  · rw [h, evicted]
    refine List.Nodup.map_on (fun i hi j hj he => ?_) (List.nodup_range.filter _)
    have hi := List.mem_range.mp (List.mem_of_mem_filter hi)
    have hj := List.mem_range.mp (List.mem_of_mem_filter hj)
    have := seq.toNat_lt
    have hhigh := hr.high
    have he := congrArg UInt64.toNat he
    rw [toNat_position (by omega), toNat_position (by omega)] at he
    omega

end

namespace Tracker

/-- What a call writes into the `pendingLost` of producer `p`. -/
def suspects (t : Tracker) (p : String) : Call → List UInt64
  | .record p' seq =>
    if p' = p then (t.producers.lookup p).elim [] (·.suspects t.reorderWindow seq) else []
  | .detectGaps => []

/-- What a call deletes from the `pendingLost` of producer `p`. -/
def recovers (t : Tracker) (p : String) : Call → List UInt64
  | .record p' seq =>
    if p' = p then (t.producers.lookup p).elim [] fun ps => if ps.Recovers seq then [seq] else [] else []
  | .detectGaps => []

end Tracker

/-- All that the calls wrote into the producer's `pendingLost`. -/
def insertions (w : ReorderWindow) (p : String) : List Call → List UInt64 :=
  collect fun pre c => (calls w pre).suspects p c

/-- All that the calls deleted from the producer's `pendingLost`. -/
def recoveries (w : ReorderWindow) (p : String) : List Call → List UInt64 :=
  collect fun pre c => (calls w pre).recovers p c

/-- The account of a producer's suspected losses. -/
structure Account (w : ReorderWindow) (p : String) (cs : List Call) (ps : ProducerState) : Prop where
  inserted_le : ∀ q ∈ insertions w p cs, q ≤ ps.highContiguous
  inserted_nodup : (insertions w p cs).Nodup
  recovered_nodup : (recoveries w p cs).Nodup
  recovered_inserted : ∀ q ∈ recoveries w p cs, q ∈ insertions w p cs
  pending : ∀ q, q ∈ ps.pendingLost ↔ q ∈ insertions w p cs ∧ q ∉ recoveries w p cs

section
variable {w : ReorderWindow} {p : String} {cs : List Call} {ps : ProducerState}

theorem insertions_snoc_record (h : (calls w cs).producers.lookup p = .some ps) (seq : UInt64) :
    insertions w p (cs ++ [.record p seq]) = insertions w p cs ++ ps.suspects w seq := by
  rw [insertions, collect_snoc]
  simp only [Tracker.suspects, h, calls_reorderWindow, if_true, Option.elim_some]

theorem recoveries_snoc_record (h : (calls w cs).producers.lookup p = .some ps) (seq : UInt64) :
    recoveries w p (cs ++ [.record p seq]) =
      recoveries w p cs ++ if ps.Recovers seq then [seq] else [] := by
  rw [recoveries, collect_snoc]
  simp only [Tracker.recovers, h, if_true, Option.elim_some]

/-- **One more arrival** keeps the account. -/
theorem Account.step (ha : Account w p cs ps) (h : (calls w cs).producers.lookup p = .some ps)
    (seq : UInt64) : Account w p (cs ++ [.record p seq]) (recordProducer w (.some ps) seq).1 := by
  obtain ⟨st, -, hr⟩ := exists_state h
  have hnew := lookup_snoc_record w cs (p := p) seq
  rw [h] at hnew
  have hmono : ∀ q ∈ insertions w p cs, q ≤ (recordProducer w (.some ps) seq).1.highContiguous :=
    fun q hq => UInt64.le_trans (ha.inserted_le q hq) (highContiguous_mono h hnew)
  have hpend := pendingLost_recordProducer w ps seq
  have hins := insertions_snoc_record h seq
  have hrec := recoveries_snoc_record h seq
  by_cases hrv : ps.Recovers seq
  · have hs : ps.suspects w seq = [] := if_pos (.inl hrv.1)
    rw [hs, List.append_nil] at hins
    rw [if_pos hrv] at hrec hpend
    obtain ⟨hmem, hnot⟩ := (ha.pending seq).mp hrv.2
    refine
      { inserted_le := by rw [hins]; exact hmono
        inserted_nodup := by rw [hins]; exact ha.inserted_nodup
        recovered_nodup := by
          rw [hrec]
          exact ha.recovered_nodup.append (List.nodup_singleton seq) (List.disjoint_singleton.mpr hnot)
        recovered_inserted := fun q hq => ?_
        pending := fun q => ?_ }
    · rw [hrec, List.mem_append, List.mem_singleton] at hq
      rw [hins]
      rcases hq with hq | rfl
      · exact ha.recovered_inserted q hq
      · exact hmem
    · rw [hpend, Finset.mem_erase, ha.pending, hins, hrec, List.mem_append, List.mem_singleton, not_or,
        and_comm, and_assoc]
  · rw [if_neg hrv, List.append_nil] at hrec
    rw [if_neg hrv] at hpend
    -- The keys written now are above the watermark, those written before are not.
    have hfresh : ∀ q ∈ ps.suspects w seq, q ∉ insertions w p cs := fun q hq hm => by
      have h1 := hr.lt_of_mem_suspects hq
      have h2 := UInt64.le_iff_toNat_le.mp (ha.inserted_le q hm)
      rw [hr.high] at h2
      omega
    refine
      { inserted_le := fun q hq => ?_
        inserted_nodup := ?_
        recovered_nodup := by rw [hrec]; exact ha.recovered_nodup
        recovered_inserted := fun q hq => ?_
        pending := fun q => ?_ }
    · rw [hins, List.mem_append] at hq
      rcases hq with hq | hq
      · exact hmono q hq
      · refine (wellFormed_calls hnew).pending_le q ?_
        rw [hpend, Finset.mem_union, List.mem_toFinset]
        exact .inr hq
    · rw [hins]
      exact ha.inserted_nodup.append hr.suspects_nodup fun q hq hq' => hfresh q hq' hq
    · rw [hrec] at hq
      rw [hins]
      exact List.mem_append_left _ (ha.recovered_inserted q hq)
    · rw [hpend, hins, hrec, Finset.mem_union, List.mem_toFinset, List.mem_append, ha.pending,
        or_and_right]
      exact or_congr_right ⟨fun hq => ⟨hq, fun hm => hfresh q hq (ha.recovered_inserted q hm)⟩,
        fun hq => hq.1⟩

end

theorem account_snoc_none (w : ReorderWindow) (cs : List Call) {p : String} {c : Call}
    (hc : c.number p = .none) :
    insertions w p (cs ++ [c]) = insertions w p cs ∧ recoveries w p (cs ++ [c]) = recoveries w p cs := by
  rw [insertions, recoveries, collect_snoc, collect_snoc]
  cases c with
  | record p' seq =>
    have hp : ¬ p' = p := by
      rintro rfl
      simp [Call.number] at hc
    simp only [Tracker.suspects, Tracker.recovers, hp, if_false, List.append_nil, and_self]
  | detectGaps => simp only [Tracker.suspects, Tracker.recovers, List.append_nil, and_self]

theorem account_eq_nil {w : ReorderWindow} {p : String} {cs : List Call} (h : numbers p cs = []) :
    insertions w p cs = [] ∧ recoveries w p cs = [] := by
  induction cs using List.reverseRecOn with
  | nil => exact ⟨rfl, rfl⟩
  | append_singleton cs c ih =>
    rcases Call.record_or_none p c with ⟨seq, rfl⟩ | hc
    · rw [numbers_snoc_record] at h
      simp at h
    · rw [numbers_snoc_none hc] at h
      rw [(account_snoc_none w cs hc).1, (account_snoc_none w cs hc).2]
      exact ih h

/-- **The account of every history.** -/
theorem account_calls {w : ReorderWindow} {p : String} {cs : List Call} {ps : ProducerState}
    (h : ps ∈ (calls w cs).producers.lookup p) : Account w p cs ps := by
  refine calls_rec (motive := Account w p) (fun cs seq hn => ?_)
    (fun cs ps seq hps ha => ha.step hps seq) (fun cs ps c n hc ha => ?_) h
  · obtain ⟨hins, hrec⟩ := account_eq_nil (w := w) hn
    have hlook : (calls w cs).producers.lookup p = .none := lookup_eq_none.mpr hn
    have hins : insertions w p (cs ++ [.record p seq]) = [] := by
      rw [insertions, collect_snoc, ← insertions, hins]
      simp [Tracker.suspects, hlook]
    have hrec : recoveries w p (cs ++ [.record p seq]) = [] := by
      rw [recoveries, collect_snoc, ← recoveries, hrec]
      simp [Tracker.recovers, hlook]
    have hpend : (ProducerState.first w seq).pendingLost = ∅ := by rw [first_eq]
    exact ⟨by simp [hins], by simp [hins], by simp [hrec], by simp [hrec], by simp [hins, hpend]⟩
  · obtain ⟨hins, hrec⟩ := account_snoc_none w cs hc
    exact ⟨by rw [hins]; exact ha.inserted_le, by rw [hins]; exact ha.inserted_nodup,
      by rw [hrec]; exact ha.recovered_nodup, by rw [hins, hrec]; exact ha.recovered_inserted,
      by rw [hins, hrec]; exact ha.pending⟩

/-- `confirmedLost` is the balance of the account. -/
theorem Account.confirmedLost_add {w : ReorderWindow} {p : String} {cs : List Call} {ps : ProducerState}
    (ha : Account w p cs ps) (h : ps ∈ (calls w cs).producers.lookup p) :
    ps.confirmedLost + (recoveries w p cs).length = (insertions w p cs).length := by
  have hsplit : ps.pendingLost = (insertions w p cs).toFinset \ (recoveries w p cs).toFinset := by
    ext q
    rw [ha.pending, Finset.mem_sdiff, List.mem_toFinset, List.mem_toFinset]
  have hsub : (recoveries w p cs).toFinset ⊆ (insertions w p cs).toFinset := fun q hq =>
    List.mem_toFinset.mpr (ha.recovered_inserted q (List.mem_toFinset.mp hq))
  rw [confirmedLost_eq h, hsplit, ← List.toFinset_card_of_nodup ha.recovered_nodup,
    ← List.toFinset_card_of_nodup ha.inserted_nodup]
  exact Finset.card_sdiff_add_card_eq_card hsub

/-- `Record` of a suspected sequence, from `ps` to `ps'`. -/
structure Recovery (ps ps' : ProducerState) (q : UInt64) : Prop where
  pendingLost : ps'.pendingLost = ps.pendingLost.erase q
  confirmedLost : ps'.confirmedLost + 1 = ps.confirmedLost
  highContiguous : ps'.highContiguous = ps.highContiguous
  window : ps'.window = ps.window
  duplicates : ps'.duplicates = ps.duplicates

/-- **A suspected loss is entered once and recovered at most once**, after any
calls `cs` since `New` or `Reset`: no key is written into `pendingLost` twice,
which holds what was written and not recovered; a suspected sequence that
arrives is taken off and is no duplicate, a sequence recovered before is a
duplicate and leaves `confirmedLost`, and `confirmedLost` is what was written
less what was recovered. -/
theorem suspected_entered_once (w : ReorderWindow) (p : String) (cs : List Call) :
    (insertions w p cs).Nodup ∧
      (∀ ps ∈ (calls w cs).producers.lookup p, ∀ q, q ∈ ps.pendingLost ↔
        q ∈ insertions w p cs ∧ q ∉ recoveries w p cs) ∧
      (∀ ps ∈ (calls w cs).producers.lookup p, ∀ q ∈ ps.pendingLost,
        ((calls w cs).record p q).2.isDuplicate = false ∧
          ∃ ps' ∈ ((calls w cs).record p q).1.producers.lookup p, Recovery ps ps' q) ∧
      (∀ q ∈ recoveries w p cs, ((calls w cs).record p q).2.isDuplicate = true ∧
        ∀ ps ∈ (calls w cs).producers.lookup p, ∀ ps' ∈ ((calls w cs).record p q).1.producers.lookup p,
          ps'.confirmedLost = ps.confirmedLost) ∧
      ∀ ps ∈ (calls w cs).producers.lookup p,
        (ps.confirmedLost : ℤ) = (insertions w p cs).length - (recoveries w p cs).length := by
  simp only [Tracker.record, AList.lookup_insert, calls_reorderWindow, Option.mem_def, Option.some.injEq]
  cases hps : (calls w cs).producers.lookup p with
  | none =>
    obtain ⟨hins, hrec⟩ := account_eq_nil (w := w) (lookup_eq_none.mp hps)
    simp [hins, hrec]
  | some ps =>
    have ha := account_calls hps
    simp only [Option.some.injEq]
    refine ⟨ha.inserted_nodup, ?_, ?_, fun q hq => ?_, ?_⟩
    · rintro _ rfl
      exact ha.pending
    · rintro _ rfl q hq
      have hle : q ≤ ps.highContiguous := (wellFormed_calls hps).pending_le q hq
      simp only [recordProducer, place, arrive, hle, hq, if_true, true_and]
      refine ⟨_, rfl, rfl, ?_, rfl, rfl, rfl⟩
      simp only
      rw [Finset.card_erase_add_one hq, confirmedLost_eq hps]
    · have hle : q ≤ ps.highContiguous := ha.inserted_le q (ha.recovered_inserted q hq)
      have hnot : q ∉ ps.pendingLost := fun hm => ((ha.pending q).mp hm).2 hq
      simp only [recordProducer, place, arrive, hle, hnot, if_true, if_false, true_and]
      rintro _ rfl _ rfl
      rfl
    · rintro _ rfl
      have := ha.confirmedLost_add hps
      omega

end Burnin
