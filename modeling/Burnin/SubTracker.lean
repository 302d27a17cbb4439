/-
The subscriber tracker (`burnin/worker/events.go`): the highest sequence, the
number of sequences not seen before, and the set of sequences seen, of which
those more than a window below the highest are dropped.

A sequence dropped from the set is counted again when it is delivered again,
and then stays in the set: it is behind the window, and the loop that drops
sequences has passed it. So `uniqueCount` is the number of sequences that were
delivered inside the window plus the number of those that were delivered behind
it (`record_counts`, `after_counts`), and what `missing` makes of it is
`missing_after`.
-/
import Mathlib.Data.FinEnum
import Mathlib.Data.Set.Card
import Mathlib.Data.UInt
import Mathlib.Order.Interval.Finset.Nat
import Burnin.Lib.Past

namespace Burnin

open Past

/-- `subTrackerWindow`. -/
def subTrackerWindow : UInt64 := 20000

structure SubTracker where
  lastSeq : UInt64 := 0
  uniqueCount : Nat := 0
  seen : Finset UInt64 := ∅
  pruneLow : UInt64 := 0
  deriving DecidableEq

namespace SubTracker

/-- `for k := low; k < newLow; k++ { delete(s.seen, k) }`. -/
def prune (seen : Finset UInt64) (low newLow : UInt64) : Finset UInt64 :=
  (List.range (newLow.toNat - low.toNat)).foldl (fun seen (i : Nat) => seen.erase (low + .ofNat i)) seen

/-- `record`, and whether the sequence is a duplicate. -/
def record (t : SubTracker) (seq : UInt64) : SubTracker × Bool :=
  if seq ∈ t.seen then (t, true)
  else
    let t :=
      { t with
        seen := insert seq t.seen
        uniqueCount := t.uniqueCount + 1
        lastSeq := if seq > t.lastSeq then seq else t.lastSeq }
    if t.lastSeq > subTrackerWindow then
      let newLow := t.lastSeq - subTrackerWindow
      ({ t with seen := prune t.seen t.pruneLow newLow, pruneLow := newLow }, false)
    else (t, false)

/-- `missing`. -/
def missing (t : SubTracker) : Nat :=
  if t.lastSeq.toNat ≤ t.uniqueCount then 0 else t.lastSeq.toNat - t.uniqueCount

/-- The tracker after a history of deliveries. -/
def after (seqs : List UInt64) : SubTracker := seqs.foldl (fun t seq => (t.record seq).1) {}

theorem after_snoc (seqs : List UInt64) (seq : UInt64) :
    after (seqs ++ [seq]) = ((after seqs).record seq).1 := by
  simp [after, List.foldl_append]

theorem mem_prune {seen : Finset UInt64} {low newLow k : UInt64} :
    k ∈ prune seen low newLow ↔ k ∈ seen ∧ ¬ (low.toNat ≤ k.toNat ∧ k.toNat < newLow.toNat) := by
  have key : ∀ n, low.toNat + n ≤ 2 ^ 64 →
      (k ∈ (List.range n).foldl (fun seen (i : Nat) => seen.erase (low + .ofNat i)) seen ↔
        k ∈ seen ∧ ¬ (low.toNat ≤ k.toNat ∧ k.toNat < low.toNat + n)) := by
    intro n
    induction n with
    | zero => intro _; simp
    | succ n ih =>
      intro hn
      rw [List.range_succ, List.foldl_append, List.foldl_cons, List.foldl_nil, Finset.mem_erase,
        ih (by omega)]
      have heq : k = low + .ofNat n ↔ k.toNat = low.toNat + n := by
        rw [← UInt64.toNat_inj, UInt64.toNat_add, UInt64.toNat_ofNat', Nat.add_mod_mod,
          Nat.mod_eq_of_lt (by omega)]
      rw [ne_eq, heq]
      refine ⟨fun h => ⟨h.2.1, by omega⟩, fun h => ⟨by omega, h.1, by omega⟩⟩
  rw [prune, key _ (by have := newLow.toNat_lt; have := low.toNat_lt; omega)]
  refine and_congr_right fun _ => not_congr ?_
  omega

/-! ## Histories -/

/-- The highest sequence of a history, 0 when there is none. -/
def top (seqs : List UInt64) : Nat := seqs.foldl (fun n seq => max n seq.toNat) 0

theorem top_snoc (seqs : List UInt64) (seq : UInt64) :
    top (seqs ++ [seq]) = max (top seqs) seq.toNat := by
  simp [top, List.foldl_append]

theorem le_top {seqs : List UInt64} {q : UInt64} (h : q ∈ seqs) : q.toNat ≤ top seqs := by
  induction seqs using List.reverseRecOn with
  | nil => simp at h
  | append_singleton seqs seq ih =>
    rw [top_snoc]
    rcases List.mem_append.mp h with h | h
    · exact le_trans (ih h) (le_max_left _ _)
    · rw [List.mem_singleton.mp h]
      exact le_max_right _ _

theorem top_le {seqs : List UInt64} {n : Nat} (h : ∀ q ∈ seqs, q.toNat ≤ n) : top seqs ≤ n := by
  induction seqs using List.reverseRecOn with
  | nil => exact Nat.zero_le n
  | append_singleton seqs seq ih =>
    rw [top_snoc]
    exact max_le (ih fun q hq => h q (List.mem_append_left _ hq)) (h seq (by simp))

/-- After `seqs`, `q` is more than the window below the highest sequence. -/
def Behind (seqs : List UInt64) (q : UInt64) : Prop := q.toNat + subTrackerWindow.toNat < top seqs

/-- Some delivery of `q` found it inside the window. -/
def Near (seqs : List UInt64) (q : UInt64) : Prop := Once (fun pre seq => seq = q ∧ ¬ Behind pre q) seqs

/-- Some delivery of `q` found it behind the window. -/
def Far (seqs : List UInt64) (q : UInt64) : Prop := Once (fun pre seq => seq = q ∧ Behind pre q) seqs

theorem near_snoc {seqs : List UInt64} {seq q : UInt64} :
    Near (seqs ++ [seq]) q ↔ Near seqs q ∨ (seq = q ∧ ¬ Behind seqs q) := once_snoc

theorem far_snoc {seqs : List UInt64} {seq q : UInt64} :
    Far (seqs ++ [seq]) q ↔ Far seqs q ∨ (seq = q ∧ Behind seqs q) := once_snoc

theorem Behind.snoc {seqs : List UInt64} {seq q : UInt64} (h : Behind seqs q) :
    Behind (seqs ++ [seq]) q := by
  unfold Behind at *
  rw [top_snoc]
  omega

theorem Far.behind {seqs : List UInt64} {q : UInt64} (h : Far seqs q) : Behind seqs q := by
  induction seqs using List.reverseRecOn with
  | nil => exact absurd h not_once_nil
  | append_singleton seqs seq ih =>
    rcases far_snoc.mp h with h | ⟨-, h⟩
    · exact (ih h).snoc
    · exact h.snoc

/-- What was delivered was delivered inside the window or behind it. -/
theorem near_or_far {seqs : List UInt64} {q : UInt64} : Near seqs q ∨ Far seqs q ↔ q ∈ seqs := by
  induction seqs using List.reverseRecOn with
  | nil => simp [Near, Far]
  | append_singleton seqs seq ih =>
    rw [near_snoc, far_snoc, List.mem_append, List.mem_singleton, ← ih]
    by_cases hb : Behind seqs q <;>
      simp only [hb, not_true, not_false_iff, and_true, and_false, or_false] <;>
      constructor <;> intro h <;> tauto

/-- The tracker's fields, in terms of the history. -/
structure Counts (seqs : List UInt64) (t : SubTracker) : Prop where
  lastSeq : t.lastSeq.toNat = top seqs
  pruneLow : t.pruneLow.toNat = top seqs - subTrackerWindow.toNat
  seen : ∀ q, q ∈ t.seen ↔ (Near seqs q ∧ ¬ Behind seqs q) ∨ Far seqs q
  uniqueCount : t.uniqueCount = {q | Near seqs q}.ncard + {q | Far seqs q}.ncard

theorem Counts.mem_le {seqs : List UInt64} {t : SubTracker} (h : Counts seqs t) {q : UInt64}
    (hq : q ∈ t.seen) : q.toNat ≤ top seqs :=
  le_top (near_or_far.mp (((h.seen q).mp hq).imp_left fun h => h.1))

/-- A delivery adds its sequence to those inside the window or to those behind
it, unless the set has it. -/
theorem Counts.sets {seqs : List UInt64} {t : SubTracker} (h : Counts seqs t) (seq : UInt64) :
    {q | Near (seqs ++ [seq]) q}.ncard + {q | Far (seqs ++ [seq]) q}.ncard =
      t.uniqueCount + if seq ∈ t.seen then 0 else 1 := by
  have hseen := h.seen seq
  rw [h.uniqueCount]
  by_cases hb : Behind seqs seq
  · have hnear : {q | Near (seqs ++ [seq]) q} = {q | Near seqs q} :=
      setOf_once_snoc_of_not (not_not.mpr hb)
    have hfar : {q | Far (seqs ++ [seq]) q} = insert seq {q | Far seqs q} := setOf_once_snoc hb
    rw [or_iff_right fun hn => hn.2 hb] at hseen
    rw [hnear, hfar]
    by_cases hs : Far seqs seq
    · rw [if_pos (hseen.mpr hs), Set.insert_eq_of_mem (Set.mem_ofPred_eq ▸ hs)]
      rfl
    · rw [if_neg fun hm => hs (hseen.mp hm), Set.ncard_insert_of_notMem (Set.mem_ofPred_eq ▸ hs),
        add_assoc]
  · have hnear : {q | Near (seqs ++ [seq]) q} = insert seq {q | Near seqs q} := setOf_once_snoc hb
    have hfar : {q | Far (seqs ++ [seq]) q} = {q | Far seqs q} := setOf_once_snoc_of_not hb
    rw [or_iff_left fun hf => hb (Far.behind hf), and_iff_left hb] at hseen
    rw [hnear, hfar]
    by_cases hs : Near seqs seq
    · rw [if_pos (hseen.mpr hs), Set.insert_eq_of_mem (Set.mem_ofPred_eq ▸ hs)]
      rfl
    · rw [if_neg fun hm => hs (hseen.mp hm), Set.ncard_insert_of_notMem (Set.mem_ofPred_eq ▸ hs),
        Nat.add_right_comm]

theorem Counts.seen_snoc {seqs : List UInt64} {t : SubTracker} (h : Counts seqs t) {seq : UInt64}
    (q : UInt64) :
    (q ∈ insert seq t.seen ∧ ¬ (top seqs - subTrackerWindow.toNat ≤ q.toNat ∧
        q.toNat < top (seqs ++ [seq]) - subTrackerWindow.toNat)) ↔
      (Near (seqs ++ [seq]) q ∧ ¬ Behind (seqs ++ [seq]) q) ∨ Far (seqs ++ [seq]) q := by
  rw [Finset.mem_insert, h.seen, near_snoc, far_snoc]
  have htop := top_snoc seqs seq
  have hfar : Far seqs q → q.toNat + subTrackerWindow.toNat < top seqs := Far.behind
  unfold Behind
  constructor
  · intro h
    rcases h with ⟨rfl | ⟨hn, hb⟩ | hf, hp⟩
    · by_cases hb : q.toNat + subTrackerWindow.toNat < top seqs
      · exact .inr (.inr ⟨rfl, hb⟩)
      · exact .inl ⟨.inr ⟨rfl, hb⟩, by omega⟩
    · exact .inl ⟨.inl hn, by omega⟩
    · exact .inr (.inl hf)
  · intro h
    rcases h with ⟨hn | ⟨rfl, hb⟩, hb'⟩ | hf | ⟨rfl, hb⟩
    · exact ⟨.inr (.inl ⟨hn, by omega⟩), by omega⟩
    · exact ⟨.inl rfl, by omega⟩
    · have := hfar hf
      exact ⟨.inr (.inr hf), by omega⟩
    · exact ⟨.inl rfl, by omega⟩

/-- **One more delivery** keeps the counts. -/
theorem record_counts {seqs : List UInt64} {t : SubTracker} (h : Counts seqs t) (seq : UInt64) :
    Counts (seqs ++ [seq]) (t.record seq).1 := by
  have hsets := h.sets seq
  have htop := top_snoc seqs seq
  unfold record
  split
  · next hs =>
    -- A duplicate: neither the highest sequence nor the two kinds change.
    have hle := h.mem_le hs
    rw [max_eq_left hle] at htop
    rw [if_pos hs, add_zero] at hsets
    refine ⟨by rw [htop]; exact h.lastSeq, by rw [htop]; exact h.pruneLow, fun q => ?_, hsets.symm⟩
    rw [← h.seen_snoc, htop, Finset.insert_eq_of_mem hs]
    exact ⟨fun hq => ⟨hq, by omega⟩, fun hq => hq.1⟩
  · next hs =>
    rw [if_neg hs] at hsets
    have hlast : (if seq > t.lastSeq then seq else t.lastSeq).toNat = top (seqs ++ [seq]) := by
      rw [htop, ← h.lastSeq]
      split
      · next hgt =>
        rw [gt_iff_lt, UInt64.lt_iff_toNat_lt] at hgt
        exact (max_eq_right (Nat.le_of_lt hgt)).symm
      · next hgt =>
        rw [gt_iff_lt, UInt64.lt_iff_toNat_lt] at hgt
        exact (max_eq_left (Nat.le_of_not_lt hgt)).symm
    dsimp only
    generalize (if seq > t.lastSeq then seq else t.lastSeq) = last at hlast ⊢
    split
    · next hw =>
      rw [gt_iff_lt, UInt64.lt_iff_toNat_lt, hlast] at hw
      have hlow : (last - subTrackerWindow).toNat = top (seqs ++ [seq]) - subTrackerWindow.toNat := by
        rw [UInt64.toNat_sub_of_le _ _ (UInt64.le_iff_toNat_le.mpr (by omega)), hlast]
      refine ⟨hlast, hlow, fun q => ?_, hsets.symm⟩
      rw [mem_prune, hlow, h.pruneLow]
      exact h.seen_snoc q
    · next hw =>
      rw [gt_iff_lt, UInt64.lt_iff_toNat_lt, hlast] at hw
      refine ⟨hlast, by rw [h.pruneLow]; omega, fun q => ?_, hsets.symm⟩
      rw [← h.seen_snoc]
      exact ⟨fun hq => ⟨hq, by omega⟩, fun hq => hq.1⟩

/-- **The counts of every history.** -/
theorem after_counts (seqs : List UInt64) : Counts seqs (after seqs) := by
  induction seqs using List.reverseRecOn with
  | nil => exact ⟨rfl, rfl, by simp [after, Near, Far], by simp [after, Near, Far]⟩
  | append_singleton seqs seq ih =>
    rw [after_snoc]
    exact record_counts ih seq

/-- A delivery after the history is a repeat for the tracker. -/
def Repeats (seqs : List UInt64) (q : UInt64) : Prop := (Near seqs q ∧ ¬ Behind seqs q) ∨ Far seqs q

theorem record_after_eq_true {seqs : List UInt64} {q : UInt64} :
    ((after seqs).record q).2 = true ↔ Repeats seqs q := by
  rw [Repeats, ← (after_counts seqs).seen, record]
  dsimp only
  split
  · next h => simp [h]
  · next h =>
    simp only [h, iff_false, Bool.not_eq_true]
    generalize (if q > (after seqs).lastSeq then q else (after seqs).lastSeq) = last
    split <;> rfl

/-! ## What is missing -/

/-- The sequences from 1 to the highest delivered that were not delivered. -/
def gaps (seqs : List UInt64) : Finset Nat :=
  (Finset.Icc 1 (top seqs)).filter fun n => n ∉ seqs.map UInt64.toNat

/-- The sequences that were delivered inside the window and again behind it. -/
def recounted (seqs : List UInt64) : Set UInt64 := {q | Near seqs q ∧ Far seqs q}

/-- The deliveries that `missing` takes for sequences from 1 on. -/
noncomputable def surplus (seqs : List UInt64) : Nat :=
  (if 0 ∈ seqs then 1 else 0) + (recounted seqs).ncard

theorem uniqueCount_after (seqs : List UInt64) :
    (after seqs).uniqueCount = seqs.toFinset.card + (recounted seqs).ncard := by
  have hunion : {q | Near seqs q} ∪ {q | Far seqs q} = (seqs.toFinset : Set UInt64) := by
    ext q
    simp only [Set.mem_union, Set.mem_ofPred_eq, near_or_far, List.coe_toFinset]
  rw [(after_counts seqs).uniqueCount, ← Set.ncard_union_add_ncard_inter, hunion, Set.ncard_coe_finset]
  rfl

/-- From 0 to the highest, a sequence is delivered or a gap; 0 is no gap. -/
theorem card_add_gaps (seqs : List UInt64) :
    seqs.toFinset.card + (gaps seqs).card = top seqs + if 0 ∈ seqs then 1 else 0 := by
  have hzero : 0 ∈ (seqs.map UInt64.toNat).toFinset ↔ 0 ∈ seqs := by
    simp only [List.mem_toFinset, List.mem_map]
    exact ⟨fun ⟨q, hq, h0⟩ => (UInt64.toNat_inj.mp h0 : q = 0) ▸ hq, fun h => ⟨0, h, rfl⟩⟩
  have hcard : seqs.toFinset.card = (seqs.map UInt64.toNat).toFinset.card := by
    have himage : (seqs.map UInt64.toNat).toFinset = seqs.toFinset.image UInt64.toNat := by
      ext n
      simp only [List.mem_toFinset, List.mem_map, Finset.mem_image]
    rw [himage, Finset.card_image_of_injective _ fun _ _ => UInt64.toNat_inj.mp]
  have hpos : (Finset.Icc 1 (top seqs)).filter (· ∈ seqs.map UInt64.toNat) =
      (seqs.map UInt64.toNat).toFinset.erase 0 := by
    ext n
    simp only [Finset.mem_filter, Finset.mem_Icc, Finset.mem_erase, List.mem_toFinset]
    constructor
    · intro ⟨⟨h1, _⟩, hn⟩
      exact ⟨by omega, hn⟩
    · intro ⟨h0, hn⟩
      obtain ⟨q, hq, rfl⟩ := List.mem_map.mp hn
      exact ⟨⟨by omega, le_top hq⟩, hn⟩
  have hsplit := Finset.card_filter_add_card_filter_not (s := Finset.Icc 1 (top seqs))
    (p := (· ∈ seqs.map UInt64.toNat))
  rw [hpos, Nat.card_Icc, Nat.add_sub_cancel] at hsplit
  rw [hcard]
  split
  · next h0 =>
    have := Finset.card_erase_add_one (hzero.mpr h0)
    unfold gaps
    omega
  · next h0 =>
    rw [Finset.erase_eq_of_notMem (mt hzero.mp h0)] at hsplit
    unfold gaps
    omega

/-- **What `missing` returns**: the gaps, less the surplus. -/
theorem missing_after (seqs : List UInt64) : (after seqs).missing = (gaps seqs).card - surplus seqs := by
  have h1 := uniqueCount_after seqs
  have h2 := card_add_gaps seqs
  have h3 := (after_counts seqs).lastSeq
  unfold missing surplus
  split <;> omega

/-- The gaps are made up for, so that nothing seems missing. -/
def Complete (seqs : List UInt64) : Prop := (gaps seqs).card ≤ surplus seqs

theorem missing_after_eq_zero {seqs : List UInt64} : (after seqs).missing = 0 ↔ Complete seqs := by
  rw [missing_after, Nat.sub_eq_zero_iff_le, Complete]

theorem mem_gaps {seqs : List UInt64} {n : Nat} :
    n ∈ gaps seqs ↔ 1 ≤ n ∧ n ≤ top seqs ∧ n ∉ seqs.map UInt64.toNat := by
  rw [gaps, Finset.mem_filter, Finset.mem_Icc, and_assoc]

theorem recounted_of_sorted {seqs : List UInt64} (hord : (seqs.map UInt64.toNat).Pairwise (· < ·)) :
    recounted seqs = ∅ := by
  refine Set.eq_empty_of_forall_notMem fun q ⟨_, pre, seq, post, hseqs, hq, hb⟩ => ?_
  subst hseqs hq
  rw [List.map_append] at hord
  have hle : top pre ≤ seq.toNat := top_le fun r hr =>
    Nat.le_of_lt ((List.pairwise_append.mp hord).2.2 _ (List.mem_map_of_mem hr) _ (by simp))
  unfold Behind at hb
  omega

/-- In order, and from 1 on, `missing` is exact. -/
theorem missing_of_sorted {seqs : List UInt64} (hord : (seqs.map UInt64.toNat).Pairwise (· < ·))
    (h0 : 0 ∉ seqs) : (after seqs).missing = (gaps seqs).card := by
  rw [missing_after, surplus, if_neg h0, recounted_of_sorted hord, Set.ncard_empty, Nat.sub_zero]

/-- Nothing that is delivered once is counted again. -/
theorem recounted_of_nodup {seqs : List UInt64} (h : seqs.Nodup) : recounted seqs = ∅ := by
  refine Set.eq_empty_of_forall_notMem ?_
  induction seqs using List.reverseRecOn with
  | nil => exact fun q hq => not_once_nil hq.1
  | append_singleton seqs seq ih =>
    obtain ⟨hseqs, -, hne⟩ := List.nodup_append.mp h
    have hnew : ∀ q, seq = q → q ∉ seqs :=
      fun q hq hm => hne q hm seq (List.mem_singleton.mpr rfl) hq.symm
    intro q hq
    obtain ⟨hn, hf⟩ := hq
    rcases near_snoc.mp hn with hn | ⟨hq, hb⟩ <;> rcases far_snoc.mp hf with hf | ⟨hq', hb'⟩
    · exact ih hseqs q ⟨hn, hf⟩
    · exact hnew q hq' (near_or_far.mp (.inl hn))
    · exact hnew q hq (near_or_far.mp (.inr hf))
    · exact hb hb'

/-- While nothing is delivered twice, what is missing and what was delivered
make up the sequences from 1 to the highest. -/
theorem missing_add_length {seqs : List UInt64} (h : seqs.Nodup) (h0 : 0 ∉ seqs) :
    (after seqs).missing + seqs.length = top seqs := by
  have hmissing := missing_after seqs
  have hcard := card_add_gaps seqs
  rw [surplus, recounted_of_nodup h, Set.ncard_empty, if_neg h0] at hmissing
  rw [List.toFinset_card_of_nodup h, if_neg h0] at hcard
  omega

theorem record_of_notMem {seqs : List UInt64} {seq : UInt64} (h : seq ∉ seqs) :
    ((after seqs).record seq).2 = false := by
  rw [Bool.eq_false_iff, ne_eq, record_after_eq_true]
  intro hr
  exact h (near_or_far.mp (hr.imp_left fun hn => hn.1))

/-- The sequences from 1 to `n`. -/
def sequences (n : Nat) : List UInt64 := (List.range n).map fun i => .ofNat (i + 1)

theorem sequences_succ (n : Nat) : sequences (n + 1) = sequences n ++ [.ofNat (n + 1)] := by
  rw [sequences, List.range_succ, List.map_append]
  rfl

theorem toNat_sequence {i n : Nat} (hi : i < n) (hn : n < 2 ^ 64) :
    (UInt64.ofNat (i + 1)).toNat = i + 1 :=
  UInt64.toNat_ofNat_of_lt' (Nat.lt_of_le_of_lt hi hn)

section
variable {n : Nat} (hn : n < 2 ^ 64)
include hn

theorem mem_sequences {seq : UInt64} : seq ∈ sequences n ↔ 1 ≤ seq.toNat ∧ seq.toNat ≤ n := by
  constructor
  · intro hseq
    obtain ⟨i, hi, rfl⟩ := List.mem_map.mp hseq
    rw [List.mem_range] at hi
    rw [toNat_sequence hi hn]
    omega
  · intro hseq
    refine List.mem_map.mpr ⟨seq.toNat - 1, List.mem_range.mpr (by omega), ?_⟩
    rw [Nat.sub_add_cancel hseq.1]
    exact UInt64.ofNat_toNat

theorem pairwise_sequences : (sequences n).Pairwise (· < ·) := by
  rw [sequences, List.pairwise_map]
  refine List.Pairwise.imp_of_mem ?_ List.pairwise_lt_range
  intro i j hi hj hij
  rw [List.mem_range] at hi hj
  rw [UInt64.lt_iff_toNat_lt, toNat_sequence hi hn, toNat_sequence hj hn]
  omega

theorem nodup_sequences : (sequences n).Nodup := (pairwise_sequences hn).imp fun h => UInt64.ne_of_lt h

theorem countP_sequences (last : UInt64) : (sequences n).countP (· ≤ last) = min last.toNat n := by
  induction n with
  | zero => simp [sequences]
  | succ n ih =>
    have hle : UInt64.ofNat (n + 1) ≤ last ↔ n + 1 ≤ last.toNat := by
      rw [UInt64.le_iff_toNat_le, toNat_sequence (Nat.lt_succ_self n) hn]
    rw [sequences_succ, List.countP_append, ih (by omega)]
    simp only [List.countP_singleton, decide_eq_true_eq, hle]
    split <;> omega

/-- **What is missing of the sequences up to `n`**: those elsewhere, up to the
last that was delivered. -/
theorem missing_of_perm {seqs elsewhere : List UInt64} (hperm : (seqs ++ elsewhere).Perm (sequences n)) :
    (after seqs).missing = elsewhere.countP (· ≤ (after seqs).lastSeq) := by
  have hnodup : seqs.Nodup := (hperm.nodup_iff.mpr (nodup_sequences hn)).of_append_left
  have hmem : ∀ seq ∈ seqs, 1 ≤ seq.toNat ∧ seq.toNat ≤ n := fun seq hseq =>
    (mem_sequences hn).mp (hperm.subset (List.mem_append_left _ hseq))
  have hlast : (after seqs).lastSeq.toNat = top seqs := (after_counts _).lastSeq
  have hmissing := missing_add_length hnodup fun h0 => absurd (hmem 0 h0).1 (by decide)
  -- Of the sequences up to the last, some were delivered and the others are elsewhere.
  have htop : top seqs ≤ n := top_le fun seq hseq => (hmem seq hseq).2
  have hcount := hperm.countP_eq (· ≤ (after seqs).lastSeq)
  have hall : seqs.countP (· ≤ (after seqs).lastSeq) = seqs.length := by
    rw [List.countP_eq_length]
    intro seq hseq
    rw [decide_eq_true_eq, UInt64.le_iff_toNat_le, hlast]
    exact le_top hseq
  rw [List.countP_append, hall, countP_sequences hn, hlast] at hcount
  omega

end

theorem missing_le (t : SubTracker) : t.missing ≤ t.lastSeq.toNat := by
  unfold missing
  split <;> omega

theorem missing_lt (t : SubTracker) : t.missing < 2 ^ 64 :=
  Nat.lt_of_le_of_lt t.missing_le t.lastSeq.toNat_lt

theorem ofNat_missing_eq_zero (t : SubTracker) : UInt64.ofNat t.missing = 0 ↔ t.missing = 0 := by
  rw [← UInt64.toNat_inj, UInt64.toNat_ofNat', Nat.mod_eq_of_lt t.missing_lt]
  rfl

theorem missing_after_le (seqs : List UInt64) : (after seqs).missing ≤ top seqs :=
  (after_counts seqs).lastSeq ▸ (after seqs).missing_le

end SubTracker

end Burnin
