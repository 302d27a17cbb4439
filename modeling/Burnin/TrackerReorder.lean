/-
The tracker under bounded reordering: a history in which every arrival of a
producer is at most the window above the watermark, and not below the
producer's first, leaves a state that is a function of the multiset of the
recorded sequences (`exact_under_reordering`).

The state of the gap detector is exact there (`Gap.Bounded.exact`), and a
window is its bits (`window_ext`); what is left is to count.
-/
import Mathlib.Data.Multiset.Basic
import Burnin.TrackerInvariant

namespace Burnin

open Past Tracker ProducerState

/-- Every arrival of the producer is at most the window above the watermark at
its arrival, and not below the first one. -/
def BoundedReorder (w : ReorderWindow) (p : String) : List Call → Prop :=
  Always fun pre c => ∀ seq, c = .record p seq →
    ¬ Beyond (calls w pre) p seq ∧ ∀ s₀ ∈ (numbers p pre).head?, s₀ ≤ seq.toNat

theorem boundedReorder_iff_gap {w : ReorderWindow} {p : String} {cs : List Call} :
    BoundedReorder w p cs ↔ Gap.Bounded w.size (numbers p cs) := by
  rw [Gap.Bounded, numbers, always_filterMap]
  refine forall_congr' fun pre => forall_congr' fun c => forall_congr' fun post =>
    imp_congr_right fun _ => ?_
  simp only [Call.number_eq_some, forall_exists_index, and_imp]
  constructor
  · rintro h _ seq rfl rfl
    exact ⟨fun hb => (h seq rfl).1 (beyond_iff_gap.mpr hb), (h seq rfl).2⟩
  · rintro h seq rfl
    obtain ⟨h1, h2⟩ := h seq.toNat seq rfl rfl
    exact ⟨fun hb => h1 (beyond_iff_gap.mp hb), h2⟩

/-! ## Counting -/

theorem received_eq {w : ReorderWindow} {p : String} {cs : List Call} {ps : ProducerState}
    (h : ps ∈ (calls w cs).producers.lookup p) : ps.received = (numbers p cs).length := by
  refine calls_rec (motive := fun cs ps => ps.received = (numbers p cs).length) (fun cs seq hn => ?_)
    (fun cs ps seq _ ih => ?_) (fun cs ps c n hc ih => ?_) h
  · rw [numbers_snoc_record, hn, (first_counts w seq).1]
    rfl
  · rw [numbers_snoc_record, recordProducer_received, ih, List.length_append, List.length_singleton]
  · rw [numbers_snoc_none hc]
    exact ih

/-! ## Exactness -/

section
variable {w : ReorderWindow} {p : String} {cs : List Call}

theorem BoundedReorder.isDuplicate_iff {seq : UInt64} (h : BoundedReorder w p (cs ++ [.record p seq])) :
    ((calls w cs).record p seq).2.isDuplicate = true ↔ .record p seq ∈ cs := by
  obtain ⟨hcs, hlast⟩ := always_snoc.mp h
  have hg := boundedReorder_iff_gap.mp (show BoundedReorder w p cs from hcs)
  rw [Burnin.isDuplicate_iff, tracked_iff_gap, skipped_iff_gap, hg.tracked_iff, mem_numbers]
  refine or_iff_left ?_
  rintro (hs | ⟨s₀, hs₀, hlt⟩)
  · exact hg.not_skipped hs
  · exact Nat.not_le.mpr hlt ((hlast seq rfl).2 s₀ hs₀)

/-- An arrival is counted as a duplicate or is one more distinct sequence. -/
theorem BoundedReorder.received_eq_add {ps : ProducerState} (hb : BoundedReorder w p cs)
    (h : ps ∈ (calls w cs).producers.lookup p) :
    ps.received = ps.duplicates + (numbers p cs).toFinset.card := by
  refine calls_rec
    (motive := fun cs ps => BoundedReorder w p cs →
      ps.received = ps.duplicates + (numbers p cs).toFinset.card)
    (fun cs seq hn _ => ?_) (fun cs ps seq hps ih hb => ?_) (fun cs ps c n hc ih hb => ?_) h hb
  · rw [numbers_snoc_record, hn, (first_counts w seq).1, (first_counts w seq).2.1]
    rfl
  · have ih := ih (always_snoc.mp hb).1
    have hd := hb.isDuplicate_iff
    simp only [Tracker.record, hps, calls_reorderWindow, ← mem_numbers] at hd
    rw [numbers_snoc_record, recordProducer_received, recordProducer_duplicates,
      List.toFinset_append, ih]
    by_cases hm : seq.toNat ∈ numbers p cs
    · rw [hd.mpr hm, if_pos rfl, Finset.union_eq_left.mpr (by simpa using hm)]
      omega
    · rw [if_neg fun ht => hm (hd.mp ht), Finset.card_union_of_disjoint (by simpa using hm)]
      simp [Nat.add_assoc]
  · rw [numbers_snoc_none hc]
    exact ih (always_snoc.mp hb).1

/-- The state of producer `p` is the set of its recorded sequences, seen from
the watermark. -/
structure ExactState (p : String) (cs : List Call) (ps : ProducerState) : Prop where
  high : ∀ s₀ ∈ (numbers p cs).head?,
    IsGreatest {h | s₀ ≤ h ∧ ∀ i, s₀ ≤ i → i ≤ h → i ∈ numbers p cs} ps.highContiguous.toNat
  bits : ∀ i : Nat, getBit ps.window i = true ↔ ps.highContiguous.toNat + 1 + i ∈ numbers p cs
  lost : ps.confirmedLost = 0
  received : ps.received = ps.duplicates + (numbers p cs).toFinset.card

theorem BoundedReorder.exactState {ps : ProducerState} (hb : BoundedReorder w p cs)
    (h : ps ∈ (calls w cs).producers.lookup p) : ExactState p cs ps := by
  obtain ⟨st, hst, hr⟩ := exists_state h
  have he := (boundedReorder_iff_gap.mp hb).exact hst
  refine
    { high := fun s₀ hs₀ => hr.high ▸ he.high s₀ hs₀
      bits := fun i => ?_
      lost := ?_
      received := hb.received_eq_add h }
  · rw [hr.bits, he.seen, hr.high]
    exact and_iff_right (by omega)
  · rw [hr.lost, Finset.card_eq_zero]
    refine Finset.eq_empty_of_forall_notMem fun q hq => ?_
    rw [hr.pending, he.pending] at hq
    cases hq

/-- **The tracker has caught up**: under bounded reordering, when the sequences
recorded are those above `a` up to `a + n`, the watermark is the last of them,
nothing is lost, and what is more than `n` is duplicates. -/
theorem BoundedReorder.caught_up {a n : Nat} (hb : BoundedReorder w p cs) (hn : 0 < n)
    (hset : ∀ i, i ∈ numbers p cs ↔ a < i ∧ i ≤ a + n) :
    ∃ ps ∈ (calls w cs).producers.lookup p,
      ps.highContiguous.toNat = a + n ∧ ps.confirmedLost = 0 ∧ ps.received = ps.duplicates + n := by
  have hne : numbers p cs ≠ [] := List.ne_nil_of_mem ((hset (a + n)).mpr ⟨by omega, le_rfl⟩)
  cases hps : (calls w cs).producers.lookup p with
  | none => exact absurd (lookup_eq_none.mp hps) hne
  | some ps =>
    have he := hb.exactState hps
    have hcard : (numbers p cs).toFinset = Finset.Ioc a (a + n) := by
      ext i
      rw [List.mem_toFinset, hset, Finset.mem_Ioc]
    -- The first arrival is the least, `a + 1`.
    obtain ⟨st, hst, -⟩ := exists_state hps
    obtain ⟨s₀, hs₀⟩ := Gap.exists_head hst
    have hfirst : s₀ = a + 1 := by
      have h1 := (hset s₀).mp (List.mem_of_mem_head? hs₀)
      have h2 := (boundedReorder_iff_gap.mp hb).first_le s₀ hs₀ (a + 1) ((hset _).mpr (by omega))
      omega
    have hgreatest : IsGreatest {h | s₀ ≤ h ∧ ∀ i, s₀ ≤ i → i ≤ h → i ∈ numbers p cs} (a + n) := by
      refine ⟨⟨by omega, fun i h1 h2 => (hset i).mpr (by omega)⟩, fun h hh => ?_⟩
      exact ((hset h).mp (hh.2 h hh.1 le_rfl)).2
    refine ⟨ps, rfl, (he.high s₀ hs₀).unique hgreatest, he.lost, ?_⟩
    rw [he.received, hcard, Nat.card_Ioc]
    omega

end

/-- What a producer's state has when its sequences are reordered. -/
def ProducerState.view (ps : ProducerState) : UInt64 × List UInt64 × Nat × Nat × Nat :=
  (ps.highContiguous, ps.window, ps.received, ps.duplicates, ps.confirmedLost)

/-- Two exact states of one set of sequences are equal in all of that. -/
theorem BoundedReorder.view_eq {w : ReorderWindow} {p : String} {cs cs' : List Call}
    (hb : BoundedReorder w p cs) (hb' : BoundedReorder w p cs')
    (hperm : (numbers p cs).Perm (numbers p cs')) {ps ps' : ProducerState}
    (h : ps ∈ (calls w cs).producers.lookup p) (h' : ps' ∈ (calls w cs').producers.lookup p) :
    ps.view = ps'.view := by
  have he := hb.exactState h
  have he' := hb'.exactState h'
  obtain ⟨st, hst, hr⟩ := exists_state h
  obtain ⟨st', hst', hr'⟩ := exists_state h'
  -- The first arrival is the least one, in both.
  obtain ⟨s₀, hs₀⟩ := Gap.exists_head hst
  obtain ⟨s₁, hs₁⟩ := Gap.exists_head hst'
  have h₀ : s₀ = s₁ := Nat.le_antisymm
    ((boundedReorder_iff_gap.mp hb).first_le s₀ hs₀ s₁ (hperm.mem_iff.mpr (List.mem_of_mem_head? hs₁)))
    ((boundedReorder_iff_gap.mp hb').first_le s₁ hs₁ s₀ (hperm.mem_iff.mp (List.mem_of_mem_head? hs₀)))
  subst h₀
  have hhigh : ps.highContiguous = ps'.highContiguous := by
    refine UInt64.toNat_inj.mp ((he.high s₀ hs₀).unique ?_)
    simpa only [hperm.mem_iff] using he'.high s₀ hs₁
  have hwindow : ps.window = ps'.window := by
    refine window_ext (hr.length.trans hr'.length.symm) fun i => Bool.eq_iff_iff.mpr ?_
    rw [he.bits, he'.bits, hhigh, hperm.mem_iff]
  have hreceived : ps.received = ps'.received := by rw [received_eq h, received_eq h', hperm.length_eq]
  have hcard : (numbers p cs).toFinset.card = (numbers p cs').toFinset.card := by
    rw [List.toFinset_eq_of_perm _ _ hperm]
  have hduplicates : ps.duplicates = ps'.duplicates := by
    have h1 := he.received
    have h2 := he'.received
    omega
  rw [view, view, hhigh, hwindow, hreceived, hduplicates, he.lost, he'.lost]

/-- **Exactness under bounded reordering.** What `Record` calls a duplicate is
a repeat, the state is exact, and any other bounded history that records the
same sequences as often leaves the same watermark, window and counts. -/
theorem exact_under_reordering {w : ReorderWindow} {p : String} {cs : List Call}
    (h : BoundedReorder w p cs) :
    Always (fun pre c => ∀ seq, c = .record p seq →
        (((calls w pre).record p seq).2.isDuplicate = true ↔ .record p seq ∈ pre)) cs ∧
      (∀ ps ∈ (calls w cs).producers.lookup p, ExactState p cs ps) ∧
      ∀ cs', BoundedReorder w p cs' → (numbers p cs).Perm (numbers p cs') →
        ((calls w cs).producers.lookup p).map view = ((calls w cs').producers.lookup p).map view := by
  refine ⟨?_, fun ps hps => h.exactState hps, fun cs' h' hperm => ?_⟩
  · rintro pre c post hcs seq rfl
    exact BoundedReorder.isDuplicate_iff (h.of_prefix ⟨post, by simp [hcs]⟩)
  · cases hps : (calls w cs).producers.lookup p with
    | none =>
      have hnil := lookup_eq_none.mp hps
      rw [hnil] at hperm
      rw [lookup_eq_none.mpr hperm.nil_eq.symm]
    | some ps =>
      cases hps' : (calls w cs').producers.lookup p with
      | none =>
        rw [lookup_eq_none.mp hps'] at hperm
        rw [lookup_eq_none.mpr hperm.eq_nil] at hps
        cases hps
      | some ps' =>
        rw [Option.map_some, Option.map_some, h.view_eq h' hperm hps hps']

theorem boundedReorder_of_le {w : ReorderWindow} {p : String} {cs : List Call}
    (h : ∀ s₀ ∈ (numbers p cs).head?, ∀ q ∈ numbers p cs, s₀ ≤ q ∧ q ≤ s₀ + w.size) :
    BoundedReorder w p cs :=
  boundedReorder_iff_gap.mpr (Gap.bounded_of_le h)

/-- Sequences 1 to 3 with a repeat, out of order and in order. -/
theorem reordered_repeat :
    ∃ cs cs' : List Call, cs = [.record "p" 1, .record "p" 3, .record "p" 3, .record "p" 2] ∧
      cs' = [.record "p" 1, .record "p" 2, .record "p" 3, .record "p" 3] ∧
      BoundedReorder minReorderWindow "p" cs ∧ BoundedReorder minReorderWindow "p" cs' ∧
      ((calls minReorderWindow cs).producers.lookup "p").map view =
        ((calls minReorderWindow cs').producers.lookup "p").map view := by
  have h : BoundedReorder minReorderWindow "p" [.record "p" 1, .record "p" 3, .record "p" 3,
      .record "p" 2] :=
    boundedReorder_of_le (by decide)
  have h' : BoundedReorder minReorderWindow "p" [.record "p" 1, .record "p" 2, .record "p" 3,
      .record "p" 3] :=
    boundedReorder_of_le (by decide)
  exact ⟨_, _, rfl, rfl, h, h', (exact_under_reordering h).2.2 _ h' (by decide)⟩

end Burnin
