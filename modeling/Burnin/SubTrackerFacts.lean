/-
What the window of the subscriber tracker costs: how exact its counts are over
a whole run (`exact_iff`) and how much it keeps (`bounded_iff`).

Both are decided by what is delivered behind the window. The tracker has
forgotten such a sequence, so it counts it as new, once; and it keeps it for
good, since the loop that drops keys starts above it.
-/
import Burnin.SubTracker

namespace Burnin

open Past

namespace SubTracker

/-! ## Exact counts -/

/-- The counts of a run are those of its distinct sequences. -/
structure Exact (seqs : List UInt64) : Prop where
  dup : Always (fun pre q => ((after pre).record q).2 = true ↔ q ∈ pre) seqs
  uniqueCount : (after seqs).uniqueCount = seqs.toFinset.card
  missing : (after seqs).missing + seqs.toFinset.card = top seqs

/-- No sequence that was delivered inside the window is delivered again when it
is behind it. -/
def NoLateRepeat (seqs : List UInt64) : Prop := Always (fun pre q => Near pre q → ¬ Behind pre q) seqs

/-- Nothing is delivered behind the window. -/
def NeverBehind (seqs : List UInt64) : Prop := Always (fun pre q => ¬ Behind pre q) seqs

theorem NeverBehind.noLateRepeat {seqs : List UInt64} (h : NeverBehind seqs) : NoLateRepeat seqs :=
  fun pre q post he _ => h pre q post he

theorem neverBehind_of_span {seqs : List UInt64}
    (h : ∀ q ∈ seqs, top seqs ≤ q.toNat + subTrackerWindow.toNat) : NeverBehind seqs := by
  rintro pre q post rfl hb
  have hpre : top pre ≤ top (pre ++ q :: post) := top_le fun r hr => le_top (List.mem_append_left _ hr)
  have hq := h q (by simp)
  unfold Behind at hb
  omega

theorem noLateRepeat_iff {seqs : List UInt64} : NoLateRepeat seqs ↔ recounted seqs = ∅ := by
  rw [Set.eq_empty_iff_forall_notMem]
  induction seqs using List.reverseRecOn with
  | nil =>
    refine ⟨fun _ q h => not_once_nil h.1, fun _ => always_nil⟩
  | append_singleton seqs seq ih =>
    rw [NoLateRepeat, always_snoc, ← NoLateRepeat, ih]
    simp only [recounted, Set.mem_ofPred_eq, near_snoc, far_snoc]
    constructor
    · rintro ⟨hrec, hlast⟩ q ⟨hn | ⟨rfl, hb⟩, hf | ⟨hq, hb'⟩⟩
      · exact hrec q ⟨hn, hf⟩
      · exact hlast (hq ▸ hn) (hq ▸ hb')
      · exact hb (Far.behind hf)
      · exact hb hb'
    · intro h
      refine ⟨fun q hq => h q ⟨.inl hq.1, .inl hq.2⟩, fun hn hb => ?_⟩
      exact h seq ⟨.inl hn, .inr ⟨rfl, hb⟩⟩

/-- **The counts are exact** over a run of sequences from 1 on, repeats of any
age included, exactly when no repeat is late. -/
theorem exact_iff (seqs : List UInt64) (h0 : 0 ∉ seqs) : Exact seqs ↔ NoLateRepeat seqs := by
  have hunique := uniqueCount_after seqs
  constructor
  · intro h
    rw [noLateRepeat_iff, ← Set.ncard_eq_zero (Set.toFinite _)]
    rw [h.uniqueCount] at hunique
    omega
  · intro h
    have hrec : (recounted seqs).ncard = 0 := by rw [noLateRepeat_iff.mp h, Set.ncard_empty]
    refine ⟨?_, by omega, ?_⟩
    · intro pre q post he
      rw [record_after_eq_true, Repeats, ← near_or_far]
      have hq := h pre q post he
      exact ⟨fun hr => hr.imp_left fun hn => hn.1, fun hr => hr.imp_left fun hn => ⟨hn, hq hn⟩⟩
    · have hgaps := card_add_gaps seqs
      rw [if_neg h0] at hgaps
      rw [missing_after, surplus, if_neg h0, hrec]
      omega

/-- A redelivery at the far end of the window is still a repeat. -/
theorem exact_iff_windowEnd : 0 ∉ [1, 20001, (1 : UInt64)] ∧ Exact [1, 20001, 1] := by
  refine ⟨by decide, (exact_iff [1, 20001, 1] (by decide)).mpr ?_⟩
  refine NeverBehind.noLateRepeat (neverBehind_of_span ?_)
  have htop : top [1, 20001, 1] = 20001 := rfl
  have hwindow : subTrackerWindow.toNat = 20000 := rfl
  rw [htop, hwindow]
  intro q hq
  simp only [List.mem_cons, List.not_mem_nil, or_false] at hq
  rcases hq with rfl | rfl | rfl <;> decide

/-- One further, and the durable replay of 1 is counted as a new sequence. -/
theorem replay_counted_again :
    0 ∉ [1, 20002, (1 : UInt64)] ∧ ((after [1, 20002]).record 1).2 = false ∧
      (after [1, 20002, 1]).uniqueCount = 3 ∧ (after [1, 20002, 1]).missing = 19999 ∧
        ¬ Exact [1, 20002, 1] := by
  refine ⟨by decide, by decide +kernel, by decide +kernel, by decide +kernel, fun h => ?_⟩
  have hu := h.uniqueCount
  revert hu
  decide +kernel

/-! ## Bounded memory -/

/-- After every call the keys kept are those of the window, and no more than
fit in it. -/
def Bounded (seqs : List UInt64) : Prop :=
  ∀ pre, pre <+: seqs → (∀ k ∈ (after pre).seen, (after pre).pruneLow ≤ k) ∧
    (after pre).seen.card ≤ subTrackerWindow.toNat + 1

theorem far_of_behind {pre post : List UInt64} {q : UInt64} (h : Behind pre q) :
    Far (pre ++ q :: post) q :=
  ⟨pre, q, post, rfl, rfl, h⟩

/-- What was delivered behind the window is kept below the frontier. -/
theorem Far.lt_pruneLow {seqs : List UInt64} {q : UInt64} (h : Far seqs q) :
    q ∈ (after seqs).seen ∧ q < (after seqs).pruneLow := by
  have hc := after_counts seqs
  have hb : q.toNat + subTrackerWindow.toNat < top seqs := h.behind
  refine ⟨(hc.seen q).mpr (.inr h), ?_⟩
  rw [UInt64.lt_iff_toNat_lt, hc.pruneLow]
  omega

theorem NeverBehind.of_prefix {pre seqs : List UInt64} (h : NeverBehind seqs) (hp : pre <+: seqs) :
    NeverBehind pre := Always.of_prefix h hp

theorem NeverBehind.not_far {seqs : List UInt64} (h : NeverBehind seqs) (q : UInt64) : ¬ Far seqs q := by
  rintro ⟨pre, seq, post, rfl, rfl, hb⟩
  exact h pre seq post rfl hb

/-- With nothing behind the window, a key is at most the window below the
highest sequence. -/
theorem NeverBehind.pruneLow_le {seqs : List UInt64} (h : NeverBehind seqs) {k : UInt64}
    (hk : k ∈ (after seqs).seen) : (after seqs).pruneLow ≤ k := by
  have hc := after_counts seqs
  have hnear := ((hc.seen k).mp hk).resolve_right (h.not_far k)
  have hb : ¬ k.toNat + subTrackerWindow.toNat < top seqs := hnear.2
  rw [UInt64.le_iff_toNat_le, hc.pruneLow]
  omega

theorem NeverBehind.card_seen_le {seqs : List UInt64} (h : NeverBehind seqs) :
    (after seqs).seen.card ≤ subTrackerWindow.toNat + 1 := by
  have hc := after_counts seqs
  have hmaps : ∀ k ∈ (after seqs).seen,
      k.toNat ∈ Finset.Icc (top seqs - subTrackerWindow.toNat) (top seqs) := by
    intro k hk
    have hle := h.pruneLow_le hk
    rw [UInt64.le_iff_toNat_le, hc.pruneLow] at hle
    exact Finset.mem_Icc.mpr ⟨hle, hc.mem_le hk⟩
  have hcard := Finset.card_le_card_of_injOn UInt64.toNat hmaps fun _ _ _ _ he => UInt64.toNat_inj.mp he
  rw [Nat.card_Icc] at hcard
  omega

/-- **The memory is bounded** exactly when nothing is delivered behind the
window. -/
theorem bounded_iff (seqs : List UInt64) : Bounded seqs ↔ NeverBehind seqs := by
  constructor
  · rintro h pre q post rfl hb
    have hfar : Far (pre ++ q :: post) q := far_of_behind hb
    obtain ⟨hkey, hlow⟩ := hfar.lt_pruneLow
    exact UInt64.not_le.mpr hlow ((h _ List.prefix_rfl).1 q hkey)
  · intro h pre hp
    exact ⟨fun k hk => (h.of_prefix hp).pruneLow_le hk, (h.of_prefix hp).card_seen_le⟩

/-- **Each further sequence behind the window is one more key**, for any number
of them. -/
theorem le_card_late {a : UInt64} {n : Nat} (h : n + subTrackerWindow.toNat ≤ a.toNat) :
    n ≤ (after (a :: (List.range n).map UInt64.ofNat)).seen.card := by
  have hlt := a.toNat_lt
  have hnat : ∀ i ∈ List.range n, (UInt64.ofNat i).toNat = i := by
    intro i hi
    have hi := List.mem_range.mp hi
    exact UInt64.toNat_ofNat_of_lt' (Nat.lt_trans (by omega) hlt)
  have hnodup : ((List.range n).map UInt64.ofNat).Nodup := by
    refine List.Nodup.map_on (fun i hi j hj hij => ?_) List.nodup_range
    rw [← hnat i hi, hij, hnat j hj]
  have hkept : ((List.range n).map UInt64.ofNat).toFinset ⊆
      (after (a :: (List.range n).map UInt64.ofNat)).seen := by
    intro q hq
    rw [List.mem_toFinset] at hq
    have hlow : q.toNat < n := by
      obtain ⟨i, hi, rfl⟩ := List.mem_map.mp hq
      rw [hnat i hi]
      exact List.mem_range.mp hi
    obtain ⟨pre, post, he⟩ := List.append_of_mem hq
    have hb : Behind (a :: pre) q := by
      have hle : a.toNat ≤ top (a :: pre) := le_top List.mem_cons_self
      unfold Behind
      omega
    have hfar : Far (a :: pre ++ q :: post) q := far_of_behind hb
    rw [he]
    exact hfar.lt_pruneLow.1
  have hcard := Finset.card_le_card hkept
  rwa [List.toFinset_card_of_nodup hnodup, List.length_map, List.length_range] at hcard

/-- After 20002 the late 1 is kept below the frontier, and after 40002 the
20002 sequences from 0 on are all kept. -/
theorem late_keys_kept :
    (1 ∈ (after [20002, 1]).seen ∧ 1 < (after [20002, 1]).pruneLow) ∧ ¬ Bounded [20002, 1] ∧
      subTrackerWindow.toNat + 1 < (after (40002 :: (List.range 20002).map UInt64.ofNat)).seen.card := by
  have hlate : 1 ∈ (after [20002, 1]).seen ∧ 1 < (after [20002, 1]).pruneLow := by decide +kernel
  refine ⟨hlate, fun h => UInt64.not_le.mpr hlate.2 ((h _ List.prefix_rfl).1 1 hlate.1), ?_⟩
  exact Nat.lt_of_lt_of_le (by decide) (le_card_late (by decide))

end SubTracker

end Burnin
