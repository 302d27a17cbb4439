/-
A gap detector over a numbered stream, on unbounded numbers.

The detector keeps a watermark `high`, the set `seen` of numbers above it that
have arrived and still count, and the set `pending` of numbers below it that
are suspected lost. A number up to `high + W` is taken into `seen`, and the
watermark runs over what is contiguous. A number `s` further out slides the
watermark to `s - W - 1`; it is not taken into `seen` itself, and of the
numbers the watermark passes only the first `W` are examined.

What a history of arrivals leaves behind is stated with the past-time
operators: a number is `Tracked` when one of its arrivals was not beyond the
window, an arrival `Evicts` the numbers it moves the watermark over from
inside the window, and it `Skips` those it moves it over from further out.

* `record_moves`: everything one arrival can do, the five branches as one;
* `Ledger`: the state after a history, as a function of the history;
* `ledger_after`: by induction, every history has it;
* `exists_suspected_iff`: what it comes to when numbers arrive in order;
* `Exact`: what it comes to when no number is beyond the window;
* `after_shift`: only the differences of the numbers matter.
-/
import Mathlib.Algebra.Order.Group.Nat
import Mathlib.Algebra.Order.Interval.Finset.Basic
import Mathlib.Data.Finset.Basic
import Mathlib.Data.Nat.Find
import Mathlib.Order.Bounds.Basic
import Mathlib.Order.Interval.Finset.Nat
import Burnin.Lib.Past

namespace Gap

open Past

structure State where
  high : ℕ
  seen : Finset ℕ
  pending : Finset ℕ

theorem exists_not_mem (seen : Finset ℕ) (high : ℕ) : ∃ k, high + 1 + k ∉ seen := by
  refine ⟨seen.sup id, fun h => ?_⟩
  have : high + 1 + seen.sup id ≤ seen.sup id := Finset.le_sup (f := id) h
  omega

/-- How many numbers above `high` are in `seen` without a gap. -/
def lead (seen : Finset ℕ) (high : ℕ) : ℕ := Nat.find (exists_not_mem seen high)

theorem lead_stop (seen : Finset ℕ) (high : ℕ) : high + 1 + lead seen high ∉ seen :=
  Nat.find_spec (exists_not_mem seen high)

theorem lead_run {seen : Finset ℕ} {high k : ℕ} (hk : k < lead seen high) : high + 1 + k ∈ seen :=
  not_not.mp (Nat.find_min (exists_not_mem seen high) hk)

namespace State

/-- The watermark runs over what is contiguous. -/
def advance (st : State) : State :=
  { st with
    high := st.high + lead st.seen st.high
    seen := st.seen.filter (st.high + lead st.seen st.high < ·) }

/-- The window slides for an arrival `s` beyond it. -/
def slide (W : ℕ) (st : State) (s : ℕ) : State :=
  advance
    { high := s - W - 1
      seen := st.seen.filter (s - W - 1 < ·)
      pending := st.pending ∪ (Finset.Ioc st.high (min (s - W - 1) (st.high + W)) \ st.seen) }

end State

/-- One arrival, and whether it is called a duplicate. The first arrival
creates the state. -/
def record (W : ℕ) : Option State → ℕ → State × Bool
  | .none, s => (⟨s, ∅, ∅⟩, false)
  | .some st, s =>
    if s ≤ st.high then
      if s ∈ st.pending then ({ st with pending := st.pending.erase s }, false) else (st, true)
    else if st.high + W < s then (st.slide W s, false)
    else if s ∈ st.seen then (st, true)
    else ({ st with seen := insert s st.seen }.advance, false)

/-- The state after a history; none before the first arrival. -/
def after (W : ℕ) (H : List ℕ) : Option State := H.foldl (fun st s => .some (record W st s).1) .none

@[simp] theorem after_nil (W : ℕ) : after W [] = .none := rfl

theorem after_snoc (W : ℕ) (H : List ℕ) (s : ℕ) :
    after W (H ++ [s]) = .some (record W (after W H) s).1 := by
  simp [after, List.foldl_append]

theorem after_eq_none {W : ℕ} {H : List ℕ} : after W H = .none ↔ H = [] := by
  rcases List.eq_nil_or_concat H with rfl | ⟨H, s, rfl⟩
  · simp
  · rw [List.concat_eq_append, after_snoc]
    simp

/-! ## One step -/

/-- Between two arrivals: no number right above the watermark is in `seen`,
`seen` is above it and `pending` is not. -/
structure Settled (st : State) : Prop where
  gap : st.high + 1 ∉ st.seen
  seen_gt : ∀ q ∈ st.seen, st.high < q
  pending_le : ∀ q ∈ st.pending, q ≤ st.high

/-- Where the watermark is put by an arrival before it advances. -/
def top (W : ℕ) (st : State) (s : ℕ) : ℕ := if st.high + W < s then s - W - 1 else st.high

/-- An arrival is taken into `seen` when it is above the watermark and not
beyond the window. -/
def Taken (W : ℕ) (st : State) (s q : ℕ) : Prop :=
  q ∈ st.seen ∨ (q = s ∧ st.high < s ∧ s ≤ st.high + W)

/-- An arrival `s` turns `st` into `st'`. -/
structure Moves (W : ℕ) (st : State) (s : ℕ) (st' : State) : Prop where
  high_ge : top W st s ≤ st'.high
  run : ∀ q, top W st s < q → q ≤ st'.high → Taken W st s q
  gap : ¬ Taken W st s (st'.high + 1)
  seen : ∀ q, q ∈ st'.seen ↔ Taken W st s q ∧ st'.high < q
  pending : ∀ q, q ∈ st'.pending ↔
    (q ∈ st.pending ∧ q ≠ s) ∨ (st.high < q ∧ q ≤ st.high + W ∧ q + W < s ∧ q ∉ st.seen)

theorem high_le_top {W : ℕ} {st : State} {s : ℕ} : st.high ≤ top W st s := by
  unfold top; split <;> omega

theorem Moves.high_le {W st s st'} (h : Moves W st s st') : st.high ≤ st'.high :=
  Nat.le_trans high_le_top h.high_ge

theorem Moves.settled {W st s st'} (h : Moves W st s st') (hs : Settled st) : Settled st' where
  gap := fun hm => h.gap ((h.seen _).mp hm).1
  seen_gt := fun q hq => ((h.seen q).mp hq).2
  pending_le := fun q hq => by
    rcases (h.pending q).mp hq with ⟨hp, -⟩ | ⟨-, -, hs', -⟩
    · exact Nat.le_trans (hs.pending_le q hp) h.high_le
    · have := h.high_ge
      unfold top at this
      split at this <;> omega

theorem advance_spec (st : State) :
    st.high ≤ st.advance.high ∧ (∀ q, st.high < q → q ≤ st.advance.high → q ∈ st.seen) ∧
      st.advance.high + 1 ∉ st.seen ∧
        (∀ q, q ∈ st.advance.seen ↔ q ∈ st.seen ∧ st.advance.high < q) := by
  refine ⟨Nat.le_add_right _ _, fun q hq hle => ?_, ?_, fun q => by simp [State.advance]⟩
  · simp only [State.advance] at hle
    have : st.high + 1 + (q - st.high - 1) ∈ st.seen := lead_run (by omega)
    rwa [show st.high + 1 + (q - st.high - 1) = q by omega] at this
  · have := lead_stop st.seen st.high
    simpa [State.advance, Nat.add_right_comm] using this

theorem Moves.of_keep {W : ℕ} {st st' : State} {s : ℕ} (hs : Settled st) (hh : st'.high = st.high)
    (hseen : st'.seen = st.seen) (hnb : ¬ st.high + W < s) (ht : ∀ q, Taken W st s q ↔ q ∈ st.seen)
    (hp : ∀ q, q ∈ st'.pending ↔ q ∈ st.pending ∧ q ≠ s) : Moves W st s st' := by
  have htop : top W st s = st.high := if_neg hnb
  refine ⟨by rw [htop, hh], fun q h1 h2 => ?_, ?_, fun q => ?_, fun q => ?_⟩
  · rw [htop] at h1; rw [hh] at h2; omega
  · rw [ht, hh]; exact hs.gap
  · rw [ht, hseen, hh]
    exact ⟨fun h => ⟨h, hs.seen_gt q h⟩, fun h => h.1⟩
  · rw [hp]
    refine ⟨.inl, fun h => ?_⟩
    rcases h with h | ⟨h1, -, h3, -⟩
    · exact h
    · omega

theorem Settled.pending_ne {st : State} (hs : Settled st) {s : ℕ} (hgt : ¬ s ≤ st.high) :
    ∀ q ∈ st.pending, q ≠ s := by
  intro q hq
  have := hs.pending_le q hq
  omega

theorem slide_moves {W : ℕ} {st : State} (hs : Settled st) {s : ℕ} (hb : st.high + W < s) :
    Moves W st s (st.slide W s) := by
  obtain ⟨h1, h2, h3, h4⟩ := advance_spec
    { high := s - W - 1
      seen := st.seen.filter (s - W - 1 < ·)
      pending := st.pending ∪ (Finset.Ioc st.high (min (s - W - 1) (st.high + W)) \ st.seen) }
  have htop : top W st s = s - W - 1 := if_pos hb
  have hne := hs.pending_ne (s := s) (by omega)
  have ht : ∀ q, Taken W st s q ↔ q ∈ st.seen := fun q =>
    ⟨fun h => h.resolve_right fun h' => by omega, .inl⟩
  simp only [Finset.mem_filter] at h2 h3 h4
  refine ⟨by rw [htop]; exact h1, fun q hq hle => ?_, ?_, fun q => ?_, fun q => ?_⟩
  · rw [htop] at hq
    exact (ht q).mpr (h2 q hq hle).1
  · rw [ht]
    exact fun h => h3 ⟨h, Nat.lt_succ_of_le h1⟩
  · rw [ht]
    exact (h4 q).trans ⟨fun h => ⟨h.1.1, h.2⟩, fun h => ⟨⟨h.1, Nat.lt_of_le_of_lt h1 h.2⟩, h.2⟩⟩
  · simp only [State.slide, State.advance, Finset.mem_union, Finset.mem_sdiff,
      Finset.mem_Ioc, le_min_iff]
    constructor
    · intro h
      rcases h with h | ⟨⟨h1, h2, h3⟩, h4⟩
      · exact .inl ⟨h, hne q h⟩
      · exact .inr ⟨h1, h3, by omega, h4⟩
    · intro h
      rcases h with ⟨h, -⟩ | ⟨h1, h2, h3, h4⟩
      · exact .inl h
      · exact .inr ⟨⟨h1, by omega, h2⟩, h4⟩

theorem take_moves {W : ℕ} {st : State} (hs : Settled st) {s : ℕ} (hgt : ¬ s ≤ st.high)
    (hb : ¬ st.high + W < s) : Moves W st s { st with seen := insert s st.seen }.advance := by
  obtain ⟨h1, h2, h3, h4⟩ := advance_spec { st with seen := insert s st.seen }
  have htop : top W st s = st.high := if_neg hb
  have ht : ∀ q, Taken W st s q ↔ q ∈ insert s st.seen := fun q => by
    rw [Finset.mem_insert, Taken, or_comm]
    exact or_congr_left ⟨fun h => h.1, fun h => ⟨h, by omega, by omega⟩⟩
  refine ⟨by rw [htop]; exact h1, fun q hq hle => ?_, ?_, fun q => ?_, fun q => ?_⟩
  · rw [htop] at hq
    exact (ht q).mpr (h2 q hq hle)
  · rw [ht]; exact h3
  · rw [ht]; exact h4 q
  · refine ⟨fun h => .inl ⟨h, hs.pending_ne hgt q h⟩, fun h => ?_⟩
    rcases h with h | ⟨h5, -, h7, -⟩
    · exact h.1
    · omega

/-- **Everything one arrival can do** to a settled state. -/
theorem record_moves {W : ℕ} {st : State} (hs : Settled st) (s : ℕ) :
    Moves W st s (record W (.some st) s).1 := by
  simp only [record]
  split
  · next hle =>
    have ht : ∀ q, Taken W st s q ↔ q ∈ st.seen := fun q =>
      ⟨fun h => h.resolve_right fun h' => by omega, .inl⟩
    split
    · next hpend => exact .of_keep hs rfl rfl (by omega) ht fun q => by simp [and_comm]
    · next hpend =>
      refine .of_keep hs rfl rfl (by omega) ht fun q => ⟨fun h => ⟨h, ?_⟩, fun h => h.1⟩
      rintro rfl
      exact hpend h
  · next hgt =>
    split
    · next hb => exact slide_moves hs hb
    · next hb =>
      split
      · next hseen =>
        refine .of_keep hs rfl rfl hb (fun q => ⟨fun h => ?_, .inl⟩) fun q =>
          ⟨fun h => ⟨h, hs.pending_ne hgt q h⟩, fun h => h.1⟩
        rcases h with h | ⟨rfl, -⟩
        · exact h
        · exact hseen
      · exact take_moves hs hgt hb

theorem record_dup {W : ℕ} {st : State} {s : ℕ} :
    (record W (.some st) s).2 = true ↔
      (s ≤ st.high ∧ s ∉ st.pending) ∨ (st.high < s ∧ s ≤ st.high + W ∧ s ∈ st.seen) := by
  simp only [record]
  split
  · next h => split <;> simp_all
  · next h =>
    split
    · next hb =>
      simp only [Bool.false_eq_true, false_iff]
      omega
    · next hb =>
      split
      · next hm =>
        simp only [true_iff]
        exact .inr ⟨by omega, by omega, hm⟩
      · next hm =>
        simp only [Bool.false_eq_true, false_iff]
        intro h
        rcases h with h' | h'
        · omega
        · exact hm h'.2.2

/-! ## Histories -/

/-- After `H` the arrival `s` is beyond the window. -/
def Beyond (W : ℕ) (H : List ℕ) (s : ℕ) : Prop := ∃ st ∈ after W H, st.high + W < s

/-- After `H` the arrival `s` moves the watermark over `q`, which is inside the
window. -/
def Evicts (W : ℕ) (H : List ℕ) (s q : ℕ) : Prop :=
  ∃ st ∈ after W H, st.high < q ∧ q ≤ st.high + W ∧ q + W < s

/-- After `H` the arrival `s` moves the watermark over `q`, which is beyond the
window. -/
def Skips (W : ℕ) (H : List ℕ) (s q : ℕ) : Prop :=
  ∃ st ∈ after W H, st.high + W < q ∧ q + W < s

/-- Some arrival of `q` was not beyond the window. -/
def Tracked (W : ℕ) (H : List ℕ) (q : ℕ) : Prop := Once (fun H₁ s => s = q ∧ ¬ Beyond W H₁ s) H

/-- Some arrival skipped `q`. -/
def Skipped (W : ℕ) (H : List ℕ) (q : ℕ) : Prop := Once (fun H₁ s => Skips W H₁ s q) H

/-- Some arrival evicted `q`, which was not tracked, and `q` has not arrived
since. -/
def Suspected (W : ℕ) (H : List ℕ) (q : ℕ) : Prop :=
  Since (fun H₁ s => Evicts W H₁ s q ∧ ¬ Tracked W H₁ q) (· = q) H

theorem Tracked.mem {W H q} (h : Tracked W H q) : q ∈ H :=
  once_eq_iff_mem.mp (h.imp fun _ _ h => h.1)

theorem tracked_snoc {W H s q} : Tracked W (H ++ [s]) q ↔ Tracked W H q ∨ (s = q ∧ ¬ Beyond W H s) :=
  once_snoc

theorem skipped_snoc {W H s q} : Skipped W (H ++ [s]) q ↔ Skipped W H q ∨ Skips W H s q := once_snoc

theorem suspected_snoc {W H s q} :
    Suspected W (H ++ [s]) q ↔ (Suspected W H q ∧ ¬ s = q) ∨ (Evicts W H s q ∧ ¬ Tracked W H q) :=
  since_snoc

section
variable {W : ℕ} {H : List ℕ} {st : State} (hst : after W H = .some st)
include hst

theorem beyond_iff {s : ℕ} : Beyond W H s ↔ st.high + W < s := by simp [Beyond, hst]

theorem evicts_iff {s q : ℕ} : Evicts W H s q ↔ st.high < q ∧ q ≤ st.high + W ∧ q + W < s := by
  simp [Evicts, hst]

theorem skips_iff {s q : ℕ} : Skips W H s q ↔ st.high + W < q ∧ q + W < s := by simp [Skips, hst]

end

theorem not_beyond_nil {W s : ℕ} : ¬ Beyond W [] s := by simp [Beyond]

/-- The state after a history, in terms of the history. -/
structure Ledger (W : ℕ) (H : List ℕ) (st : State) : Prop extends Settled st where
  seen_iff : ∀ q, q ∈ st.seen ↔ st.high < q ∧ Tracked W H q
  tracked_le : ∀ q, Tracked W H q → q ≤ st.high + W
  mem_le : ∀ q ∈ H, q ≤ st.high + W + 1
  first_le : ∀ s₀ ∈ H.head?, s₀ ≤ st.high
  pending_iff : ∀ q, q ∈ st.pending ↔ Suspected W H q
  pending_gt : ∀ s₀ ∈ H.head?, ∀ q ∈ st.pending, s₀ < q
  passed : ∀ s₀ ∈ H.head?, ∀ q, s₀ ≤ q → q ≤ st.high → Tracked W H q ∨ q ∈ st.pending ∨ Skipped W H q
  skipped : ∀ q, Skipped W H q → q ≤ st.high ∧ q ∉ st.pending
  pending_not_tracked : ∀ q ∈ st.pending, ¬ Tracked W H q
  low_tracked : ∀ s₀ ∈ H.head?, ∀ q ∈ H, q < s₀ → Tracked W H q

theorem Ledger.first (W s : ℕ) : Ledger W [s] ⟨s, ∅, ∅⟩ := by
  have ht : ∀ q, Tracked W [s] q ↔ s = q := fun q => by
    have := tracked_snoc (W := W) (H := []) (s := s) (q := q)
    simpa [Tracked, not_beyond_nil] using this
  have hsk : ∀ q, ¬ Skipped W [s] q := fun q h => by
    have := (skipped_snoc (W := W) (H := [])).mp h
    simp [Skipped, Skips] at this
  have hsu : ∀ q, ¬ Suspected W [s] q := fun q h => by
    have := (suspected_snoc (W := W) (H := [])).mp h
    simp [Suspected, Evicts] at this
  exact
    { gap := by simp
      seen_gt := by simp
      pending_le := by simp
      seen_iff := fun q => by simp only [ht]; simp; omega
      tracked_le := fun q h => by rw [ht] at h; subst h; simp
      mem_le := fun q h => by simp at h; subst h; simp only; omega
      first_le := fun s₀ h => by simp at h; simp [h]
      pending_iff := fun q => by simp [hsu q]
      pending_gt := by simp
      passed := fun s₀ h q h1 h2 => by
        simp at h
        exact .inl ((ht q).mpr (by simp at h2; omega))
      skipped := fun q h => absurd h (hsk q)
      pending_not_tracked := by simp
      low_tracked := fun s₀ _ q h _ => (ht q).mpr (List.mem_singleton.mp h).symm }

theorem lt_of_le_top {W : ℕ} {st : State} {s q : ℕ} (h1 : q ≤ top W st s) (h2 : st.high < q) :
    q + W < s := by
  unfold top at h1
  split at h1 <;> omega

section
variable {W : ℕ} {H : List ℕ} {st st' : State} {s : ℕ} (hst : after W H = .some st) (hl : Ledger W H st)

include hl in
/-- Above the watermark, being in `seen` and being tracked are the same. -/
theorem Ledger.seen_iff_tracked {q : ℕ} (hq : st.high < q) : q ∈ st.seen ↔ Tracked W H q :=
  (hl.seen_iff q).trans (and_iff_right hq)

include hst in
theorem tracked_snoc_iff {q : ℕ} :
    Tracked W (H ++ [s]) q ↔ Tracked W H q ∨ (s = q ∧ s ≤ st.high + W) := by
  rw [tracked_snoc, beyond_iff hst, Nat.not_lt]

include hst hl in
theorem Ledger.passed_snoc (hm : Moves W st s st') {s₀ : ℕ} (hs₀ : s₀ ∈ H.head?) {q : ℕ} (h1 : s₀ ≤ q)
    (h2 : q ≤ st'.high) : Tracked W (H ++ [s]) q ∨ q ∈ st'.pending ∨ Skipped W (H ++ [s]) q := by
  rw [tracked_snoc_iff hst, skipped_snoc, skips_iff hst, hm.pending]
  by_cases hq : q ≤ st.high
  · -- Already passed: a suspect that arrives now is tracked from here on.
    rcases hl.passed s₀ hs₀ q h1 hq with h | h | h
    · exact .inl (.inl h)
    · by_cases hqs : s = q
      · exact .inl (.inr ⟨hqs, by omega⟩)
      · exact .inr (.inl (.inl ⟨h, fun he => hqs he.symm⟩))
    · exact .inr (.inr (.inl h))
  · by_cases hqt : q ≤ top W st s
    · -- Passed by the slide: from inside the window, or from beyond it.
      have hqs := lt_of_le_top hqt (by omega)
      by_cases hqW : q ≤ st.high + W
      · by_cases hmem : q ∈ st.seen
        · exact .inl (.inl ((hl.seen_iff_tracked (by omega)).mp hmem))
        · exact .inr (.inl (.inr ⟨by omega, hqW, hqs, hmem⟩))
      · exact .inr (.inr (.inr ⟨by omega, hqs⟩))
    · -- Passed by advancing: it was in `seen`.
      rcases hm.run q (by omega) h2 with h | ⟨rfl, -, h⟩
      · exact .inl (.inl ((hl.seen_iff_tracked (by omega)).mp h))
      · exact .inl (.inr ⟨rfl, h⟩)

end

/-- **One more arrival** keeps the ledger. -/
theorem Ledger.step {W : ℕ} {H : List ℕ} {st : State} (hst : after W H = .some st) (hl : Ledger W H st)
    (s : ℕ) : Ledger W (H ++ [s]) (record W (.some st) s).1 := by
  have hm := record_moves (W := W) hl.toSettled s
  generalize (record W (.some st) s).1 = st' at hm
  have hle := hm.high_le
  have hhead : ∀ s₀, s₀ ∈ (H ++ [s]).head? → s₀ ∈ H.head? := fun s₀ h => by
    cases H with
    | nil => simp at hst
    | cons a H => simpa using h
  have htrk := fun q => tracked_snoc_iff (s := s) (q := q) hst
  refine
    { toSettled := hm.settled hl.toSettled
      seen_iff := fun q => ?_, tracked_le := fun q h => ?_, mem_le := fun q h => ?_
      first_le := fun s₀ h => ?_, pending_iff := fun q => ?_, pending_gt := fun s₀ h q hq => ?_
      passed := fun s₀ h q h1 h2 => ?_, skipped := fun q h => ?_
      pending_not_tracked := fun q hq => ?_, low_tracked := fun s₀ h q hq hlt => ?_ }
  · rw [hm.seen, htrk, and_comm]
    refine and_congr_right fun hq => ?_
    rw [Taken, hl.seen_iff_tracked (by omega)]
    exact or_congr_right ⟨fun h => ⟨h.1.symm, h.2.2⟩, fun h => ⟨h.1.symm, by omega, h.2⟩⟩
  · rcases (htrk q).mp h with h | ⟨rfl, h⟩
    · have := hl.tracked_le q h; omega
    · omega
  · rcases List.mem_append.mp h with h | h
    · have := hl.mem_le q h; omega
    · rw [List.mem_singleton] at h
      have := hm.high_ge
      unfold top at this
      split at this <;> omega
  · exact Nat.le_trans (hl.first_le s₀ (hhead s₀ h)) hle
  · rw [hm.pending, suspected_snoc, evicts_iff hst, hl.pending_iff]
    refine or_congr (and_congr_right fun _ => not_congr eq_comm) ?_
    constructor
    · intro h
      obtain ⟨h1, h2, h3, h4⟩ := h
      exact ⟨⟨h1, h2, h3⟩, fun h => h4 ((hl.seen_iff_tracked h1).mpr h)⟩
    · intro h
      obtain ⟨⟨h1, h2, h3⟩, h4⟩ := h
      exact ⟨h1, h2, h3, fun h => h4 ((hl.seen_iff_tracked h1).mp h)⟩
  · rcases (hm.pending q).mp hq with ⟨hq, -⟩ | ⟨hq, -⟩
    · exact hl.pending_gt s₀ (hhead s₀ h) q hq
    · exact Nat.lt_of_le_of_lt (hl.first_le s₀ (hhead s₀ h)) hq
  · exact hl.passed_snoc hst hm (hhead s₀ h) h1 h2
  · rw [skipped_snoc, skips_iff hst] at h
    rw [hm.pending]
    rcases h with h | ⟨h1, h2⟩
    · obtain ⟨h1, h2⟩ := hl.skipped q h
      refine ⟨Nat.le_trans h1 hle, ?_⟩
      intro h
      rcases h with h | h
      · exact h2 h.1
      · omega
    · have := hm.high_ge
      unfold top at this
      refine ⟨by split at this <;> omega, ?_⟩
      intro h
      rcases h with h | h
      · have := hl.pending_le q h.1; omega
      · omega
  · rw [htrk]
    rcases (hm.pending q).mp hq with ⟨hp, hne⟩ | ⟨h1, -, h3, h4⟩
    · intro h
      rcases h with h | h
      · exact hl.pending_not_tracked q hp h
      · exact hne h.1.symm
    · intro h
      rcases h with h | h
      · exact h4 ((hl.seen_iff_tracked h1).mpr h)
      · omega
  · rw [htrk]
    rcases List.mem_append.mp hq with hq | hq
    · exact .inl (hl.low_tracked s₀ (hhead s₀ h) q hq hlt)
    · have := hl.first_le s₀ (hhead s₀ h)
      rw [List.mem_singleton] at hq
      exact .inr ⟨hq.symm, by omega⟩

/-- **The ledger of every history.** -/
theorem ledger_after {W : ℕ} : ∀ {H : List ℕ} {st : State}, after W H = .some st → Ledger W H st := by
  intro H
  induction H using List.reverseRecOn with
  | nil => intro st h; simp at h
  | append_singleton H s ih =>
    intro st h
    rw [after_snoc] at h
    obtain rfl := Option.some.inj h
    cases hst : after W H with
    | none =>
      rw [after_eq_none] at hst
      subst hst
      exact Ledger.first W s
    | some st => exact (ih hst).step hst s

theorem exists_head {W : ℕ} {H : List ℕ} {st : State} (hst : after W H = .some st) :
    ∃ s₀, s₀ ∈ H.head? := by
  cases H with
  | nil => simp at hst
  | cons a H => exact ⟨a, rfl⟩

/-- **What is called a duplicate:** a number some arrival of which was tracked,
one that was skipped, and one below the first arrival. -/
theorem dup_iff {W : ℕ} {H : List ℕ} {st : State} (hst : after W H = .some st) (q : ℕ) :
    (record W (.some st) q).2 = true ↔
      Tracked W H q ∨ Skipped W H q ∨ ∃ s₀ ∈ H.head?, q < s₀ := by
  have hl := ledger_after hst
  obtain ⟨s₀, hs₀⟩ := exists_head hst
  rw [record_dup]
  constructor
  · intro h
    rcases h with ⟨hle, hp⟩ | ⟨-, -, hm⟩
    · by_cases hq : s₀ ≤ q
      · rcases hl.passed s₀ hs₀ q hq hle with h | h | h
        · exact .inl h
        · exact absurd h hp
        · exact .inr (.inl h)
      · exact .inr (.inr ⟨s₀, hs₀, Nat.lt_of_not_le hq⟩)
    · exact .inl ((hl.seen_iff q).mp hm).2
  · intro h
    rcases h with h | h | ⟨s, hs, hlt⟩
    · by_cases hq : q ≤ st.high
      · exact .inl ⟨hq, fun hp => hl.pending_not_tracked q hp h⟩
      · exact .inr ⟨by omega, hl.tracked_le q h, (hl.seen_iff q).mpr ⟨by omega, h⟩⟩
    · exact .inl (hl.skipped q h)
    · refine .inl ⟨?_, fun hp => ?_⟩
      · have := hl.first_le s hs; omega
      · have := hl.pending_gt s hs q hp; omega

/-! ## Arrivals in order -/

/-- The watermark reaches what has arrived without a gap. -/
theorem contiguous_le {W : ℕ} (hW : 1 ≤ W) {H : List ℕ} (hord : H.Pairwise (· < ·)) {st : State}
    (hst : after W H = .some st) {s₀ j : ℕ} (hs₀ : s₀ ∈ H.head?) (hj : s₀ ≤ j)
    (hall : ∀ i, s₀ ≤ i → i ≤ j → i ∈ H) : j ≤ st.high := by
  induction H using List.reverseRecOn generalizing st j with
  | nil => simp at hst
  | append_singleton H s ih =>
    rw [after_snoc] at hst
    obtain rfl := Option.some.inj hst
    obtain ⟨hordH, -, hlast⟩ := List.pairwise_append.mp hord
    have hlt : ∀ i ∈ H, i < s := fun i hi => hlast i hi s (List.mem_singleton_self s)
    cases hH : after W H with
    | none =>
      -- The first arrival is the watermark.
      rw [after_eq_none] at hH
      subst hH
      exact Nat.le_of_eq (List.mem_singleton.mp (hall j hj le_rfl))
    | some st =>
      have hm := record_moves (W := W) (ledger_after hH).toSettled s
      have hhead : s₀ ∈ H.head? := by
        cases H with
        | nil => simp at hH
        | cons a H => exact hs₀
      have hmem : ∀ i, s₀ ≤ i → i ≤ j → i < s → i ∈ H := fun i h1 h2 h3 =>
        (List.mem_append.mp (hall i h1 h2)).resolve_right fun h => by
          rw [List.mem_singleton] at h
          omega
      rcases List.mem_append.mp (hall j hj le_rfl) with hjH | hjs
      · have := hlt j hjH
        exact (ih hordH hH hhead hj fun i h1 h2 => hmem i h1 h2 (by omega)).trans hm.high_le
      · -- The last arrival follows the watermark and is taken.
        obtain rfl := List.mem_singleton.mp hjs
        by_contra hgt
        have hs : s₀ < j := hlt s₀ (List.mem_of_mem_head? hhead)
        have hpred := ih hordH hH hhead (Nat.le_sub_one_of_lt hs) fun i h1 h2 =>
          hmem i h1 (by omega) (by omega)
        have hle := hm.high_le
        exact hm.gap (.inr ⟨by omega, by omega, by omega⟩)

section
variable {W : ℕ} (hW : 1 ≤ W) {H : List ℕ} (hord : H.Pairwise (· < ·))
include hW hord

/-- In order, a suspect comes with a number that never arrives. -/
theorem Suspected.exists_gap {q : ℕ} (h : Suspected W H q) :
    ∃ s₀ ∈ H.head?, ∃ j, s₀ < j ∧ j ∉ H ∧ ∃ k ∈ H, j + W < k := by
  obtain ⟨pre, s, post, rfl, ⟨⟨st, hst, hlt, -, hqs⟩, -⟩, -⟩ := h
  obtain ⟨s₀, hs₀⟩ := exists_head hst
  obtain ⟨hpre, hrest, -⟩ := List.pairwise_append.mp hord
  have hge : ∀ i ∈ s :: post, s ≤ i := by
    intro i hi
    rcases List.mem_cons.mp hi with rfl | hi
    · exact le_rfl
    · exact Nat.le_of_lt ((List.pairwise_cons.mp hrest).1 i hi)
  have hs₀q : s₀ ≤ q := Nat.le_of_lt (Nat.lt_of_le_of_lt ((ledger_after hst).first_le s₀ hs₀) hlt)
  -- Were everything up to `q` there, the watermark would be past `q`.
  obtain ⟨i, hi₀, hiq, hi⟩ : ∃ i, s₀ ≤ i ∧ i ≤ q ∧ i ∉ pre := by
    by_contra hall
    push Not at hall
    exact absurd (contiguous_le hW hpre hst hs₀ hs₀q hall) (Nat.not_le.mpr hlt)
  refine ⟨s₀, by simp [Option.mem_def.mp hs₀], i, ?_, fun hm => ?_, s, by simp, by omega⟩
  · exact Nat.lt_of_le_of_ne hi₀ fun h => hi (h ▸ List.mem_of_mem_head? hs₀)
  · rcases List.mem_append.mp hm with hm | hm
    · exact hi hm
    · have := hge i hm
      omega

/-- In order, a number more than the window below an arrival leaves a suspect
when it never arrives. -/
theorem exists_suspected {s₀ j k : ℕ} (hs₀ : s₀ ∈ H.head?) (hj : s₀ < j) (hjH : j ∉ H) (hk : k ∈ H)
    (hjk : j + W < k) : ∃ q, Suspected W H q := by
  obtain ⟨st, hst⟩ : ∃ st, after W H = .some st := by
    refine Option.ne_none_iff_exists'.mp fun h => ?_
    rw [after_eq_none.mp h] at hk
    simp at hk
  have hl := ledger_after hst
  have hjst : j ≤ st.high := by
    have := hl.mem_le k hk
    omega
  rcases hl.passed s₀ hs₀ j (Nat.le_of_lt hj) hjst with ht | hp | ⟨pre, s, post, rfl, st₁, hst₁, h1, h2⟩
  · exact absurd ht.mem hjH
  · exact ⟨j, (hl.pending_iff j).mp hp⟩
  · -- The arrival that skipped `j` evicted the number above the watermark.
    have hl₁ := ledger_after hst₁
    refine ⟨st₁.high + 1, pre, s, post, rfl,
      ⟨⟨st₁, hst₁, by omega, by omega, by omega⟩, fun ht => ?_⟩, ?_⟩
    · exact hl₁.gap ((hl₁.seen_iff _).mpr ⟨by omega, ht⟩)
    · intro i hi hie
      have := (List.pairwise_cons.mp (List.pairwise_append.mp hord).2.1).1 i hi
      omega

/-- **What arrivals in order leave suspected**: something, exactly when some
number that never arrives is more than the window below one that does. -/
theorem exists_suspected_iff :
    (∃ q, Suspected W H q) ↔ ∃ s₀ ∈ H.head?, ∃ j, s₀ < j ∧ j ∉ H ∧ ∃ k ∈ H, j + W < k :=
  ⟨fun ⟨_, h⟩ => h.exists_gap hW hord,
    fun ⟨_, hs₀, _, hj, hjH, _, hk, hjk⟩ => exists_suspected hW hord hs₀ hj hjH hk hjk⟩

end

/-! ## Bounded reordering -/

/-- No arrival is beyond the window or below the first one. -/
def Bounded (W : ℕ) : List ℕ → Prop := Always fun pre s => ¬ Beyond W pre s ∧ ∀ s₀ ∈ pre.head?, s₀ ≤ s

theorem Bounded.tracked_iff {W : ℕ} {H : List ℕ} (h : Bounded W H) {q : ℕ} : Tracked W H q ↔ q ∈ H := by
  refine ⟨Tracked.mem, fun hq => ?_⟩
  obtain ⟨pre, post, rfl⟩ := List.append_of_mem hq
  exact ⟨pre, q, post, rfl, rfl, (h pre q post rfl).1⟩

/-- What moves the watermark over something by a slide is beyond the window. -/
theorem Bounded.not_skipped {W : ℕ} {H : List ℕ} (h : Bounded W H) {q : ℕ} : ¬ Skipped W H q := by
  rintro ⟨pre, s, post, he, st, hst, h1, h2⟩
  exact (h pre s post he).1 ⟨st, hst, by omega⟩

theorem Bounded.not_suspected {W : ℕ} {H : List ℕ} (h : Bounded W H) {q : ℕ} : ¬ Suspected W H q := by
  rintro ⟨pre, s, post, he, ⟨⟨st, hst, h1, h2, h3⟩, -⟩, -⟩
  exact (h pre s post he).1 ⟨st, hst, by omega⟩

theorem Bounded.first_le {W : ℕ} {H : List ℕ} (h : Bounded W H) : ∀ s₀ ∈ H.head?, ∀ q ∈ H, s₀ ≤ q := by
  intro s₀ hs₀ q hq
  obtain ⟨pre, post, rfl⟩ := List.append_of_mem hq
  cases pre with
  | nil => exact Nat.le_of_eq (Option.some.inj hs₀).symm
  | cons a pre => exact (h _ q post rfl).2 s₀ hs₀

/-- The state is the set of arrivals, seen from the watermark. -/
structure Exact (H : List ℕ) (st : State) : Prop where
  high : ∀ s₀ ∈ H.head?, IsGreatest {h | s₀ ≤ h ∧ ∀ i, s₀ ≤ i → i ≤ h → i ∈ H} st.high
  seen : ∀ q, q ∈ st.seen ↔ st.high < q ∧ q ∈ H
  pending : st.pending = ∅

/-- **Under bounded reordering the state is exact.** -/
theorem Bounded.exact {W : ℕ} {H : List ℕ} (h : Bounded W H) {st : State} (hst : after W H = .some st) :
    Exact H st := by
  have hl := ledger_after hst
  have hpend : st.pending = ∅ :=
    Finset.eq_empty_of_forall_notMem fun q hq => h.not_suspected ((hl.pending_iff q).mp hq)
  have hseen : ∀ q, q ∈ st.seen ↔ st.high < q ∧ q ∈ H := fun q => by rw [hl.seen_iff, h.tracked_iff]
  refine ⟨fun s₀ hs₀ => ⟨⟨hl.first_le s₀ hs₀, fun i h1 h2 => ?_⟩, fun k hk => ?_⟩, hseen, hpend⟩
  · rcases hl.passed s₀ hs₀ i h1 h2 with ht | hp | hs
    · exact ht.mem
    · rw [hpend] at hp
      cases hp
    · exact absurd hs h.not_skipped
  · -- A longer run would have the number right above the watermark.
    by_contra hgt
    have hfirst := hl.first_le s₀ hs₀
    exact hl.gap ((hseen _).mpr ⟨by omega, hk.2 _ (by omega) (by omega)⟩)

theorem bounded_of_le {W : ℕ} {H : List ℕ} (h : ∀ s₀ ∈ H.head?, ∀ q ∈ H, s₀ ≤ q ∧ q ≤ s₀ + W) :
    Bounded W H := by
  rintro pre s post rfl
  cases pre with
  | nil => exact ⟨not_beyond_nil, by simp⟩
  | cons a pre =>
    have hs := h a rfl s (by simp)
    refine ⟨?_, fun s₀ hs₀ => Option.some.inj hs₀ ▸ hs.1⟩
    rintro ⟨st, hst, hlt⟩
    have := (ledger_after hst).first_le a rfl
    omega

/-! ## Shifts -/

/-- The state with `c` added to every number. -/
def State.shift (c : ℕ) (st : State) : State where
  high := st.high + c
  seen := st.seen.map (addRightEmbedding c)
  pending := st.pending.map (addRightEmbedding c)

@[simp] theorem add_mem_map_add {s : Finset ℕ} {q c : ℕ} : q + c ∈ s.map (addRightEmbedding c) ↔ q ∈ s :=
  Finset.mem_map' (addRightEmbedding c)

theorem lead_shift (seen : Finset ℕ) (high c : ℕ) :
    lead (seen.map (addRightEmbedding c)) (high + c) = lead seen high := by
  refine Nat.find_congr' fun {k} => not_congr ?_
  rw [show high + c + 1 + k = high + 1 + k + c by omega, add_mem_map_add]

theorem filter_lt_shift (s : Finset ℕ) (k c : ℕ) :
    (s.map (addRightEmbedding c)).filter (k + c < ·) = (s.filter (k < ·)).map (addRightEmbedding c) := by
  rw [Finset.filter_map]
  congr 2
  ext q
  simp

theorem advance_shift (st : State) (c : ℕ) : (st.shift c).advance = st.advance.shift c := by
  simp only [State.advance, State.shift, lead_shift]
  rw [show st.high + c + lead st.seen st.high = st.high + lead st.seen st.high + c by omega,
    filter_lt_shift]

theorem slide_shift {W s : ℕ} (hs : W < s) (st : State) (c : ℕ) :
    (st.shift c).slide W (s + c) = (st.slide W s).shift c := by
  simp only [State.slide]
  rw [← advance_shift]
  congr 1
  have htop : s + c - W - 1 = s - W - 1 + c := by omega
  have hmin : min (s - W - 1 + c) (st.high + c + W) = min (s - W - 1) (st.high + W) + c := by omega
  simp only [State.shift, htop, hmin, filter_lt_shift, Finset.map_union, Finset.map_sdiff,
    Finset.map_add_right_Ioc]

/-- **One arrival commutes with a shift.** -/
theorem record_shift (W c : ℕ) (st : Option State) (s : ℕ) :
    record W (st.map (State.shift c)) (s + c) = ((record W st s).1.shift c, (record W st s).2) := by
  cases st with
  | none => simp [record, State.shift]
  | some st =>
    simp only [record, Option.map_some]
    have hle : s + c ≤ (st.shift c).high ↔ s ≤ st.high := by simp [State.shift]
    have hbeyond : (st.shift c).high + W < s + c ↔ st.high + W < s := by simp only [State.shift]; omega
    have hpending : s + c ∈ (st.shift c).pending ↔ s ∈ st.pending := add_mem_map_add
    have hseen : s + c ∈ (st.shift c).seen ↔ s ∈ st.seen := add_mem_map_add
    simp only [hle, hbeyond, hpending, hseen]
    split
    · split
      · simp [State.shift, Finset.map_erase]
      · rfl
    · split
      · next hb => rw [slide_shift (by omega)]
      · split
        · rfl
        · rw [← advance_shift]
          simp [State.shift, Finset.map_insert]

/-- **A shifted history leaves the shifted state.** -/
theorem after_shift (W c : ℕ) (H : List ℕ) :
    after W (H.map (· + c)) = (after W H).map (State.shift c) := by
  induction H using List.reverseRecOn with
  | nil => rfl
  | append_singleton H s ih =>
    rw [List.map_append, List.map_singleton, after_snoc, after_snoc, ih, record_shift]
    rfl

end Gap
