/-
Weighted choice: the draws from 0 on are cut into consecutive slices, one for
each weight, and a draw chooses the entry in whose slice it falls.

`card_share_choose`: with weights that are not negative, an entry is chosen by
as many draws as it weighs. `sum_card_share`: a choice that is made for every
draw shares the draws out among its entries.
-/
import Mathlib

namespace Weighted

/-- The entry that the draw `r` chooses. -/
def choose : List ℤ → ℤ → Option ℕ
  | [], _ => .none
  | w :: ws, r => if r < w then .some 0 else (choose ws (r - w)).map (· + 1)

theorem choose_cons_zero {w r : ℤ} {ws : List ℤ} : choose (w :: ws) r = .some 0 ↔ r < w := by
  rw [choose]
  split <;> simp_all

theorem choose_cons_succ {w r : ℤ} {ws : List ℤ} {i : ℕ} :
    choose (w :: ws) r = .some (i + 1) ↔ w ≤ r ∧ choose ws (r - w) = .some i := by
  rw [choose]
  split <;> simp_all

theorem isSome_choose {ws : List ℤ} {r : ℤ} (hr : 0 ≤ r) (h : r < ws.sum) :
    (choose ws r).isSome = true := by
  induction ws generalizing r with
  | nil => exact absurd h (not_lt.mpr hr)
  | cons w ws ih =>
    rw [choose]
    split
    · rfl
    · rw [List.sum_cons] at h
      rw [Option.isSome_map]
      exact ih (by omega) (by omega)

/-- The draws of `s` for which `f` chooses the entry `i`. -/
def share (s : Finset ℕ) (f : ℤ → Option ℕ) (i : ℕ) : Finset ℕ := s.filter fun r => f r = .some i

theorem mem_share {s : Finset ℕ} {f : ℤ → Option ℕ} {i r : ℕ} :
    r ∈ share s f i ↔ r ∈ s ∧ f r = .some i :=
  Finset.mem_filter

/-- **An entry is chosen by as many draws as it weighs.** -/
theorem card_share_choose {ws : List ℤ} (hws : ∀ w ∈ ws, 0 ≤ w) {i : ℕ} {w : ℤ} (hw : ws[i]? = .some w) :
    ((share (Finset.range ws.sum.toNat) (choose ws) i).card : ℤ) = w := by
  induction ws generalizing i with
  | nil => cases hw
  | cons v ws ih =>
    have hv : 0 ≤ v := hws v List.mem_cons_self
    have hrest : ∀ u ∈ ws, 0 ≤ u := fun u hu => hws u (List.mem_cons_of_mem v hu)
    have hsum : 0 ≤ ws.sum := List.sum_nonneg hrest
    rw [List.sum_cons]
    cases i with
    | zero =>
      -- The first slice.
      obtain rfl : v = w := Option.some.inj hw
      have hslice : share (Finset.range (v + ws.sum).toNat) (choose (v :: ws)) 0 =
          Finset.range v.toNat := by
        ext r
        rw [mem_share, choose_cons_zero, Finset.mem_range, Finset.mem_range]
        omega
      rw [hslice, Finset.card_range]
      omega
    | succ i =>
      -- The slices of the other entries start after the first.
      have hslice : share (Finset.range (v + ws.sum).toNat) (choose (v :: ws)) (i + 1) =
          (share (Finset.range ws.sum.toNat) (choose ws) i).map (addRightEmbedding v.toNat) := by
        ext r
        simp only [Finset.mem_map, mem_share, choose_cons_succ, Finset.mem_range,
          addRightEmbedding_apply]
        constructor
        · rintro ⟨hr, hvr, hc⟩
          refine ⟨r - v.toNat, ⟨by omega, ?_⟩, by omega⟩
          rw [show ((r - v.toNat : ℕ) : ℤ) = r - v by omega]
          exact hc
        · rintro ⟨r', ⟨hr', hc⟩, rfl⟩
          refine ⟨by omega, by omega, ?_⟩
          rw [show ((r' + v.toNat : ℕ) : ℤ) - v = r' by omega]
          exact hc
      rw [hslice, Finset.card_map]
      exact ih hrest hw

/-- A choice among some entries that is made for every draw shares the draws
out. -/
theorem sum_card_share {s entries : Finset ℕ} {f : ℤ → Option ℕ}
    (hf : ∀ r ∈ s, ∃ i ∈ entries, f r = .some i) : ∑ i ∈ entries, (share s f i).card = s.card := by
  have hmaps : ∀ r ∈ s, f r ∈ entries.map Function.Embedding.some := by
    intro r hr
    obtain ⟨i, hi, hfi⟩ := hf r hr
    exact Finset.mem_map.mpr ⟨i, hi, hfi.symm⟩
  rw [Finset.card_eq_sum_card_fiberwise hmaps, Finset.sum_map]
  rfl

end Weighted
