/-
Counting in a ring of cells that is rotated: the cells hold the last entries of
a sequence, and the oldest one is cleared and used again for the next.

The sequence is `f : ℕ → α`, entry `now` is the open one and later entries are
still 0. A ring of `n` cells keeps entry `t` in cell `t % n`. `Holds` says that
it holds the last `n` entries, the open one included; while fewer have been
opened, the cells not yet used stand for entries to come. The ring is updated in
its open cell (`Holds.modify`) and rotated (`Holds.rotate`), and the sum of its
cells is the sum of what it holds (`Holds.sum`).
-/
import Mathlib.Algebra.BigOperators.Fin
import Mathlib.Order.Interval.Finset.Nat

namespace Rotating

open Finset

variable {α : Type*} {n now : ℕ} {f : ℕ → α} {cells : List α}

structure Holds [Zero α] (n : ℕ) (f : ℕ → α) (now : ℕ) (cells : List α) : Prop where
  pos : 0 < n
  length : cells.length = n
  cell : ∀ t ∈ Ico (now + 1 - n) (now + 1 - n + n), cells[t % n]? = .some (f t)
  later : ∀ t, now < t → f t = 0

namespace Holds

theorem replicate [Zero α] (hn : 0 < n) : Holds n (fun _ => (0 : α)) 0 (.replicate n 0) where
  pos := hn
  length := List.length_replicate
  cell t _ := by simp [Nat.mod_lt t hn]
  later _ _ := rfl

theorem modify [Zero α] (h : Holds n f now cells) (g : α → α) :
    Holds n (Function.update f now (g (f now))) now (cells.modify (now % n) g) where
  pos := h.pos
  length := by rw [List.length_modify, h.length]
  cell t ht := by
    have hpos := h.pos
    have hnow : now ∈ Ico (now + 1 - n) (now + 1 - n + n) := mem_Ico.mpr (by omega)
    rw [List.getElem?_modify, h.cell t ht]
    -- Two entries that the ring holds are in one cell only if they are the same.
    by_cases hcell : now % n = t % n
    · obtain rfl : now = t := Nat.mod_injOn_Ico _ _ (mem_coe.mpr hnow) (mem_coe.mpr ht) hcell
      simp
    · have hne : t ≠ now := fun h => hcell (h ▸ rfl)
      simp [hcell, hne]
  later t ht := by rw [Function.update_of_ne (Nat.ne_of_gt ht), h.later t ht]

theorem rotate [Zero α] (h : Holds n f now cells) :
    Holds n f (now + 1) (cells.set ((now + 1) % n) 0) where
  pos := h.pos
  length := by rw [List.length_set, h.length]
  cell t ht := by
    have hpos := h.pos
    have hnext : now + 1 ∈ Ico (now + 1 + 1 - n) (now + 1 + 1 - n + n) := mem_Ico.mpr (by omega)
    rw [List.getElem?_set]
    by_cases hcell : (now + 1) % n = t % n
    · obtain rfl : now + 1 = t := Nat.mod_injOn_Ico _ _ (mem_coe.mpr hnext) (mem_coe.mpr ht) hcell
      simp [h.length, Nat.mod_lt _ hpos, h.later (now + 1) (Nat.lt_succ_self now)]
    · have hne : t ≠ now + 1 := fun h => hcell (h ▸ rfl)
      have hheld : t ∈ Ico (now + 1 - n) (now + 1 - n + n) := by
        rw [mem_Ico] at ht ⊢
        omega
      rw [if_neg hcell, h.cell t hheld]
  later t ht := h.later t (Nat.lt_of_succ_lt ht)

theorem exists_of_mem [Zero α] (h : Holds n f now cells) {a : α} (ha : a ∈ cells) : ∃ t, a = f t := by
  obtain ⟨p, hp, rfl⟩ := List.mem_iff_getElem.mp ha
  have hmem : p ∈ (Ico (now + 1 - n) (now + 1 - n + n)).image (· % n) := by
    rw [Nat.image_Ico_mod, mem_range, ← h.length]
    exact hp
  obtain ⟨t, ht, rfl⟩ := mem_image.mp hmem
  exact ⟨t, Option.some.inj ((List.getElem?_eq_getElem hp).symm.trans (h.cell t ht))⟩

theorem sum [AddCommMonoid α] (h : Holds n f now cells) :
    cells.sum = ∑ t ∈ Ico (now + 1 - n) (now + 1), f t := by
  have hcells : cells.sum = ∑ p ∈ range n, cells.getD p 0 := by
    rw [← h.length, sum_range, ← Fin.sum_univ_getElem]
    simp
  calc cells.sum = ∑ p ∈ range n, cells.getD p 0 := hcells
    _ = ∑ p ∈ (Ico (now + 1 - n) (now + 1 - n + n)).image (· % n), cells.getD p 0 := by
      rw [Nat.image_Ico_mod]
    _ = ∑ t ∈ Ico (now + 1 - n) (now + 1 - n + n), cells.getD (t % n) 0 :=
      sum_image (Nat.mod_injOn_Ico _ _)
    _ = ∑ t ∈ Ico (now + 1 - n) (now + 1 - n + n), f t := by
      refine sum_congr rfl fun t ht => ?_
      rw [List.getD_eq_getElem?_getD, h.cell t ht]
      rfl
    _ = ∑ t ∈ Ico (now + 1 - n) (now + 1), f t := by
      -- What is past the open entry is 0.
      have hsub : Ico (now + 1 - n) (now + 1) ⊆ Ico (now + 1 - n) (now + 1 - n + n) :=
        Ico_subset_Ico_right (by omega)
      refine (sum_subset hsub fun t ht hout => h.later t ?_).symm
      rw [mem_Ico] at ht hout
      omega

end Holds

end Rotating
