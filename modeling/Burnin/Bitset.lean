/-
The tracker's bitset window (`burnin/tracker/tracker.go`): `setBit`, `getBit`
and `shiftLeft` over a slice of 64-bit words.

A window is read as a boolean sequence, `fun i : Nat => getBit window i`, false
from `64 * len(window)` on. The facts below say what each operation does to
that sequence, across word boundaries:

* `getBit_setBit`: `setBit` sets the one position, if the slice holds it;
* `getBit_shiftLeft`: `shiftLeft` drops the first position;
* `getBit_iterate_shiftLeft`: `k` shifts drop the first `k`;
* `window_ext`: the sequence and the length are all there is.

`bits` is the sequence as a list. `bitset_refines` puts the operations together
as operations on it, and `leadingRun` is how many of its first bits are set.
-/
import Mathlib.Data.Nat.Bitwise
import Mathlib.Data.List.Basic
import Mathlib.Logic.Function.Iterate

namespace Burnin

/-- `setBit`: out of the slice's range it does nothing. -/
def setBit (window : List UInt64) (pos : Int) : List UInt64 :=
  if pos < 0 ∨ pos ≥ window.length * 64 then window
  else window.modify (pos.toNat / 64) fun w => w ||| 1 <<< UInt64.ofNat (pos.toNat % 64)

/-- `getBit`: out of the slice's range it is false. -/
def getBit (window : List UInt64) (pos : Int) : Bool :=
  if pos < 0 ∨ pos ≥ window.length * 64 then false
  else window.getD (pos.toNat / 64) 0 &&& 1 <<< UInt64.ofNat (pos.toNat % 64) != 0

/-- `shiftLeft`: every word moves down one bit and takes the low bit of the
next word, which is not yet shifted, as its high bit. -/
def shiftLeft : List UInt64 → List UInt64
  | [] => []
  | [w] => [w >>> 1]
  | w :: v :: rest => (w >>> 1 ||| (v &&& 1) <<< 63) :: shiftLeft (v :: rest)

/-- One round of the loop of `shiftLeft`, on the slice as the rounds before left
it. -/
def shiftWord (window : List UInt64) (i : Nat) : List UInt64 :=
  let window := window.modify i (· >>> 1)
  if i + 1 < window.length then window.modify i (· ||| (window.getD (i + 1) 0 &&& 1) <<< 63) else window

/-- The loop of `shiftLeft`, in place. -/
def shiftLoop (window : List UInt64) : List UInt64 := (List.range window.length).foldl shiftWord window

/-! ## One word -/

/-- Bit `i` of a word. -/
def wordBit (w : UInt64) (i : Nat) : Bool := w.toNat.testBit i

@[simp] theorem wordBit_zero (i : Nat) : wordBit 0 i = false := by simp [wordBit]

theorem wordBit_or (v w : UInt64) (i : Nat) : wordBit (v ||| w) i = (wordBit v i || wordBit w i) := by
  simp [wordBit]

theorem wordBit_ge (w : UInt64) {i : Nat} (hi : 64 ≤ i) : wordBit w i = false :=
  Nat.testBit_lt_two_pow (Nat.lt_of_lt_of_le w.toNat_lt (Nat.pow_le_pow_right (by decide) hi))

theorem toNat_one_shift {k : Nat} (hk : k < 64) : ((1 : UInt64) <<< UInt64.ofNat k).toNat = 2 ^ k := by
  have hlt : 2 ^ k < 2 ^ 64 := Nat.pow_lt_pow_right (by decide) hk
  have hm : k % 2 ^ 64 % 64 = k := by omega
  rw [UInt64.toNat_shiftLeft, UInt64.toNat_ofNat', hm]
  simpa [Nat.shiftLeft_eq] using hlt

theorem wordBit_one_shift {k : Nat} (hk : k < 64) (i : Nat) :
    wordBit (1 <<< UInt64.ofNat k) i = decide (k = i) := by
  rw [wordBit, toNat_one_shift hk, Nat.testBit_two_pow]

/-- The mask test of `getBit` reads one bit. -/
theorem and_one_shift (w : UInt64) {k : Nat} (hk : k < 64) :
    (w &&& 1 <<< UInt64.ofNat k != 0) = wordBit w k := by
  have h : (w &&& 1 <<< UInt64.ofNat k).toNat = (wordBit w k).toNat * 2 ^ k := by
    rw [UInt64.toNat_and, toNat_one_shift hk, Nat.and_two_pow, wordBit]
  have h0 : w &&& 1 <<< UInt64.ofNat k = 0 ↔ wordBit w k = false := by
    rw [← UInt64.toNat_inj, h]
    cases wordBit w k <;> simp
  by_cases hb : wordBit w k = true
  · simp [hb, h0]
  · simp [hb, h0]

theorem wordBit_shiftRight (w : UInt64) (i : Nat) : wordBit (w >>> 1) i = wordBit w (i + 1) := by
  simp [wordBit, UInt64.toNat_shiftRight, Nat.testBit_shiftRight, Nat.add_comm]

/-- The bit carried down from the next word lands at position 63. -/
theorem wordBit_carry (v : UInt64) (i : Nat) :
    wordBit ((v &&& 1) <<< 63) i = (decide (63 = i) && wordBit v 0) := by
  have hv : wordBit v 0 = decide (v.toNat % 2 = 1) := by simp [wordBit]
  have hc : ((v &&& 1) <<< 63).toNat = (v.toNat % 2) <<< 63 % 2 ^ 64 := by
    simp [UInt64.toNat_shiftLeft]
  rw [wordBit, hc, hv]
  rcases Nat.mod_two_eq_zero_or_one v.toNat with h | h
  · simp [h]
  · rw [h, show 1 <<< 63 % 2 ^ 64 = 2 ^ 63 by decide, Nat.testBit_two_pow]
    simp

/-! ## A window as a boolean sequence -/

theorem getBit_eq_wordBit (window : List UInt64) (i : Nat) :
    getBit window i = wordBit (window.getD (i / 64) 0) (i % 64) := by
  simp only [getBit]
  split
  · next h =>
    have hlen : window.length ≤ i / 64 := by omega
    rw [List.getD_eq_default _ _ hlen, wordBit_zero]
  · simp only [Int.toNat_natCast]
    exact and_one_shift _ (Nat.mod_lt _ (by decide))

theorem getBit_nil (i : Nat) : getBit [] i = false := by simp [getBit_eq_wordBit]

theorem getBit_cons (w : UInt64) (rest : List UInt64) (i : Nat) :
    getBit (w :: rest) i = if i < 64 then wordBit w i else getBit rest (i - 64 : Nat) := by
  rw [getBit_eq_wordBit]
  split
  · next h => simp [Nat.div_eq_of_lt h, Nat.mod_eq_of_lt h]
  · next h =>
    have hd : i / 64 = (i - 64) / 64 + 1 := by omega
    have hm : i % 64 = (i - 64) % 64 := by omega
    rw [hd, List.getD_cons_succ, hm, ← getBit_eq_wordBit]

theorem getBit_ge {window : List UInt64} {i : Nat} (h : 64 * window.length ≤ i) :
    getBit window i = false := by
  simp only [getBit]
  rw [if_pos (by omega)]

theorem getBit_replicate (n i : Nat) : getBit (List.replicate n 0) i = false := by
  rw [getBit_eq_wordBit]
  simp

/-! ## What the operations do to the sequence -/

theorem length_setBit (window : List UInt64) (pos : Int) :
    (setBit window pos).length = window.length := by
  simp only [setBit]
  split <;> simp

theorem length_shiftLeft : ∀ window : List UInt64, (shiftLeft window).length = window.length
  | [] => rfl
  | [_] => rfl
  | _ :: v :: rest => by simp [shiftLeft, length_shiftLeft (v :: rest)]

theorem getBit_setBit (window : List UInt64) (j i : Nat) :
    getBit (setBit window j) i = (getBit window i || decide (i = j ∧ j < 64 * window.length)) := by
  by_cases hj : j < 64 * window.length
  · have hset : setBit window j =
        window.modify (j / 64) fun w => w ||| 1 <<< UInt64.ofNat (j % 64) := by
      simp only [setBit]
      rw [if_neg (by omega)]
      rfl
    have hlt : j / 64 < window.length := by omega
    rw [hset, getBit_eq_wordBit, getBit_eq_wordBit]
    simp only [hj, and_true, List.getD_eq_getElem?_getD, List.getElem?_modify]
    by_cases hw : j / 64 = i / 64
    · rw [← hw, List.getElem?_eq_getElem hlt]
      simp only [if_true, Option.map_eq_map, Option.map_some, Option.getD_some, wordBit_or,
        wordBit_one_shift (Nat.mod_lt j (by decide : 0 < 64))]
      congr 1
      simp only [decide_eq_decide]
      omega
    · have hij : ¬ i = j := by rintro rfl; exact hw rfl
      simp [hw, hij]
  · have hset : setBit window j = window := by
      simp only [setBit]
      rw [if_pos (by omega)]
    simp [hset, hj]

theorem getBit_shiftLeft : ∀ (window : List UInt64) (i : Nat),
    getBit (shiftLeft window) i = getBit window (i + 1 : Nat)
  | [], i => by rw [shiftLeft, getBit_nil, getBit_nil]
  | [w], i => by
    simp only [shiftLeft, getBit_cons, getBit_nil, wordBit_shiftRight]
    by_cases h : i + 1 < 64
    · simp [h, Nat.lt_of_succ_lt h]
    · simp only [h, if_false]
      split
      · exact wordBit_ge w (by omega)
      · rfl
  | w :: v :: rest, i => by
    have ih := getBit_shiftLeft (v :: rest)
    simp only [shiftLeft]
    rw [getBit_cons, getBit_cons w (v :: rest)]
    simp only [wordBit_or, wordBit_shiftRight, wordBit_carry]
    rcases Nat.lt_trichotomy i 63 with h | h | h
    · have h1 : ¬ 63 = i := by omega
      simp [h1, show i < 64 by omega, show i + 1 < 64 by omega]
    · -- The boundary: the high bit of a word is the low bit of the next.
      subst h
      have hv : getBit (v :: rest) (0 : Nat) = wordBit v 0 := by rw [getBit_cons, if_pos (by decide)]
      simp only [wordBit_ge w (Nat.le_refl 64), Nat.reduceLT, if_true, if_false, Nat.reduceAdd, hv,
        Nat.sub_self, decide_true, Bool.true_and, Bool.false_or]
    · simp only [show ¬ i < 64 by omega, show ¬ i + 1 < 64 by omega, if_false]
      rw [ih, show i - 64 + 1 = i + 1 - 64 by omega]

theorem getBit_iterate_shiftLeft (window : List UInt64) (k i : Nat) :
    getBit (shiftLeft^[k] window) i = getBit window (i + k : Nat) := by
  induction k generalizing i with
  | zero => rfl
  | succ k ih =>
    rw [Function.iterate_succ_apply', getBit_shiftLeft, ih]
    congr 2
    omega

theorem length_iterate_shiftLeft (window : List UInt64) (k : Nat) :
    (shiftLeft^[k] window).length = window.length := by
  induction k with
  | zero => rfl
  | succ k ih => rw [Function.iterate_succ_apply', length_shiftLeft, ih]

theorem wordBit_ext {v w : UInt64} (h : ∀ i < 64, wordBit v i = wordBit w i) : v = w := by
  refine UInt64.toNat_inj.mp (Nat.eq_of_testBit_eq fun i => ?_)
  by_cases hi : i < 64
  · exact h i hi
  · exact (wordBit_ge v (by omega)).trans (wordBit_ge w (by omega)).symm

theorem window_ext {v w : List UInt64} (hl : v.length = w.length)
    (h : ∀ i : Nat, getBit v i = getBit w i) : v = w := by
  refine List.ext_getElem hl fun n hv hw => wordBit_ext fun i hi => ?_
  have hn := h (64 * n + i)
  have hdiv : (64 * n + i) / 64 = n := by omega
  have hmod : (64 * n + i) % 64 = i := by omega
  rw [getBit_eq_wordBit, getBit_eq_wordBit, hdiv, hmod] at hn
  simpa [List.getD_eq_getElem, hv, hw] using hn

/-! ## The loop in place -/

theorem modify_append_cons {α : Type*} (pre : List α) (w : α) (rest : List α) (f : α → α) :
    (pre ++ w :: rest).modify pre.length f = pre ++ f w :: rest := by
  simp [List.modify_eq_take_drop]

theorem shiftWord_last (pre : List UInt64) (w : UInt64) :
    shiftWord (pre ++ [w]) pre.length = pre ++ [w >>> 1] := by
  simp [shiftWord, modify_append_cons]

/-- A round reads the word after its own and changes only its own. -/
theorem shiftWord_cons (pre : List UInt64) (w v : UInt64) (rest : List UInt64) :
    shiftWord (pre ++ w :: v :: rest) pre.length = pre ++
      (w >>> 1 ||| (v &&& 1) <<< 63) :: v :: rest := by
  simp [shiftWord, modify_append_cons]

/-- The rounds from word `pre.length` on: `rest` is what they have not reached,
so every word they read from it is still the one they were given. -/
theorem foldl_shiftWord (rest pre : List UInt64) :
    (List.range' pre.length rest.length).foldl shiftWord (pre ++ rest) = pre ++ shiftLeft rest := by
  induction rest using shiftLeft.induct generalizing pre with
  | case1 => simp [shiftLeft]
  | case2 w =>
    show shiftWord (pre ++ [w]) pre.length = pre ++ [w >>> 1]
    exact shiftWord_last pre w
  | case3 w v rest ih =>
    let w' := w >>> 1 ||| (v &&& 1) <<< 63
    have hround := shiftWord_cons pre w v rest
    have hrest := ih (pre ++ [w'])
    rw [List.length_append, List.length_singleton, List.append_assoc, List.append_assoc] at hrest
    rw [List.length_cons, List.range'_succ, List.foldl_cons, hround]
    exact hrest

theorem shiftLoop_eq (window : List UInt64) : shiftLoop window = shiftLeft window := by
  have h := foldl_shiftWord window []
  rw [List.length_nil, ← List.range_eq_range'] at h
  exact h

/-! ## The sequence as a list -/

/-- The window's bits, from position 0 on. -/
def bits (window : List UInt64) : List Bool := (List.range (64 * window.length)).map fun i :
    Nat => getBit window i

@[simp] theorem length_bits (window : List UInt64) : (bits window).length = 64 * window.length := by
  simp [bits]

theorem getElem_bits (window : List UInt64) {i : Nat} (hi : i < (bits window).length) :
    (bits window)[i] = getBit window i := by
  simp [bits]

theorem getElem?_bits (window : List UInt64) (i : Nat) :
    (bits window)[i]? = if i < 64 * window.length then some (getBit window i) else none := by
  by_cases hi : i < 64 * window.length <;> simp [bits, hi]

/-- `k` shifts drop the first `k` bits and fill up with clear ones. -/
theorem bits_iterate_shiftLeft (window : List UInt64) (k : Nat) :
    bits (shiftLeft^[k] window) = (bits window).drop k ++
      List.replicate (min k (64 * window.length)) false := by
  apply List.ext_getElem?
  intro i
  rw [getElem?_bits, length_iterate_shiftLeft, getBit_iterate_shiftLeft, List.getElem?_append,
    List.length_drop, length_bits, List.getElem?_drop, getElem?_bits, List.getElem?_replicate]
  by_cases hin : i < 64 * window.length - k
  · rw [if_pos hin, if_pos (by omega), if_pos (by omega), Nat.add_comm k i]
  · rw [if_neg hin]
    by_cases hi : i < 64 * window.length
    · rw [if_pos hi, if_pos (by omega), getBit_ge (by omega)]
    · rw [if_neg hi, if_neg (by omega)]

/-- What the three operations do to the boolean sequence a window stands for:
`setBit` sets one position, `shiftLeft`, which is what the loop in place
computes, drops the first one, `k` calls of it drop the first `k`, and no
position past the end is ever set. -/
theorem bitset_refines (window : List UInt64) :
    (∀ i j : Nat, getBit (setBit window j) i = true ↔
        getBit window i = true ∨ i = j ∧ j < 64 * window.length) ∧
      shiftLoop window = shiftLeft window ∧
      (∀ i : Nat, getBit (shiftLeft window) i = getBit window (i + 1 : Nat)) ∧
      (∀ i : Nat, 64 * window.length ≤ i →
        getBit window i = false ∧ getBit (shiftLeft window) i = false) ∧
      (∀ k i : Nat, getBit (shiftLeft^[k] window) i = getBit window (i + k : Nat)) ∧
      ∀ k : Nat, bits (shiftLeft^[k] window) =
        (bits window).drop k ++ List.replicate (min k (64 * window.length)) false := by
  have hset : ∀ i j : Nat, getBit (setBit window j) i = true ↔
      getBit window i = true ∨ i = j ∧ j < 64 * window.length := by
    intro i j
    rw [getBit_setBit, Bool.or_eq_true, decide_eq_true_iff]
  have hend : ∀ i : Nat, 64 * window.length ≤ i →
      getBit window i = false ∧ getBit (shiftLeft window) i = false := by
    intro i hi
    exact ⟨getBit_ge hi, getBit_ge (by rw [length_shiftLeft]; exact hi)⟩
  exact ⟨hset, shiftLoop_eq window, getBit_shiftLeft window, hend, getBit_iterate_shiftLeft window,
    bits_iterate_shiftLeft window⟩

/-! ## The leading run -/

/-- How many consecutive bits are set from position 0 on: where the first clear
one is, all of them if none is clear. -/
def leadingRun (window : List UInt64) : Nat := (bits window).findIdx (! ·)

theorem leadingRun_le (window : List UInt64) : leadingRun window ≤ 64 * window.length := by
  rw [← length_bits]
  exact List.findIdx_le_length

theorem getBit_of_lt_leadingRun {window : List UInt64} {i : Nat} (hi : i < leadingRun window) :
    getBit window i = true := by
  have h := List.not_of_lt_findIdx hi
  rwa [getElem_bits, Bool.not_eq_false'] at h

theorem getBit_leadingRun (window : List UInt64) : getBit window (leadingRun window) = false := by
  by_cases hlen : leadingRun window < 64 * window.length
  · rw [← length_bits] at hlen
    have h : (! (bits window)[leadingRun window]) = true := List.findIdx_getElem
    rwa [getElem_bits, Bool.not_eq_true'] at h
  · exact getBit_ge (by omega)

end Burnin
