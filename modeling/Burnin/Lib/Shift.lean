/-
Shift registers with linear feedback, the way a cyclic redundancy check uses
them: a bit of the message is added to the lowest bit of the register, which is
then shifted down by one, with the polynomial added when a one falls out.

`run_eq_iterate` lets the bits be added all at once, before the register is
shifted. What the register finds of a change is `run_burst`: when the top bit of
the polynomial is set, two messages that differ in at most as many consecutive
bits as the register is wide leave different registers.
-/
import Mathlib.Order.Iterate

namespace Shift

variable {w : Nat} {poly : BitVec w}

def step (poly s : BitVec w) : BitVec w := if s.getLsbD 0 then (s >>> 1) ^^^ poly else s >>> 1

def feed (poly s : BitVec w) (b : Bool) : BitVec w := step poly (s ^^^ (BitVec.ofBool b).setWidth w)

def run (poly s : BitVec w) (bits : List Bool) : BitVec w := bits.foldl (feed poly) s

theorem getLsbD_step (s : BitVec w) (i : Nat) :
    (step poly s).getLsbD i = (s.getLsbD (1 + i) ^^ (s.getLsbD 0 && poly.getLsbD i)) := by
  unfold step
  split
  · next h => simp [h]
  · next h => simp [Bool.eq_false_iff.mpr h]

theorem getLsbD_add (s : BitVec w) (b : Bool) (hw : 0 < w) (i : Nat) :
    (s ^^^ (BitVec.ofBool b).setWidth w).getLsbD i = (s.getLsbD i ^^ (decide (i = 0) && b)) := by
  rw [BitVec.getLsbD_xor, BitVec.getLsbD_setWidth, BitVec.getLsbD_ofBool]
  by_cases hi : i = 0
  · simp [hi, hw]
  · simp [hi]

/-- What falls out of the register comes in at its top. -/
theorem getLsbD_feed_top (hpoly : poly.getLsbD (w - 1) = true) (s : BitVec w) (b : Bool) :
    (feed poly s b).getLsbD (w - 1) = (s.getLsbD 0 ^^ b) := by
  have hw : 0 < w := Nat.pos_of_ne_zero fun h => by simp [h] at hpoly
  have htop : s.getLsbD (1 + (w - 1)) = false := BitVec.getLsbD_of_ge _ _ (by omega)
  rw [feed, getLsbD_step, getLsbD_add s b hw, getLsbD_add s b hw, hpoly, htop]
  simp

/-- **Two messages that leave one register** differ where the registers that
they began with did, when they are not longer than the register. -/
theorem run_inj (hpoly : poly.getLsbD (w - 1) = true) {bits bits' : List Bool}
    (hlen : bits'.length = bits.length) (hle : bits.length ≤ w) {s s' : BitVec w}
    (h : run poly s bits = run poly s' bits') :
    ∀ i < w, (s.getLsbD i ^^ bits.getD i false) = (s'.getLsbD i ^^ bits'.getD i false) := by
  have hw : 0 < w := Nat.pos_of_ne_zero fun h => by simp [h] at hpoly
  induction bits generalizing bits' s s' with
  | nil =>
    obtain rfl := List.length_eq_zero_iff.mp hlen
    intro i _
    exact congrArg (fun s : BitVec w => (s.getLsbD i ^^ false)) h
  | cons b bits ih =>
    cases bits' with
    | nil => cases hlen
    | cons b' bits' =>
      simp only [List.length_cons, Nat.add_right_cancel_iff] at hlen hle
      have ih := ih hlen (by omega) h
      -- The messages are too short for the top bit: the same bit fell out of both.
      have hlow : (s.getLsbD 0 ^^ b) = (s'.getLsbD 0 ^^ b') := by
        have htop := ih (w - 1) (by omega)
        rw [getLsbD_feed_top hpoly, getLsbD_feed_top hpoly] at htop
        simpa [List.getD_eq_getElem?_getD, List.getElem?_eq_none (show bits.length ≤ w - 1 by omega),
          List.getElem?_eq_none (show bits'.length ≤ w - 1 by omega)] using htop
      intro i hi
      cases i with
      | zero => simpa using hlow
      | succ i =>
        have hi := ih i (by omega)
        simp only [feed, getLsbD_step, getLsbD_add _ _ hw] at hi
        simp only [Nat.add_comm 1 i, Nat.add_eq_zero_iff, Nat.one_ne_zero, and_false, decide_false,
          Bool.false_and, Bool.xor_false, decide_true, Bool.true_and, hlow] at hi
        simp only [List.getD_cons_succ]
        revert hi
        generalize ((s'.getLsbD 0 ^^ b') && poly.getLsbD i) = x
        cases x <;> simp

theorem run_left_inj (hpoly : poly.getLsbD (w - 1) = true) {bits : List Bool} {s s' : BitVec w}
    (h : run poly s bits = run poly s' bits) : s = s' := by
  have hw : 0 < w := Nat.pos_of_ne_zero fun h => by simp [h] at hpoly
  induction bits generalizing s s' with
  | nil => exact h
  | cons b bits ih =>
    have hfeed : run poly s [b] = run poly s' [b] := ih h
    refine BitVec.eq_of_getLsbD_eq fun i hi => ?_
    simpa using run_inj hpoly rfl (show [b].length ≤ w from hw) hfeed i hi

/-- **A burst is found.** -/
theorem run_burst (hpoly : poly.getLsbD (w - 1) = true) {s : BitVec w} {pre mid mid' post : List Bool}
    (hlen : mid'.length = mid.length) (hle : mid.length ≤ w)
    (h : run poly s (pre ++ mid ++ post) = run poly s (pre ++ mid' ++ post)) : mid = mid' := by
  simp only [run, List.foldl_append] at h
  have hmid := run_inj hpoly hlen hle (run_left_inj hpoly h)
  refine List.ext_getElem hlen.symm fun i h1 h2 => ?_
  have hi := hmid i (by omega)
  simpa [List.getD_eq_getElem?_getD, h1, h2] using hi

/-! ## All bits at once -/

/-- The bits of a message, the first one lowest. -/
def ofBits (w : Nat) (bits : List Bool) : BitVec w := (BitVec.ofBoolListLE bits).setWidth w

theorem getLsbD_ofBits (bits : List Bool) {i : Nat} (hi : i < w) :
    (ofBits w bits).getLsbD i = bits.getD i false := by
  simp [ofBits, hi]

theorem run_eq_iterate (s : BitVec w) {bits : List Bool} (hle : bits.length ≤ w) :
    run poly s bits = (step poly)^[bits.length] (s ^^^ ofBits w bits) := by
  induction bits generalizing s with
  | nil =>
    refine BitVec.eq_of_getLsbD_eq fun i hi => ?_
    simp only [List.length_nil, Function.iterate_zero, id_eq, BitVec.getLsbD_xor, getLsbD_ofBits _ hi]
    simp [run]
  | cons b bits ih =>
    simp only [List.length_cons] at hle
    have hw : 0 < w := by omega
    rw [List.length_cons, Function.iterate_succ_apply]
    refine (ih (feed poly s b) (by omega)).trans (congrArg _ ?_)
    refine BitVec.eq_of_getLsbD_eq fun i hi => ?_
    -- The bits that have not been added yet are one place higher.
    have hnext : (ofBits w (b :: bits)).getLsbD (1 + i) = bits.getD i false := by
      by_cases hlt : 1 + i < w
      · rw [getLsbD_ofBits _ hlt, Nat.add_comm, List.getD_cons_succ]
      · rw [BitVec.getLsbD_of_ge _ _ (by omega), List.getD_eq_getElem?_getD,
          List.getElem?_eq_none (by omega), Option.getD_none]
    rw [feed, BitVec.getLsbD_xor, getLsbD_step, getLsbD_step, getLsbD_add _ _ hw, getLsbD_add _ _ hw,
      BitVec.getLsbD_xor, BitVec.getLsbD_xor, hnext, getLsbD_ofBits _ hw, getLsbD_ofBits _ hi]
    simp [Bool.xor_comm]

end Shift
