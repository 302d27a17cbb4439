/-
The finite numbers of IEEE 754 binary64, Go's `float64`, as the rationals that
they are.

A number is `m * 2 ^ k` units of 2^-1074, with 53 bits for `m`; `round` takes the
nearest one to a rational, an even `m` of two, and none when that is too large.
-/
import Mathlib.Algebra.Order.Field.Rat

namespace Binary64

/-- The integer nearest to `a / d`, of two the even one. -/
def nearest (a d : Nat) : Nat :=
  if 2 * (a % d) < d ∨ 2 * (a % d) = d ∧ a / d % 2 = 0 then a / d else a / d + 1

theorem nearest_le (a d : Nat) : nearest a d ≤ a / d + 1 := by
  unfold nearest
  split <;> omega

/-- A magnitude in units of 2^-1074, over the denominator of the rational. -/
def scaled (x : ℚ) : Nat := x.num.natAbs * 2 ^ 1074

/-- How many bits of the magnitude are past the 53 that are kept, which is 0 for
the subnormal numbers. -/
def shift (x : ℚ) : Nat := (scaled x / x.den).log2 - 52

def significand (x : ℚ) : Nat := nearest (scaled x) (x.den * 2 ^ shift x)

theorem significand_le (x : ℚ) : significand x ≤ 2 ^ 53 := by
  have hfloor : scaled x / x.den < 2 ^ ((scaled x / x.den).log2 + 1) := Nat.lt_log2_self
  have hpow : 2 ^ ((scaled x / x.den).log2 + 1) ≤ 2 ^ 53 * 2 ^ shift x := by
    rw [← Nat.pow_add]
    exact Nat.pow_le_pow_right (by decide) (by unfold shift; omega)
  have hkept : scaled x / (x.den * 2 ^ shift x) < 2 ^ 53 := by
    rw [← Nat.div_div_eq_div_mul]
    exact Nat.div_lt_of_lt_mul (Nat.mul_comm _ _ ▸ Nat.lt_of_lt_of_le hfloor hpow)
  exact Nat.le_trans (nearest_le _ _) hkept

/-- A finite number of the format. -/
def Representable (x : ℚ) : Prop :=
  ∃ (m : ℤ) (k : ℕ), m.natAbs ≤ 2 ^ 53 ∧ m.natAbs * 2 ^ k < 2 ^ 2098 ∧ x = m * 2 ^ k / 2 ^ 1074

/-- The significand, with the sign of the rational. -/
def signed (x : ℚ) : ℤ := if x < 0 then -significand x else significand x

theorem natAbs_signed (x : ℚ) : (signed x).natAbs = significand x := by
  rw [signed, apply_ite Int.natAbs, Int.natAbs_neg, Int.natAbs_natCast, ite_self]

theorem representable_signed {x : ℚ} (h : significand x * 2 ^ shift x < 2 ^ 2098) :
    Representable (signed x * 2 ^ shift x / 2 ^ 1074) := by
  refine ⟨signed x, shift x, ?_, ?_, rfl⟩
  · rw [natAbs_signed]
    exact significand_le x
  · rw [natAbs_signed]
    exact h

end Binary64

structure Binary64 where
  val : ℚ
  representable : Binary64.Representable val
  deriving DecidableEq

namespace Binary64

/-- The number nearest to a rational, none when it overflows. -/
def round (x : ℚ) : Option Binary64 :=
  if h : significand x * 2 ^ shift x < 2 ^ 2098 then
    .some ⟨signed x * 2 ^ shift x / 2 ^ 1074, representable_signed h⟩
  else .none

-- A tie goes to the even one of the two.
example : (round (2 ^ 53 + 1)).map val = .some (2 ^ 53) := by decide +kernel
example : (round (2 ^ 53 + 3)).map val = .some (2 ^ 53 + 4) := by decide +kernel

-- Past the midpoint to 2^1024 there is no finite number.
example : (round (2 ^ 1024 - 2 ^ 970)).map val = .none := by decide +kernel

end Binary64
