/-
The arithmetic of a program, on machine words and on unbounded integers.

A computation yields a value and the list of the arithmetic operations it made
on the way (`Calc`). Written once over `Arith`, a program runs on `UInt64`,
where the operations wrap, and on `ℤ`. `Sim` relates the two runs: they end
with related values, and every operation of the machine run was exact, that is
gave what its operands give without a bound. There is a rule for each operation,
with the bound that makes it exact, and one for sequencing (`Sim.bind`).

Where only the result matters, a signed number is an integer that wraps
(`wrap`).
-/
import Mathlib.Algebra.Ring.Int.Defs
import Mathlib.Algebra.Order.Ring.Int

namespace Words

/-! ## Signed numbers that wrap -/

/-- The signed number of 64 bits that an integer wraps to. -/
def wrap (n : ℤ) : ℤ := n.bmod (2 ^ 64)

theorem wrap_of_range {n : ℤ} (hlow : -2 ^ 63 ≤ n) (hhigh : n < 2 ^ 63) : wrap n = n :=
  Int.bmod_eq_of_le (by omega) (by omega)

theorem wrap_range (n : ℤ) : -2 ^ 63 ≤ wrap n ∧ wrap n < 2 ^ 63 := by
  have hlow := Int.le_bmod (x := n) (m := 2 ^ 64) (by decide)
  have hhigh := Int.bmod_lt (x := n) (m := 2 ^ 64) (by decide)
  simp only [wrap]
  omega

theorem wrap_wrap_add (m n : ℤ) : wrap (wrap m + n) = wrap (m + n) := Int.bmod_add_bmod

theorem wrap_wrap_mul (m n : ℤ) : wrap (wrap m * n) = wrap (m * n) := Int.bmod_mul_bmod

/-! ## Computations -/

/-- The numbers of a program. -/
class Arith (α : Type) where
  /-- the number itself, which comparisons go by -/
  val : α → ℤ
  ofNat : ℕ → α
  add : α → α → α
  sub : α → α → α
  /-- the conversion to a signed number -/
  toInt : α → ℤ

instance : Arith UInt64 where
  val x := x.toNat
  ofNat := UInt64.ofNat
  add x y := x + y
  sub x y := x - y
  toInt x := x.toInt64.toInt

instance : Arith ℤ where
  val x := x
  ofNat n := n
  add x y := x + y
  sub x y := x - y
  toInt x := x

/-- An operation, with its operands. -/
inductive Op (α : Type) where
  | ofNat (n : ℕ)
  | add (x y : α)
  | sub (x y : α)
  | toInt (x : α)
  /-- the use of a number as a position -/
  | index (pos : ℤ)
  deriving DecidableEq

/-- The operation does not wrap; a position is not negative. -/
def Op.Exact {α : Type} [Arith α] : Op α → Prop
  | .ofNat n => Arith.val (Arith.ofNat n : α) = n
  | .add x y => Arith.val (Arith.add x y) = Arith.val x + Arith.val y
  | .sub x y => Arith.val (Arith.sub x y) = Arith.val x - Arith.val y
  | .toInt x => Arith.toInt x = Arith.val x
  | .index pos => 0 ≤ pos

instance {α : Type} [Arith α] : DecidablePred (Op.Exact (α := α))
  | .ofNat _ => inferInstanceAs (Decidable (_ = _))
  | .add _ _ => inferInstanceAs (Decidable (_ = _))
  | .sub _ _ => inferInstanceAs (Decidable (_ = _))
  | .toInt _ => inferInstanceAs (Decidable (_ = _))
  | .index _ => inferInstanceAs (Decidable (_ ≤ _))

/-- The operations that are not exact. -/
def inexact {α : Type} [Arith α] (ops : List (Op α)) : List (Op α) := ops.filter fun op => ¬ op.Exact

/-- A computation on numbers of type `α`. -/
structure Calc (α β : Type) where
  value : β
  ops : List (Op α)

namespace Calc

variable {α β γ : Type}

instance : Monad (Calc α) where
  pure b := ⟨b, []⟩
  bind x f := ⟨(f x.value).value, x.ops ++ (f x.value).ops⟩

@[simp] theorem value_pure (b : β) : (pure b : Calc α β).value = b := rfl
@[simp] theorem ops_pure (b : β) : (pure b : Calc α β).ops = [] := rfl
@[simp] theorem value_bind (x : Calc α β) (f : β → Calc α γ) : (x >>= f).value = (f x.value).value := rfl
@[simp] theorem ops_bind (x : Calc α β) (f : β → Calc α γ) :
    (x >>= f).ops = x.ops ++ (f x.value).ops := rfl

variable [Arith α]

def ofNat (n : ℕ) : Calc α α := ⟨Arith.ofNat n, [.ofNat n]⟩
def add (x y : α) : Calc α α := ⟨Arith.add x y, [.add x y]⟩
def sub (x y : α) : Calc α α := ⟨Arith.sub x y, [.sub x y]⟩
def toInt (x : α) : Calc α ℤ := ⟨Arith.toInt x, [.toInt x]⟩
def index (pos : ℤ) : Calc α Unit := ⟨(), [.index pos]⟩

end Calc

/-! ## The machine run against the integer run -/

/-- The word and the integer are both the number `n`. -/
structure Is (n : ℕ) (x : UInt64) (y : ℤ) : Prop where
  word : x.toNat = n
  int : y = n

theorem Is.ofNat {n : ℕ} (h : n < 2 ^ 64) : Is n (Arith.ofNat n) (Arith.ofNat n) :=
  ⟨UInt64.toNat_ofNat_of_lt' h, rfl⟩

theorem Is.refl (x : UInt64) : Is x.toNat x (x.toNat : ℤ) := ⟨rfl, rfl⟩

theorem Is.eq {q x : UInt64} {y : ℤ} (h : Is q.toNat x y) : x = q := UInt64.toNat_inj.mp h.word

section
variable {m n : ℕ} {a b : UInt64} {a' b' : ℤ} (ha : Is m a a') (hb : Is n b b')
include ha

theorem Is.val_word : Arith.val a = m := congrArg Nat.cast ha.word

theorem Is.val_int : Arith.val a' = m := ha.int

include hb

theorem Is.le_word : Arith.val a ≤ Arith.val b ↔ m ≤ n := by rw [ha.val_word, hb.val_word, Nat.cast_le]

theorem Is.le_int : Arith.val a' ≤ Arith.val b' ↔ m ≤ n := by rw [ha.val_int, hb.val_int, Nat.cast_le]

theorem Is.lt_word : Arith.val a < Arith.val b ↔ m < n := by rw [ha.val_word, hb.val_word, Nat.cast_lt]

theorem Is.lt_int : Arith.val a' < Arith.val b' ↔ m < n := by rw [ha.val_int, hb.val_int, Nat.cast_lt]

end

/-- The two runs end with related values, and the machine run is exact. -/
structure Sim {β γ : Type} (R : β → γ → Prop) (x : Calc UInt64 β) (y : Calc ℤ γ) : Prop where
  value : R x.value y.value
  exact : ∀ op ∈ x.ops, op.Exact

namespace Sim

variable {β γ β' γ' : Type} {R : β → γ → Prop} {S : β' → γ' → Prop}

theorem inexact_eq_nil {x : Calc UInt64 β} {y : Calc ℤ γ} (h : Sim R x y) : inexact x.ops = [] :=
  List.filter_eq_nil_iff.mpr fun op hop => by simpa using h.exact op hop

theorem pure {b : β} {c : γ} (h : R b c) : Sim R (pure b) (pure c) := ⟨h, by simp⟩

/-- **Sequencing.** -/
theorem bind {x : Calc UInt64 β} {y : Calc ℤ γ} {f : β → Calc UInt64 β'} {g : γ → Calc ℤ γ'}
    (h : Sim R x y) (hf : ∀ b c, R b c → Sim S (f b) (g c)) : Sim S (x >>= f) (y >>= g) := by
  obtain ⟨hv, he⟩ := hf _ _ h.value
  refine ⟨hv, fun op hop => ?_⟩
  rcases List.mem_append.mp hop with hop | hop
  · exact h.exact op hop
  · exact he op hop

theorem ite {p q : Prop} [Decidable p] [Decidable q] {x x' : Calc UInt64 β} {y y' : Calc ℤ γ}
    (hpq : p ↔ q) (h : p → Sim R x y) (h' : ¬ p → Sim R x' y') :
    Sim R (if p then x else x') (if q then y else y') := by
  by_cases hp : p
  · rw [if_pos hp, if_pos (hpq.mp hp)]
    exact h hp
  · rw [if_neg hp, if_neg fun hq => hp (hpq.mpr hq)]
    exact h' hp

theorem one {b : β} {c : γ} {op : Op UInt64} {ops : List (Op ℤ)} (h : R b c) (he : op.Exact) :
    Sim R ⟨b, [op]⟩ ⟨c, ops⟩ :=
  ⟨h, fun _ hop => List.mem_singleton.mp hop ▸ he⟩

section
variable {m n : ℕ} {a b : UInt64} {a' b' : ℤ}

theorem ofNat (h : n < 2 ^ 64) : Sim (Is n) (Calc.ofNat n) (Calc.ofNat n) :=
  one (Is.ofNat h) (Is.ofNat h).val_word

theorem add (ha : Is m a a') (hb : Is n b b') (h : m + n < 2 ^ 64) :
    Sim (Is (m + n)) (Calc.add a b) (Calc.add a' b') := by
  have hword : (a + b).toNat = m + n := by
    rw [UInt64.toNat_add, ha.word, hb.word, Nat.mod_eq_of_lt h]
  refine one ⟨hword, ?_⟩ ?_
  · simp only [Arith.add, ha.int, hb.int, Nat.cast_add]
  · simp only [Op.Exact, Arith.add, Arith.val, hword, ha.word, hb.word, Nat.cast_add]

theorem sub (ha : Is m a a') (hb : Is n b b') (h : n ≤ m) :
    Sim (Is (m - n)) (Calc.sub a b) (Calc.sub a' b') := by
  have hword : (a - b).toNat = m - n := by
    rw [UInt64.toNat_sub_of_le _ _ (UInt64.le_iff_toNat_le.mpr (by rw [ha.word, hb.word]; exact h)),
      ha.word, hb.word]
  refine one ⟨hword, ?_⟩ ?_
  · simp only [Arith.sub, ha.int, hb.int, Nat.cast_sub h]
  · simp only [Op.Exact, Arith.sub, Arith.val, hword, ha.word, hb.word, Nat.cast_sub h]

theorem toInt (ha : Is m a a') (h : m < 2 ^ 63) :
    Sim (fun i j => i = (m : ℤ) ∧ j = (m : ℤ)) (Calc.toInt a) (Calc.toInt a') := by
  have hword : a.toInt64.toInt = m := by
    have hb : a.toInt64.toBitVec = a.toBitVec := rfl
    have ham : a.toBitVec.toNat = m := ha.word
    rw [Int64.toInt, hb, BitVec.toInt_eq_toNat_of_lt (by omega), ham]
  refine one ⟨hword, ha.int⟩ ?_
  simp only [Op.Exact, Arith.toInt, Arith.val, hword, ha.word]

theorem index {pos pos' : ℤ} (h : 0 ≤ pos) : Sim (fun _ _ => True) (Calc.index pos) (Calc.index pos') :=
  one trivial h

end

end Sim

end Words
