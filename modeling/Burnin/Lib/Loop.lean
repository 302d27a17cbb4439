/-
Loops without a counter: `for cond(s) { s = body(s) }`.

`Runs cond body m s s'` says that the loop, entered in `s`, makes `m` rounds and
leaves in `s'`. A loop that never leaves has no such `m`, so termination is the
existence of one. `runs_iff` reduces it to the iterates of the body, and a loop
leaves in one way at most (`Runs.unique`).
-/
import Mathlib.Logic.Function.Iterate

namespace Loop

variable {σ : Type*} {cond : σ → Bool} {body : σ → σ}

inductive Runs (cond : σ → Bool) (body : σ → σ) : Nat → σ → σ → Prop
  | leave {s : σ} (h : cond s = false) : Runs cond body 0 s s
  | round {m : Nat} {s s' : σ} (h : cond s = true)
      (rest : Runs cond body m (body s) s') : Runs cond body (m + 1) s s'

/-- The loop is left after `m` rounds when the condition holds after each of the
first `m` numbers of rounds and not after the next. -/
theorem runs_iff {m : Nat} {s s' : σ} :
    Runs cond body m s s' ↔
      (∀ j < m, cond (body^[j] s) = true) ∧ cond (body^[m] s) = false ∧ s' = body^[m] s := by
  constructor
  · intro h
    induction h with
    | leave h => exact ⟨fun j hj => absurd hj (Nat.not_lt_zero j), h, rfl⟩
    | round h rest ih =>
      obtain ⟨hrun, hstop, hs'⟩ := ih
      refine ⟨fun j hj => ?_, hstop, hs'⟩
      cases j with
      | zero => exact h
      | succ j => exact hrun j (Nat.lt_of_succ_lt_succ hj)
  · intro h
    obtain ⟨hrun, hstop, rfl⟩ := h
    induction m generalizing s with
    | zero => exact .leave hstop
    | succ m ih =>
      have hfirst : cond s = true := hrun 0 (Nat.succ_pos m)
      exact .round hfirst (ih (fun j hj => hrun (j + 1) (Nat.succ_lt_succ hj)) hstop)

theorem Runs.unique {m n : Nat} {s s' s'' : σ} (h : Runs cond body m s s')
    (h' : Runs cond body n s s'') : n = m ∧ s'' = s' := by
  induction h generalizing n with
  | leave h =>
    cases h' with
    | leave => exact ⟨rfl, rfl⟩
    | round hc _ => exact absurd (hc.symm.trans h) (by decide)
  | round h rest ih =>
    cases h' with
    | leave hc => exact absurd (h.symm.trans hc) (by decide)
    | round _ rest' =>
      obtain ⟨hn, hs⟩ := ih rest'
      exact ⟨congrArg Nat.succ hn, hs⟩

end Loop
