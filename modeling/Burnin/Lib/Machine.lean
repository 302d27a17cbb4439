/-
Runs of a machine whose actions are not always enabled.

A machine is a step function that returns none where an action is not enabled.
`exec` runs it along a list of actions, oldest first, and returns none when one
of them is not enabled where it stands. What holds of every run is proved with
`exec_rec`, by induction on the run, or with `invariant`, when it speaks of the
state alone.
-/
import Mathlib.Data.List.Induction

namespace Machine

variable {σ α : Type*} {step : σ → α → Option σ} {s₀ : σ}

/-- The state after the actions `H`. -/
def exec (step : σ → α → Option σ) (s : σ) (H : List α) : Option σ := H.foldlM step s

theorem exec_nil : exec step s₀ [] = .some s₀ := rfl

theorem exec_cons (a : α) (H : List α) :
    exec step s₀ (a :: H) = (step s₀ a).bind fun s => exec step s H := by
  simp only [exec, List.foldlM_cons]
  rfl

theorem exec_append (H K : List α) :
    exec step s₀ (H ++ K) = (exec step s₀ H).bind fun s => exec step s K := by
  simp only [exec, List.foldlM_append]
  rfl

theorem exec_append_eq_some {H K : List α} {s' : σ} :
    exec step s₀ (H ++ K) = .some s' ↔ ∃ s, exec step s₀ H = .some s ∧ exec step s K = .some s' := by
  rw [exec_append, Option.bind_eq_some_iff]

theorem exec_singleton (s : σ) (a : α) : exec step s [a] = step s a := by
  rw [exec_cons]
  cases step s a <;> rfl

theorem exec_snoc_eq_some {H : List α} {a : α} {s' : σ} :
    exec step s₀ (H ++ [a]) = .some s' ↔ ∃ s, exec step s₀ H = .some s ∧ step s a = .some s' := by
  simp only [exec_append_eq_some, exec_singleton]

theorem filterMap_snoc {β : Type*} (f : α → Option β) (H : List α) (a : α) :
    (H ++ [a]).filterMap f = H.filterMap f ++ (f a).toList := by
  rw [List.filterMap_append]
  cases h : f a <;> simp [h]

/-- **Induction on runs**: what holds at the start and is kept by every step of
a run holds after it. -/
theorem exec_rec {P : List α → σ → Prop} (nil : P [] s₀)
    (snoc : ∀ H s a s', exec step s₀ H = .some s → P H s → step s a = .some s' → P (H ++ [a]) s')
    {H : List α} {s : σ} (h : exec step s₀ H = .some s) : P H s := by
  induction H using List.reverseRecOn generalizing s with
  | nil =>
    obtain rfl := Option.some.inj h
    exact nil
  | append_singleton H a ih =>
    obtain ⟨s', hs', ha⟩ := exec_snoc_eq_some.mp h
    exact snoc H s' a s hs' (ih hs') ha

theorem invariant {I : σ → Prop} (h₀ : I s₀) (hstep : ∀ s a s', I s → step s a = .some s' → I s')
    {H : List α} {s : σ} (h : exec step s₀ H = .some s) : I s :=
  exec_rec (P := fun _ => I) h₀ (fun _ s a s' _ hs => hstep s a s' hs) h

end Machine
