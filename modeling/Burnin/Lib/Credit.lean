/-
Credit-based flow control, as a receiver that grants credit in batches sees it.

The receiver grants `n` at a time, each message that the sender pushes uses one
unit, and a drain takes back what is left. `le_iff` says what it takes for the
outstanding credit never to exceed one batch: a grant only when the one before
is spent.
-/
import Burnin.Lib.Past

namespace Credit

open Past

/-- What happens to the credit of a link. -/
inductive Op where
  | grant
  | use
  | drain
  deriving DecidableEq

/-- The outstanding credit after an operation; a push without credit leaves it
at 0. -/
def step (n : Nat) (credit : Nat) : Op → Nat
  | .grant => credit + n
  | .use => credit - 1
  | .drain => 0

/-- The outstanding credit of a new link after the operations `H`. -/
def outstanding (n : Nat) (H : List Op) : Nat := H.foldl (step n) 0

theorem outstanding_snoc (n : Nat) (H : List Op) (o : Op) :
    outstanding n (H ++ [o]) = step n (outstanding n H) o := by
  rw [outstanding, List.foldl_append]
  rfl

/-- How many messages were pushed since the last grant. -/
def used (H : List Op) : Nat :=
  H.foldl (fun k o => match o with
    | .grant => 0
    | .use => k + 1
    | .drain => k) 0

theorem used_snoc (H : List Op) (o : Op) :
    used (H ++ [o]) = match o with
      | .grant => 0
      | .use => used H + 1
      | .drain => used H := by
  rw [used, List.foldl_append]
  rfl

/-- There was a drain since the last grant. -/
def Drained (H : List Op) : Prop := Since (fun _ o => o = .drain) (· = .grant) H

/-- Nothing is left of the last grant: there was none, a drain took back the
rest, or as many messages were pushed since. -/
def Spent (n : Nat) (H : List Op) : Prop := .grant ∉ H ∨ Drained H ∨ n ≤ used H

/-- **The account of a link** whose grants were all made when the one before was
spent. -/
theorem outstanding_eq {n : Nat} {H : List Op} (h : Always (fun pre o => o = .grant → Spent n pre) H) :
    (.grant ∉ H ∨ Drained H) ∧ outstanding n H = 0 ∨
      .grant ∈ H ∧ ¬ Drained H ∧ outstanding n H = n - used H := by
  induction H using List.reverseRecOn with
  | nil => exact .inl ⟨.inl List.not_mem_nil, rfl⟩
  | append_singleton H o ih =>
    obtain ⟨hH, ho⟩ := always_snoc.mp h
    have ih := ih hH
    rw [outstanding_snoc, used_snoc]
    cases o with
    | grant =>
      -- The credit before the grant was 0, so it is the batch now.
      have hzero : outstanding n H = 0 := by
        rcases ih with ⟨-, h0⟩ | ⟨hg, hd, h0⟩
        · exact h0
        · rcases ho rfl with hn | hn | hn
          · exact absurd hg hn
          · exact absurd hn hd
          · omega
      exact .inr ⟨by simp, by simp [Drained, since_snoc], by simp [step, hzero]⟩
    | use =>
      rcases ih with ⟨hs, h0⟩ | ⟨hg, hd, h0⟩
      · exact .inl ⟨by simpa [Drained, since_snoc] using hs, by simp [step, h0]⟩
      · refine .inr ⟨by simp [hg], by simpa [Drained, since_snoc] using hd, ?_⟩
        simp only [step, h0]
        omega
    | drain => exact .inl ⟨.inr (by simp [Drained, since_snoc]), rfl⟩

/-- **The credit stays within a batch** exactly when every grant is made with
the one before spent. -/
theorem le_iff (n : Nat) (H : List Op) :
    (∀ pre, pre <+: H → outstanding n pre ≤ n) ↔ Always (fun pre o => o = .grant → Spent n pre) H := by
  refine ⟨fun h => ?_, fun h pre hp => ?_⟩
  · induction H using List.reverseRecOn with
    | nil => exact always_nil
    | append_singleton H o ih =>
      have hH := ih fun pre hp => h pre (hp.trans (List.prefix_append H [o]))
      refine always_snoc.mpr ⟨hH, ?_⟩
      rintro rfl
      have hle := h _ List.prefix_rfl
      rw [outstanding_snoc, step] at hle
      rcases outstanding_eq hH with ⟨hs, -⟩ | ⟨-, -, h0⟩
      · exact hs.elim .inl fun hd => .inr (.inl hd)
      · exact .inr (.inr (by omega))
  · rcases outstanding_eq (h.of_prefix hp) with ⟨-, h0⟩ | ⟨-, -, h0⟩ <;> omega

end Credit
