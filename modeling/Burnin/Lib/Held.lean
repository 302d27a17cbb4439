/-
Things held by the members of a list: each member holds at most one, as a
function of its state says. When one member changes its state, the held things
change by what it lets go and what it takes (`held_set`).

The last part is a ledger of things that are taken, one after the other, and
given back. They are numbered in the order in which they are taken, and each is
given back or still held by its taker (`Ledger`).
-/
import Mathlib.Algebra.BigOperators.Group.List.Basic
import Mathlib.Algebra.Ring.Nat
import Mathlib.Data.List.Perm.Basic
import Mathlib.Logic.Function.Basic

namespace Held

variable {α β γ : Type*}

/-- What the members of `l` hold. -/
def held (f : α → Option β) (l : List α) : List β := l.filterMap f

theorem mem_held {f : α → Option β} {l : List α} {b : β} :
    b ∈ held f l ↔ ∃ (k : Nat) (a : α), l[k]? = .some a ∧ f a = .some b := by
  rw [held, List.mem_filterMap]
  constructor
  · rintro ⟨a, ha, hb⟩
    obtain ⟨k, hk⟩ := List.mem_iff_getElem?.mp ha
    exact ⟨k, a, hk, hb⟩
  · rintro ⟨k, a, hk, hb⟩
    exact ⟨a, List.mem_of_getElem? hk, hb⟩

theorem getElem?_set_bind {l : List α} {k : Nat} {a : α} (hk : l[k]? = .some a) (f : α → Option β)
    (a' : α) (j : Nat) : ((l.set k a')[j]?).bind f = if j = k then f a' else (l[j]?).bind f := by
  by_cases hj : j = k
  · subst hj
    rw [List.getElem?_set_self (List.getElem?_eq_some_iff.mp hk).1, if_pos rfl, Option.bind_some]
  · rw [List.getElem?_set_ne (Ne.symm hj), if_neg hj]

theorem held_congr {f g : α → Option β} {l : List α} (h : ∀ a ∈ l, f a = g a) : held f l = held g l :=
  List.filterMap_congr h

theorem held_eq_nil {f : α → Option β} {l : List α} (h : ∀ a ∈ l, f a = .none) : held f l = [] :=
  List.filterMap_eq_nil_iff.mpr h

theorem set_perm {l : List α} {k : Nat} {a : α} (hk : l[k]? = .some a) (a' : α) :
    (l.set k a' ++ [a]).Perm (l ++ [a']) := by
  obtain ⟨hlt, rfl⟩ := List.getElem?_eq_some_iff.mp hk
  have hl : l = l.take k ++ l[k] :: l.drop (k + 1) := by
    rw [List.getElem_cons_drop, List.take_append_drop]
  rw [List.set_eq_take_append_cons_drop, if_pos hlt]
  conv_rhs => rw [hl]
  simp only [List.append_assoc, List.cons_append]
  exact List.Perm.append_left _ (((List.perm_append_singleton _ _).cons a').trans
    ((List.Perm.swap _ _ _).trans ((List.perm_append_singleton _ _).symm.cons _)))

theorem held_set (f : α → Option β) {l : List α} {k : Nat} {a : α} (hk : l[k]? = .some a) (a' : α) :
    (held f (l.set k a') ++ (f a).toList).Perm (held f l ++ (f a').toList) := by
  have hone (x : α) : [x].filterMap f = (f x).toList := by
    cases hx : f x <;> simp [hx]
  simpa only [held, List.filterMap_append, hone] using (set_perm hk a').filterMap f

theorem held_acquire {f : α → Option β} {l : List α} {k : Nat} {a a' : α} {b : β} (hk : l[k]? = .some a)
    (ha : f a = .none) (ha' : f a' = .some b) : (held f (l.set k a')).Perm (held f l ++ [b]) := by
  simpa [ha, ha'] using held_set f hk a'

theorem held_release [DecidableEq β] {f : α → Option β} {l : List α} {k : Nat} {a a' : α} {b : β}
    (hk : l[k]? = .some a) (ha : f a = .some b) (ha' : f a' = .none) :
    (held f (l.set k a')).Perm ((held f l).erase b) := by
  have h : (held f (l.set k a') ++ [b]).Perm (held f l) := by simpa [ha, ha'] using held_set f hk a'
  have hcons : (b :: held f (l.set k a')).Perm (held f l) :=
    (List.perm_append_singleton _ _).symm.trans h
  simpa using hcons.erase b

theorem held_keep {f : α → Option β} {l : List α} {k : Nat} {a a' : α} (hk : l[k]? = .some a)
    (ha : f a' = f a) : (held f (l.set k a')).Perm (held f l) := by
  have h := held_set f hk a'
  rw [ha] at h
  exact (List.perm_append_right_iff _).mp h

/-- When `owner` finds the place of its holder from a held thing, no two of them
have one owner. -/
theorem nodup_owner {f : α → Option β} {owner : β → γ} (place : Nat → γ)
    (hplace : place.Injective) {l : List α}
    (h : ∀ (k : Nat) (a : α), l[k]? = .some a → ∀ b, f a = .some b → owner b = place k) :
    ((held f l).map owner).Nodup := by
  induction l generalizing place with
  | nil => exact List.nodup_nil
  | cons a l ih =>
    have hl : ((held f l).map owner).Nodup :=
      ih (fun k => place (k + 1)) (fun _ _ hij => Nat.succ.inj (hplace hij)) fun k a' hk =>
        h (k + 1) a' (by simpa using hk)
    cases ha : f a with
    | none => simpa [held, List.filterMap_cons, ha] using hl
    | some b =>
      have hnot : owner b ∉ (held f l).map owner := by
        rw [h 0 a rfl b ha, List.mem_map]
        rintro ⟨b', hb', heq⟩
        obtain ⟨k, a', hk, hb'⟩ := mem_held.mp hb'
        rw [h (k + 1) a' (by simpa using hk) b' hb'] at heq
        exact absurd (hplace heq) (Nat.succ_ne_zero k)
      simpa [held, List.filterMap_cons, ha] using List.nodup_cons.mpr ⟨hnot, hl⟩

/-! ## Sums by key -/

theorem sum_ite_eq_key [DecidableEq γ] (P : Prop) [Decidable P] (c : γ) (n : Nat) {keys : List γ}
    (hn : keys.Nodup) :
    (keys.map fun key => if P ∧ c = key then n else 0).sum = if P ∧ c ∈ keys then n else 0 := by
  induction keys with
  | nil => simp
  | cons key keys ih =>
    obtain ⟨hnot, hn⟩ := List.nodup_cons.mp hn
    rw [List.map_cons, List.sum_cons, ih hn]
    by_cases hc : c = key
    · subst hc
      simp [hnot]
    · simp [hc]

/-- What the members with a key have, added up over keys. -/
theorem sum_filter_key [DecidableEq γ] (P : α → Prop) [DecidablePred P] (key : α → γ) (f : α → Nat)
    {keys : List γ} (hn : keys.Nodup) (l : List α) :
    (keys.map fun c => ((l.filter fun a => P a ∧ key a = c).map f).sum).sum =
      ((l.filter fun a => P a ∧ key a ∈ keys).map f).sum := by
  induction l with
  | nil => simp
  | cons a l ih =>
    have hcons (Q : α → Prop) [DecidablePred Q] :
        (((a :: l).filter fun a => Q a).map f).sum = (if Q a then f a else 0) +
          ((l.filter fun a => Q a).map f).sum := by
      by_cases hQ : Q a <;> simp [hQ]
    simp only [hcons]
    rw [List.sum_map_add, ih, sum_ite_eq_key (P a) (key a) (f a) hn]

/-! ## A ledger -/

variable {ι : Type*}

/-- `takers` has the taker of each thing, and `returned` what was given back. -/
structure Ledger (takers : List ι) (returned : List Nat) (holds : ι → Option Nat) : Prop where
  taker : ∀ o b, holds o = .some b → takers[b]? = .some o
  accounted : ∀ b o, takers[b]? = .some o → b ∈ returned ∨ holds o = .some b

/-- A member that held `before` holds `after`, when it has taken `taken` and
given back `back`. -/
inductive Hands : Option Nat → Option Nat → Option Nat → Option Nat → Prop
  | keep (held : Option Nat) : Hands .none .none held held
  | take (b : Nat) : Hands (.some b) .none .none (.some b)
  | giveBack (b : Nat) : Hands .none (.some b) (.some b) .none

namespace Ledger

variable {takers : List ι} {returned : List Nat} {holds : ι → Option Nat}

theorem empty : Ledger ([] : List ι) [] fun _ => .none :=
  ⟨fun _ _ h => (nomatch h), fun _ _ h => (nomatch h)⟩

theorem returned_append (h : Ledger takers returned holds) (bs : List Nat) :
    Ledger takers (returned ++ bs) holds :=
  ⟨h.taker, fun b o hb => (h.accounted b o hb).imp_left (List.mem_append_left bs)⟩

/-- Who holds nothing has given back all it took. -/
theorem mem_returned (h : Ledger takers returned holds) {o : ι} (ho : holds o = .none) {b : Nat}
    (hb : takers[b]? = .some o) : b ∈ returned :=
  (h.accounted b o hb).resolve_right fun hb' => nomatch ho.symm.trans hb'

/-- **One member's step.** What it takes has the next number. -/
theorem hand [DecidableEq ι] (h : Ledger takers returned holds) {o : ι} {taken back after : Option Nat}
    (hh : Hands taken back (holds o) after) (hfresh : ∀ b ∈ taken, b = takers.length) :
    Ledger (takers ++ (taken.map fun _ => o).toList) (returned ++ back.toList)
      (Function.update holds o after) := by
  generalize hb : holds o = before at hh
  cases hh with
  | keep =>
    rw [← hb, Function.update_eq_self]
    simpa using h
  | take b =>
    obtain rfl := hfresh b rfl
    refine ⟨fun o' b hb' => ?_, fun b o' hb' => ?_⟩
    · by_cases ho : o' = o
      · subst ho
        rw [Function.update_self] at hb'
        cases hb'
        simp
      · rw [Function.update_of_ne ho] at hb'
        have := h.taker o' b hb'
        rwa [List.getElem?_append_left (List.getElem?_eq_some_iff.mp this).1]
    · rw [List.getElem?_append] at hb'
      split at hb'
      case isTrue hlt =>
        refine (h.accounted b o' hb').imp (List.mem_append_left _) fun hb'' => ?_
        have ho : o' ≠ o := by
          rintro rfl
          exact nomatch hb.symm.trans hb''
        rwa [Function.update_of_ne ho]
      case isFalse hlt =>
        obtain ⟨hlt', rfl⟩ := List.getElem?_eq_some_iff.mp hb'
        simp only [Option.map_some, Option.toList_some, List.length_singleton] at hlt'
        have hlen : b = takers.length := by omega
        simp [hlen]
  | giveBack b₀ =>
    refine ⟨fun o' b hb' => ?_, fun b o' hb' => ?_⟩
    · by_cases ho : o' = o
      · subst ho
        simp at hb'
      · rw [Function.update_of_ne ho] at hb'
        simpa using h.taker o' b hb'
    · simp only [Option.map_none, Option.toList_none, List.append_nil] at hb'
      rcases h.accounted b o' hb' with hm | hm
      · exact .inl (List.mem_append_left _ hm)
      · by_cases ho : o' = o
        · subst ho
          obtain rfl := Option.some.inj (hb.symm.trans hm)
          simp
        · rw [Function.update_of_ne ho]
          exact .inr hm

end Ledger

end Held
