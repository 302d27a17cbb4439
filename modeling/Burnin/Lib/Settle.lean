/-
At-least-once delivery: a store that pushes its messages over links and removes
one when the receiver of it has settled it.

A link has a window: the store pushes while fewer than `credit` of what it
pushed over the link is unsettled. What is unsettled when the store loses the
link is ready again, but for what the store has had to take back too often: that
is removed. The receiver does not learn of the loss at once, so it may still
hand over what it has prefetched.

When nothing is left to hand over, a message that was not handed over is one of
those removed (`Accounted.card_handed`), and every loss of a link costs at most
`credit` messages that are handed over once more (`Accounted.again`).
-/
import Mathlib.Data.Finset.Card
import Burnin.Lib.Held
import Burnin.Lib.Machine

namespace Settle

variable {α β : Type*}

/-- A link: what waits at its receiver, what the receiver has handed over and
the store has not settled, and whether the store has lost it. -/
structure Link (α : Type*) where
  prefetched : List α := []
  unsettled : List α := []
  lost : Bool := false
  deriving DecidableEq

namespace Link

def outstanding (l : Link α) : Nat := l.prefetched.length + l.unsettled.length

/-- The receiver hands over `a`, the first that it has prefetched. -/
def take (l : Link α) (a : α) : Link α :=
  { l with
    prefetched := l.prefetched.tail
    unsettled := if l.lost then l.unsettled else l.unsettled ++ [a] }

/-- What waits at the receiver of a live link. -/
def waiting (l : Link α) : List α := if l.lost then [] else l.prefetched

/-- What waits at the receiver of a lost link, and is ready again at the store. -/
def stale (l : Link α) : List α := if l.lost then l.prefetched else []

end Link

structure Store (α : Type*) where
  ready : List α := []
  links : List (Link α) := []
  -- No step depends on what follows.
  stored : List α := []
  settled : List α := []
  removed : List α := []
  handed : List α := []
  /-- What was handed over to no avail, and is handed over again. -/
  again : List α := []
  losses : Nat := 0

inductive Act (α : Type*) where
  | put (a : α)
  | attach
  | push (k : Nat) (a : α)
  | hand (k : Nat) (a : α)
  | settle (k : Nat) (a : α)
  /-- The link is lost, and the messages `removed` are not to be pushed again. -/
  | lose (k : Nat) (removed : List α)

namespace Store

def waiting (s : Store α) : List α := s.links.flatMap Link.waiting

def unsettled (s : Store α) : List α := s.links.flatMap Link.unsettled

def stale (s : Store α) : List α := s.links.flatMap Link.stale

/-- Nothing is left to hand over. -/
def Rest (s : Store α) : Prop := s.ready = [] ∧ s.waiting = []

/-- Link `k` takes the state `l`. -/
def setLink (s : Store α) (k : Nat) (l : Link α) : Store α := { s with links := s.links.set k l }

/-- An action at link `k`. -/
def onLink (s : Store α) (k : Nat) (f : Link α → Option (Store α)) : Option (Store α) :=
  s.links[k]?.bind f

/-- An action at link `k` that takes a live link. -/
def onLive (s : Store α) (k : Nat) (f : Link α → Option (Store α)) : Option (Store α) :=
  s.onLink k fun l => if l.lost then .none else f l

variable [DecidableEq α]

def step (credit : Nat) (s : Store α) : Act α → Option (Store α)
  | .put a => .some { s with ready := s.ready ++ [a], stored := s.stored ++ [a] }
  | .attach => .some { s with links := s.links ++ [{}] }
  | .push k a => s.onLive k fun l =>
    if a ∈ s.ready ∧ l.outstanding < credit then
      .some { s.setLink k { l with prefetched := l.prefetched ++ [a] } with ready := s.ready.erase a }
    else .none
  | .hand k a => s.onLink k fun l =>
    if l.prefetched.head? = .some a then
      .some { s.setLink k (l.take a) with
        handed := s.handed ++ [a], again := if l.lost then s.again ++ [a] else s.again }
    else .none
  | .settle k a => s.onLive k fun l =>
    if a ∈ l.unsettled then
      .some { s.setLink k { l with unsettled := l.unsettled.erase a } with settled := s.settled ++ [a] }
    else .none
  | .lose k removed => s.onLive k fun l =>
    if removed.Subperm (l.prefetched ++ l.unsettled) then
      .some { s.setLink k { l with unsettled := [], lost := true } with
        ready := s.ready ++ (l.prefetched ++ l.unsettled).diff removed
        removed := s.removed ++ removed
        again := s.again ++ l.unsettled
        losses := s.losses + 1 }
    else .none

omit [DecidableEq α] in
theorem onLink_eq_some {s s' : Store α} {k : Nat} {f : Link α → Option (Store α)} :
    s.onLink k f = .some s' ↔ ∃ l, s.links[k]? = .some l ∧ f l = .some s' := Option.bind_eq_some_iff

omit [DecidableEq α] in
theorem onLive_eq_some {s s' : Store α} {k : Nat} {f : Link α → Option (Store α)} :
    s.onLive k f = .some s' ↔ ∃ l, s.links[k]? = .some l ∧ l.lost = false ∧ f l = .some s' := by
  simp only [onLive, onLink_eq_some, Option.ite_none_left_eq_some, Bool.not_eq_true]

end Store

/-- The message that an action stores. -/
def Act.put? : Act α → Option α
  | .put a => .some a
  | _ => .none

/-- The message that an action hands over. -/
def Act.hand? : Act α → Option α
  | .hand _ a => .some a
  | _ => .none

/-- The messages that an action removes. -/
def Act.removed : Act α → List α
  | .lose _ removed => removed
  | _ => []

/-- What an action adds to the messages stored, handed over and removed. -/
theorem Store.step_recorded [DecidableEq α] {credit : Nat} {s s' : Store α} {a : Act α}
    (hs : s.step credit a = .some s') :
    s'.stored = s.stored ++ a.put?.toList ∧ s'.handed = s.handed ++ a.hand?.toList ∧
      s'.removed = s.removed ++ a.removed := by
  have hkeep {s' : Store α} (h1 : s'.stored = s.stored) (h2 : s'.handed = s.handed)
      (h3 : s'.removed = s.removed) :
      s'.stored = s.stored ++ [] ∧ s'.handed = s.handed ++ [] ∧ s'.removed = s.removed ++ [] := by
    simp [h1, h2, h3]
  cases a with
  | put a =>
    obtain rfl := Option.some.inj hs
    exact ⟨rfl, (List.append_nil _).symm, (List.append_nil _).symm⟩
  | attach =>
    obtain rfl := Option.some.inj hs
    exact hkeep rfl rfl rfl
  | push k a =>
    obtain ⟨l, -, -, hs⟩ := Store.onLive_eq_some.mp hs
    obtain rfl := Option.some.inj (Option.ite_none_right_eq_some.mp hs).2
    exact hkeep rfl rfl rfl
  | hand k a =>
    obtain ⟨l, -, hs⟩ := Store.onLink_eq_some.mp hs
    obtain rfl := Option.some.inj (Option.ite_none_right_eq_some.mp hs).2
    exact ⟨(List.append_nil _).symm, rfl, (List.append_nil _).symm⟩
  | settle k a =>
    obtain ⟨l, -, -, hs⟩ := Store.onLive_eq_some.mp hs
    obtain rfl := Option.some.inj (Option.ite_none_right_eq_some.mp hs).2
    exact hkeep rfl rfl rfl
  | lose k removed =>
    obtain ⟨l, -, -, hs⟩ := Store.onLive_eq_some.mp hs
    obtain rfl := Option.some.inj (Option.ite_none_right_eq_some.mp hs).2
    exact ⟨(List.append_nil _).symm, (List.append_nil _).symm, rfl⟩

/-! ## The account -/

theorem flatMap_set_perm {l : List β} {k : Nat} {b : β} (hk : l[k]? = .some b)
    (f : β → List α) (b' : β) : ((l.set k b').flatMap f ++ f b).Perm (l.flatMap f ++ f b') := by
  simpa using (Held.set_perm hk b').flatMap_right f

theorem count_flatMap_set [DecidableEq α] {l : List β} {k : Nat} {b : β} (hk : l[k]? = .some b)
    (f : β → List α) (b' : β) (a : α) :
    ((l.set k b').flatMap f).count a + (f b).count a = (l.flatMap f).count a + (f b').count a := by
  simpa only [List.count_append] using (flatMap_set_perm hk f b').count_eq a

theorem length_flatMap_set {l : List β} {k : Nat} {b : β} (hk : l[k]? = .some b)
    (f : β → List α) (b' : β) :
    ((l.set k b').flatMap f).length + (f b).length = (l.flatMap f).length + (f b').length := by
  simpa only [List.length_append] using (flatMap_set_perm hk f b').length_eq

/-- Where every message of a store is, and what was handed over. -/
structure Accounted [DecidableEq α] (credit : Nat) (s : Store α) : Prop where
  stored : ∀ a, s.stored.count a =
    s.ready.count a + s.waiting.count a + s.unsettled.count a + s.settled.count a + s.removed.count a
  handed : ∀ a, s.handed.count a = s.unsettled.count a + s.settled.count a + s.again.count a
  again : s.again.length + s.stale.length ≤ credit * s.losses
  window : ∀ l ∈ s.links, l.outstanding ≤ credit
  known : ∀ a, a ∈ s.again ∨ a ∈ s.stale → a ∈ s.stored

namespace Accounted

variable [DecidableEq α] {credit : Nat} {s s' : Store α}

theorem mem_stored (h : Accounted credit s) {l : Link α} (hl : l ∈ s.links) {a : α}
    (ha : a ∈ l.prefetched ∨ a ∈ l.unsettled) : a ∈ s.stored := by
  rcases ha with ha | ha
  · cases hlost : l.lost with
    | false =>
      have hw : a ∈ s.waiting := List.mem_flatMap.mpr ⟨l, hl, by simpa [Link.waiting, hlost] using ha⟩
      have := h.stored a
      have := List.count_pos_iff.mpr hw
      exact List.count_pos_iff.mp (by omega)
    | true =>
      exact h.known a (.inr (List.mem_flatMap.mpr ⟨l, hl, by simpa [Link.stale, hlost] using ha⟩))
  · have hu : a ∈ s.unsettled := List.mem_flatMap.mpr ⟨l, hl, ha⟩
    have := h.stored a
    have := List.count_pos_iff.mpr hu
    exact List.count_pos_iff.mp (by omega)

/-- When one link takes another state, the account has to balance there. -/
theorem of_link (h : Accounted credit s) {k : Nat} {l l' : Link α} (hk : s.links[k]? = .some l)
    (hlinks : s'.links = s.links.set k l') (hall : s'.stored = s.stored)
    (hstored : ∀ a, s.ready.count a + l.waiting.count a + l.unsettled.count a + s.settled.count a +
      s.removed.count a =
      s'.ready.count a + l'.waiting.count a + l'.unsettled.count a + s'.settled.count a +
        s'.removed.count a)
    (hhanded : ∀ a, s'.handed.count a + (l.unsettled.count a + s.settled.count a + s.again.count a) =
      s.handed.count a + (l'.unsettled.count a + s'.settled.count a + s'.again.count a))
    (hagain : s'.again.length + l'.stale.length + credit * s.losses ≤
      s.again.length + l.stale.length + credit * s'.losses)
    (hwindow : l'.outstanding ≤ credit)
    (hknown : ∀ a, a ∈ s'.again ∨ a ∈ l'.stale → a ∈ s.again ∨ a ∈ l.prefetched ∨ a ∈ l.unsettled) :
    Accounted credit s' := by
  have hunsettled (a : α) := count_flatMap_set hk Link.unsettled l' a
  refine ⟨fun a => ?_, fun a => ?_, ?_, fun m hm => ?_, fun a ha => ?_⟩
  · have hwaiting := count_flatMap_set hk Link.waiting l' a
    have := h.stored a
    have := hunsettled a
    have := hstored a
    simp only [Store.waiting, Store.unsettled, hlinks, hall] at *
    omega
  · have := h.handed a
    have := hunsettled a
    have := hhanded a
    simp only [Store.unsettled, hlinks] at *
    omega
  · have hstale := length_flatMap_set hk Link.stale l'
    have := h.again
    simp only [Store.stale, hlinks] at *
    omega
  · rw [hlinks] at hm
    rcases List.mem_or_eq_of_mem_set hm with hm | rfl
    · exact h.window m hm
    · exact hwindow
  · have hl := List.mem_of_getElem? hk
    have hnew (ha : a ∈ s'.again ∨ a ∈ l'.stale) : a ∈ s.stored :=
      (hknown a ha).elim (fun ha => h.known a (.inl ha)) (h.mem_stored hl)
    rw [hall]
    rcases ha with ha | ha
    · exact hnew (.inl ha)
    · obtain ⟨m, hm, ham⟩ := List.mem_flatMap.mp ha
      rw [hlinks] at hm
      rcases List.mem_or_eq_of_mem_set hm with hm | rfl
      · exact h.known a (.inr (List.mem_flatMap.mpr ⟨m, hm, ham⟩))
      · exact hnew (.inr ham)

theorem put (h : Accounted credit s) (a : α) :
    Accounted credit { s with ready := s.ready ++ [a], stored := s.stored ++ [a] } where
  stored := fun b => by
    have hb := h.stored b
    simp only [Store.waiting, Store.unsettled, List.count_append] at hb ⊢
    omega
  handed := h.handed
  again := h.again
  window := h.window
  known := fun b hb => List.mem_append_left _ (h.known b hb)

theorem attach (h : Accounted credit s) : Accounted credit { s with links := s.links ++ [{}] } where
  stored := fun b => by simpa [Store.waiting, Store.unsettled, Link.waiting] using h.stored b
  handed := fun b => by simpa [Store.unsettled] using h.handed b
  again := by simpa [Store.stale, Link.stale] using h.again
  window := fun l hl => by
    rcases List.mem_append.mp hl with hl | hl
    · exact h.window l hl
    · obtain rfl := List.mem_singleton.mp hl
      exact Nat.zero_le _
  known := fun b hb => h.known b (by simpa [Store.stale, Link.stale] using hb)

theorem push (h : Accounted credit s) {k : Nat} {l : Link α} {a : α} (hk : s.links[k]? = .some l)
    (hlive : l.lost = false) (ha : a ∈ s.ready) (hlt : l.outstanding < credit) :
    Accounted credit
      { s.setLink k { l with prefetched := l.prefetched ++ [a] } with ready := s.ready.erase a } := by
  refine h.of_link hk rfl rfl (fun b => ?_) (fun b => rfl) ?_ ?_ fun b hb => ?_
  · have hb := (List.perm_cons_erase ha).count_eq b
    simp only [Link.waiting, hlive, Store.setLink, List.count_append, List.count_cons, List.count_nil,
      Bool.false_eq_true, if_false] at hb ⊢
    omega
  · simp [Link.stale, hlive, Store.setLink]
  · simp only [Link.outstanding, List.length_append, List.length_singleton] at hlt ⊢
    omega
  · exact .inl (by simpa [Store.setLink, Link.stale, hlive] using hb)

theorem hand (h : Accounted credit s) {k : Nat} {l : Link α} {a : α} {rest : List α}
    (hk : s.links[k]? = .some l) (hlive : l.lost = false) (hpre : l.prefetched = a :: rest) :
    Accounted credit { s.setLink k (l.take a) with handed := s.handed ++ [a] } := by
  refine h.of_link hk rfl rfl (fun b => ?_) (fun b => ?_) ?_ ?_ fun b hb => ?_
  · simp only [Link.take, Link.waiting, Store.setLink, hpre, hlive, List.tail_cons, List.count_cons,
      List.count_append, List.count_nil, Bool.false_eq_true, if_false]
    omega
  · simp only [Link.take, Store.setLink, hlive, List.count_append, Bool.false_eq_true, if_false]
    omega
  · simp [Link.take, Link.stale, Store.setLink, hlive]
  · have hl := h.window l (List.mem_of_getElem? hk)
    simp only [Link.take, Link.outstanding, hpre, hlive, List.tail_cons, List.length_cons,
      List.length_append, List.length_nil, Bool.false_eq_true, if_false] at hl ⊢
    omega
  · exact .inl (by simpa [Store.setLink, Link.take, Link.stale, hlive] using hb)

theorem hand_lost (h : Accounted credit s) {k : Nat} {l : Link α} {a : α} {rest : List α}
    (hk : s.links[k]? = .some l) (hlost : l.lost = true) (hpre : l.prefetched = a :: rest) :
    Accounted credit
      { s.setLink k (l.take a) with handed := s.handed ++ [a], again := s.again ++ [a] } := by
  refine h.of_link hk rfl rfl (fun b => ?_) (fun b => ?_) ?_ ?_ fun b hb => ?_
  · simp only [Link.take, Link.waiting, Store.setLink, hlost, if_true]
  · simp only [Link.take, Store.setLink, hlost, List.count_append, if_true]
    omega
  · simp only [Link.take, Link.stale, Store.setLink, hpre, hlost, List.tail_cons, List.length_cons,
      List.length_append, List.length_nil, if_true]
    omega
  · have hl := h.window l (List.mem_of_getElem? hk)
    simp only [Link.take, Link.outstanding, hpre, hlost, List.tail_cons, List.length_cons,
      if_true] at hl ⊢
    omega
  · simp only [Link.take, Link.stale, hpre, hlost, List.tail_cons, List.mem_append, List.mem_singleton,
      if_true] at hb
    rw [hpre, List.mem_cons]
    tauto

theorem settle (h : Accounted credit s) {k : Nat} {l : Link α} {a : α} (hk : s.links[k]? = .some l)
    (hlive : l.lost = false) (ha : a ∈ l.unsettled) :
    Accounted credit
      { s.setLink k { l with unsettled := l.unsettled.erase a } with settled := s.settled ++ [a] } := by
  have hcount (b : α) := (List.perm_cons_erase ha).count_eq b
  refine h.of_link hk rfl rfl (fun b => ?_) (fun b => ?_) ?_ ?_ fun b hb => ?_
  · have hb := hcount b
    simp only [Link.waiting, hlive, Store.setLink, List.count_append, List.count_cons,
      List.count_nil] at hb ⊢
    omega
  · have hb := hcount b
    simp only [Store.setLink, List.count_append, List.count_cons, List.count_nil] at hb ⊢
    omega
  · simp [Link.stale, hlive, Store.setLink]
  · have hl := h.window l (List.mem_of_getElem? hk)
    have := List.length_erase_le (a := a) (l := l.unsettled)
    simp only [Link.outstanding] at hl ⊢
    omega
  · exact .inl (by simpa [Store.setLink, Link.stale, hlive] using hb)

theorem lose (h : Accounted credit s) {k : Nat} {l : Link α} (hk : s.links[k]? = .some l)
    (hlive : l.lost = false) {removed : List α}
    (hremoved : removed.Subperm (l.prefetched ++ l.unsettled)) :
    Accounted credit
      { s.setLink k { l with unsettled := [], lost := true } with
        ready := s.ready ++ (l.prefetched ++ l.unsettled).diff removed
        removed := s.removed ++ removed
        again := s.again ++ l.unsettled
        losses := s.losses + 1 } := by
  have hl := h.window l (List.mem_of_getElem? hk)
  refine h.of_link hk rfl rfl (fun b => ?_) (fun b => ?_) ?_ ?_ fun b hb => ?_
  · have hle := hremoved.count_le b
    simp only [Link.waiting, hlive, Store.setLink, List.count_append, List.count_diff, List.count_nil,
      Bool.false_eq_true, if_false, if_true] at hle ⊢
    omega
  · simp only [Store.setLink, List.count_append, List.count_nil]
    omega
  · -- What the receiver has handed over or prefetched is a window at most.
    simp only [Link.outstanding, Link.stale, hlive, List.length_append, List.length_nil,
      Bool.false_eq_true, if_false, if_true, Nat.mul_succ] at hl ⊢
    omega
  · simp only [Link.outstanding, List.length_nil] at hl ⊢
    omega
  · simp only [Link.stale, List.mem_append, if_true] at hb
    tauto

/-- **A step keeps the account.** -/
theorem step (h : Accounted credit s) {a : Act α} (hs : s.step credit a = .some s') :
    Accounted credit s' := by
  cases a with
  | put a =>
    obtain rfl := Option.some.inj hs
    exact h.put a
  | attach =>
    obtain rfl := Option.some.inj hs
    exact h.attach
  | push k a =>
    obtain ⟨l, hk, hlive, hs⟩ := Store.onLive_eq_some.mp hs
    obtain ⟨⟨ha, hlt⟩, hs⟩ := Option.ite_none_right_eq_some.mp hs
    obtain rfl := Option.some.inj hs
    exact h.push hk hlive ha hlt
  | hand k a =>
    obtain ⟨l, hk, hs⟩ := Store.onLink_eq_some.mp hs
    obtain ⟨hhead, hs⟩ := Option.ite_none_right_eq_some.mp hs
    obtain rfl := Option.some.inj hs
    have hpre := (List.cons_head?_tail hhead).symm
    cases hlost : l.lost with
    | false => exact h.hand hk hlost hpre
    | true => exact h.hand_lost hk hlost hpre
  | settle k a =>
    obtain ⟨l, hk, hlive, hs⟩ := Store.onLive_eq_some.mp hs
    obtain ⟨ha, hs⟩ := Option.ite_none_right_eq_some.mp hs
    obtain rfl := Option.some.inj hs
    exact h.settle hk hlive ha
  | lose k removed =>
    obtain ⟨l, hk, hlive, hs⟩ := Store.onLive_eq_some.mp hs
    obtain ⟨hremoved, hs⟩ := Option.ite_none_right_eq_some.mp hs
    obtain rfl := Option.some.inj hs
    exact h.lose hk hlive hremoved

theorem exec (h : Accounted credit s) {H : List (Act α)}
    (hs : Machine.exec (Store.step credit) s H = .some s') : Accounted credit s' :=
  Machine.invariant h (fun _ _ _ h hs => h.step hs) hs

/-- Where a message is that was handed over, when nothing is left. -/
theorem handed_add_removed (h : Accounted credit s) (hr : s.Rest) (a : α) :
    s.handed.count a + s.removed.count a = s.stored.count a + s.again.count a := by
  have h1 := h.stored a
  have h2 := h.handed a
  rw [hr.1, hr.2, List.count_nil] at h1
  omega

theorem handed_subset (h : Accounted credit s) (hr : s.Rest) : s.handed ⊆ s.stored := by
  intro a ha
  by_cases hagain : a ∈ s.again
  · exact h.known a (.inl hagain)
  · have hsum := h.handed_add_removed hr a
    rw [List.count_eq_zero.mpr hagain] at hsum
    have := List.count_pos_iff.mpr ha
    exact List.count_pos_iff.mp (by omega)

/-- What was never handed over is what was removed before it could be. -/
theorem filter_notMem_perm (h : Accounted credit s) (hr : s.Rest) :
    (s.removed.filter (· ∉ s.handed)).Perm (s.stored.filter (· ∉ s.handed)) := by
  refine List.perm_iff_count.mpr fun a => ?_
  by_cases ha : a ∈ s.handed
  · rw [List.count_eq_zero_of_not_mem (by simp [ha]), List.count_eq_zero_of_not_mem (by simp [ha])]
  · have hsum := h.handed_add_removed hr a
    have hstored := h.stored a
    rw [List.count_eq_zero.mpr ha] at hsum
    rw [List.count_filter (by simpa using ha), List.count_filter (by simpa using ha)]
    omega

/-- **At least once**: when nothing is left, each message stored was handed over
at least once, or was removed before it could be. -/
theorem card_handed (h : Accounted credit s) (hr : s.Rest) (hn : s.stored.Nodup) :
    s.handed.toFinset.card + (s.removed.filter (· ∉ s.handed)).length = s.stored.length := by
  have hset : s.handed.toFinset = (s.stored.filter (· ∈ s.handed)).toFinset := by
    ext a
    rw [List.mem_toFinset, List.mem_toFinset, List.mem_filter, decide_eq_true_eq]
    exact ⟨fun ha => ⟨h.handed_subset hr ha, ha⟩, fun ha => ha.2⟩
  rw [hset, List.toFinset_card_of_nodup (hn.filter _), (h.filter_notMem_perm hr).length_eq,
    ← List.length_append]
  refine (List.Perm.length_eq ?_)
  simpa using List.filter_append_perm (fun a => decide (a ∈ s.handed)) s.stored

/-- **How often more than once.** -/
theorem length_handed_le (h : Accounted credit s) (hr : s.Rest) (hn : s.stored.Nodup) :
    s.handed.length ≤ s.handed.toFinset.card + s.again.length := by
  have hcard := h.card_handed hr hn
  have hperm : (s.handed ++ s.removed).Perm (s.stored ++ s.again) := by
    refine List.perm_iff_count.mpr fun a => ?_
    rw [List.count_append, List.count_append]
    exact h.handed_add_removed hr a
  have hlen := hperm.length_eq
  have hdropped : (s.removed.filter (· ∉ s.handed)).length ≤ s.removed.length :=
    List.length_filter_le _ _
  rw [List.length_append, List.length_append] at hlen
  omega

end Accounted

/-! ## From an idle store on -/

namespace Store

/-- Everything stored is settled, and no receiver has anything left. -/
def Idle (s : Store α) : Prop := s.ready = [] ∧ ∀ l ∈ s.links, l.prefetched = [] ∧ l.unsettled = []

/-- The store with nothing recorded yet. -/
def resume (s : Store α) : Store α := { ready := s.ready, links := s.links }

/-- What was recorded before `s`, put first. -/
def prepend (b s : Store α) : Store α :=
  { s with
    stored := b.stored ++ s.stored
    settled := b.settled ++ s.settled
    removed := b.removed ++ s.removed
    handed := b.handed ++ s.handed
    again := b.again ++ s.again
    losses := b.losses + s.losses }

theorem prepend_resume (s : Store α) : s.prepend s.resume = s := by simp [prepend, resume]

variable [DecidableEq α]

omit [DecidableEq α] in
theorem onLink_prepend {b s : Store α} {k : Nat} {f g : Link α → Option (Store α)}
    (h : ∀ l, g l = (f l).map b.prepend) : (b.prepend s).onLink k g = (s.onLink k f).map b.prepend := by
  rw [onLink, onLink, Option.map_bind, funext h]
  rfl

omit [DecidableEq α] in
theorem onLive_prepend {b s : Store α} {k : Nat} {f g : Link α → Option (Store α)}
    (h : ∀ l, g l = (f l).map b.prepend) : (b.prepend s).onLive k g = (s.onLive k f).map b.prepend := by
  refine onLink_prepend fun l => ?_
  split
  · rfl
  · exact h l

theorem step_prepend (credit : Nat) (b s : Store α) (a : Act α) :
    (b.prepend s).step credit a = (s.step credit a).map b.prepend := by
  cases a with
  | put a => simp [step, prepend]
  | attach => simp [step, prepend]
  | push k a =>
    refine onLive_prepend fun l => ?_
    rw [apply_ite (Option.map b.prepend)]
    rfl
  | hand k a =>
    refine onLink_prepend fun l => ?_
    rw [apply_ite (Option.map b.prepend)]
    cases hl : l.lost <;> simp [prepend, setLink]
  | settle k a =>
    refine onLive_prepend fun l => ?_
    rw [apply_ite (Option.map b.prepend)]
    simp [prepend, setLink]
  | lose k removed =>
    refine onLive_prepend fun l => ?_
    rw [apply_ite (Option.map b.prepend)]
    simp [prepend, setLink, Nat.add_assoc]

theorem exec_prepend (credit : Nat) (b s : Store α) (H : List (Act α)) :
    Machine.exec (step credit) (b.prepend s) H = (Machine.exec (step credit) s H).map b.prepend := by
  induction H generalizing s with
  | nil => rfl
  | cons a H ih =>
    rw [Machine.exec_cons, Machine.exec_cons, step_prepend, Option.map_bind, Option.bind_map]
    exact congrArg _ (funext ih)

/-- **A run from a store that is idle** is the run of a store with nothing
recorded, after what was recorded before. -/
theorem exec_idle {credit : Nat} {s s' : Store α} (hi : s.Idle) {H : List (Act α)}
    (hs : Machine.exec (step credit) s H = .some s') : ∃ r, Accounted credit r ∧ s' = s.prepend r := by
  have hresume : Accounted credit s.resume := by
    have hnil {f : Link α → List α} (hf : ∀ l ∈ s.links, f l = []) : s.links.flatMap f = [] :=
      List.flatMap_eq_nil_iff.mpr hf
    have hwaiting : s.resume.waiting = [] := hnil fun l hl => by simp [Link.waiting, (hi.2 l hl).1]
    have hunsettled : s.resume.unsettled = [] := hnil fun l hl => (hi.2 l hl).2
    have hstale : s.resume.stale = [] := hnil fun l hl => by simp [Link.stale, (hi.2 l hl).1]
    refine ⟨fun a => ?_, fun a => ?_, ?_, fun l hl => ?_, fun a ha => ?_⟩
    · rw [hwaiting, hunsettled]
      simp [resume, hi.1]
    · rw [hunsettled]
      rfl
    · rw [hstale]
      exact Nat.zero_le _
    · obtain ⟨h1, h2⟩ := hi.2 l hl
      simp [Link.outstanding, h1, h2]
    · rw [hstale] at ha
      exact ha.elim id id
  rw [← s.prepend_resume, exec_prepend, Option.map_eq_some_iff] at hs
  obtain ⟨r, hr, rfl⟩ := hs
  exact ⟨r, hresume.exec hr, rfl⟩

end Store
end Settle
