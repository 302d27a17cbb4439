/-
At-most-once publish and subscribe: a topic copies what reaches it to the
subscriptions that are up, and keeps nothing.

A message may vanish before it reaches the topic, and two of them may reach it
in either order. A subscription comes up some time after its link was asked for.
A copy is missed by a subscription that is not up, dropped by one that has no
room, and cut off by the loss of a link. No copy is made twice, so what a
subscription has not been handed is in exactly one other place (`Accounted`).
-/
import Mathlib.Data.List.Count
import Mathlib.Data.List.Nodup
import Mathlib.Data.List.Perm.Basic
import Mathlib.Data.List.TakeWhile
import Burnin.Lib.Machine

namespace FanOut

variable {α : Type*}

/-- Why a copy is not handed over. -/
inductive Cause where
  | absent
  | dropped
  | cut
  deriving DecidableEq, Repr

/-- The link of a subscription. -/
inductive Link where
  | down
  | asked
  | up
  deriving DecidableEq, Repr

structure Subscription (α : Type*) where
  link : Link := .down
  /-- The copies on the link and at its receiver, the next one first. -/
  waiting : List α := []
  -- No step depends on what follows.
  handed : List α := []
  missed : List (Cause × α) := []
  deriving DecidableEq

namespace Subscription

/-- A message that the topic publishes, for a subscription that is `full` or not. -/
def offer (s : Subscription α) (a : α) (full : Bool) : Subscription α :=
  if s.link = .up then
    if full then
      { s with missed := s.missed ++ [(.dropped, a)] }
    else { s with waiting := s.waiting ++ [a] }
  else { s with missed := s.missed ++ [(.absent, a)] }

/-- The link is lost, with all but the first `n` copies. -/
def lose (s : Subscription α) (n : Nat) : Subscription α :=
  { s with
    link := .down
    waiting := s.waiting.take n
    missed := s.missed ++ (s.waiting.drop n).map (Cause.cut, ·) }

/-- A new link is asked for, and gets nothing of the one before. -/
def ask (s : Subscription α) : Subscription α := { s.lose 0 with link := .asked }

/-- The link that was asked for is there. -/
def rise (s : Subscription α) : Subscription α := { s with link := .up }

/-- The receiver hands over the first copy, `a`. -/
def hand (s : Subscription α) (a : α) : Subscription α :=
  { s with waiting := s.waiting.tail, handed := s.handed ++ [a] }

/-- The copies that were not handed over. -/
def unhandled (s : Subscription α) : List α := s.waiting ++ s.missed.map Prod.snd

theorem handed_offer (s : Subscription α) (a : α) (full : Bool) :
    (s.offer a full).handed = s.handed := by
  unfold offer
  split_ifs <;> rfl

theorem unhandled_offer (s : Subscription α) (a : α) (full : Bool) :
    (s.offer a full).unhandled.Perm (a :: s.unhandled) := by
  have hmissed (cause : Cause) : (s.waiting ++ (s.missed ++ [(cause, a)]).map Prod.snd).Perm
      (a :: s.unhandled) := by
    rw [List.map_append, ← List.append_assoc]
    exact List.perm_append_singleton a s.unhandled
  unfold offer
  split_ifs
  · exact hmissed .dropped
  · exact ((List.perm_append_singleton a s.waiting).append_right _)
  · exact hmissed .absent

theorem unhandled_lose (s : Subscription α) (n : Nat) : (s.lose n).unhandled.Perm s.unhandled := by
  have hlose : (s.lose n).unhandled = s.waiting.take n ++
      (s.missed.map Prod.snd ++ s.waiting.drop n) := by
    rw [unhandled, lose, List.map_append, List.map_map]
    exact congrArg (fun l => s.waiting.take n ++ (s.missed.map Prod.snd ++ l)) (List.map_id _)
  have hs : s.unhandled = s.waiting.take n ++ (s.waiting.drop n ++ s.missed.map Prod.snd) := by
    rw [← List.append_assoc, List.take_append_drop, unhandled]
  rw [hlose, hs]
  exact List.perm_append_comm.append_left _

theorem unhandled_ask (s : Subscription α) : s.ask.unhandled.Perm s.unhandled := s.unhandled_lose 0

theorem unhandled_hand {s : Subscription α} {a : α} (h : s.waiting.head? = .some a) :
    s.unhandled = a :: (s.hand a).unhandled := by
  unfold unhandled hand
  rw [← List.cons_head?_tail h]
  rfl

end Subscription

inductive Act (α : Type*) where
  | send (a : α)
  | vanish (a : α)
  /-- `a` reaches the topic while the subscriptions `full` have no room. -/
  | publish (a : α) (full : List Nat)
  | ask (k : Nat)
  | up (k : Nat)
  | lose (k : Nat) (n : Nat)
  | hand (k : Nat) (a : α)
  deriving DecidableEq

namespace Act

def send? : Act α → Option α
  | .send a => .some a
  | _ => .none

def vanish? : Act α → Option α
  | .vanish a => .some a
  | _ => .none

/-- The message that an action publishes. -/
def publish? : Act α → Option α
  | .publish a _ => .some a
  | _ => .none

/-- The message that an action hands over to subscription `k`. -/
def handTo (k : Nat) : Act α → Option α
  | .hand k' a => if k' = k then .some a else .none
  | _ => .none

end Act

/-- What an action does to the subscription at `k`. -/
def Subscription.react (k : Nat) (s : Subscription α) : Act α → Subscription α
  | .publish a full => s.offer a (k ∈ full)
  | .ask k' => if k' = k then s.ask else s
  | .up k' => if k' = k then s.rise else s
  | .lose k' n => if k' = k then s.lose n else s
  | .hand k' a => if k' = k then s.hand a else s
  | .send _ | .vanish _ => s

theorem Subscription.handed_react (k : Nat) (s : Subscription α) (a : Act α) :
    (s.react k a).handed = s.handed ++ (a.handTo k).toList := by
  cases a with
  | publish a full => exact (s.handed_offer a _).trans (List.append_nil _).symm
  | ask k' | up k' | lose k' n =>
    dsimp only [react]
    split <;> exact (List.append_nil _).symm
  | hand k' a =>
    dsimp only [react, Act.handTo]
    split
    · rfl
    · exact (List.append_nil _).symm
  | send a | vanish a => exact (List.append_nil _).symm

structure Topic (α : Type*) where
  /-- What is under way to the topic. -/
  transit : List α := []
  subs : List (Subscription α)
  -- No step depends on what follows.
  sent : List α := []
  vanished : List α := []

namespace Topic

variable [DecidableEq α] {t t' : Topic α} {a : Act α}

def Enabled (t : Topic α) : Act α → Prop
  | .vanish a | .publish a _ => a ∈ t.transit
  | .up k => t.subs[k]?.map (·.link) = .some .asked
  | .hand k a => (t.subs[k]?.bind (·.waiting.head?)) = .some a
  | .send _ | .ask _ | .lose _ _ => True

instance : ∀ a, Decidable (t.Enabled a)
  | .vanish a | .publish a _ => inferInstanceAs (Decidable (a ∈ t.transit))
  | .up k => inferInstanceAs (Decidable (t.subs[k]?.map (·.link) = .some .asked))
  | .hand k a => inferInstanceAs (Decidable ((t.subs[k]?.bind (·.waiting.head?)) = .some a))
  | .send _ | .ask _ | .lose _ _ => inferInstanceAs (Decidable True)

/-- What is under way after an action. -/
def underway (t : Topic α) : Act α → List α
  | .send a => t.transit ++ [a]
  | .vanish a | .publish a _ => t.transit.erase a
  | .ask _ | .up _ | .lose _ _ | .hand _ _ => t.transit

def step (t : Topic α) (a : Act α) : Option (Topic α) :=
  if t.Enabled a then
    .some
      { transit := t.underway a
        subs := t.subs.mapIdx fun k s => s.react k a
        sent := t.sent ++ a.send?.toList
        vanished := t.vanished ++ a.vanish?.toList }
  else .none

theorem step_eq_some : t.step a = .some t' ↔ t.Enabled a ∧ t' =
    { transit := t.underway a
      subs := t.subs.mapIdx fun k s => s.react k a
      sent := t.sent ++ a.send?.toList
      vanished := t.vanished ++ a.vanish?.toList } := by
  rw [step, Option.ite_none_right_eq_some, Option.some.injEq, eq_comm (b := t')]

theorem exec_sent {n : Nat} {H : List (Act α)}
    (h : Machine.exec step { subs := .replicate n {} } H = .some t) :
    t.sent = H.filterMap Act.send? ∧ t.vanished = H.filterMap Act.vanish? ∧ t.subs.length = n := by
  refine Machine.exec_rec (P := fun H (t : Topic α) =>
    t.sent = H.filterMap Act.send? ∧ t.vanished = H.filterMap Act.vanish? ∧ t.subs.length = n) ?_ ?_ h
  · exact ⟨rfl, rfl, List.length_replicate ..⟩
  · intro H t a t' _ ih hs
    obtain ⟨-, rfl⟩ := step_eq_some.mp hs
    obtain ⟨hsent, hvanished, hlength⟩ := ih
    refine ⟨?_, ?_, ?_⟩
    · dsimp only
      rw [hsent, Machine.filterMap_snoc]
    · dsimp only
      rw [hvanished, Machine.filterMap_snoc]
    · rw [List.length_mapIdx, hlength]

theorem getElem?_step (h : t.step a = .some t') (k : Nat) :
    t'.subs[k]? = t.subs[k]?.map (·.react k a) := by
  obtain ⟨-, rfl⟩ := step_eq_some.mp h
  exact List.getElem?_mapIdx

theorem exec_handed {n k : Nat} {H : List (Act α)} {s : Subscription α}
    (h : Machine.exec step { subs := .replicate n {} } H = .some t) (hk : t.subs[k]? = .some s) :
    s.handed = H.filterMap (Act.handTo k) := by
  refine Machine.exec_rec (P := fun H (t : Topic α) =>
    ∀ s, t.subs[k]? = .some s → s.handed = H.filterMap (Act.handTo k)) ?_ ?_ h s hk
  · intro s hs
    obtain rfl := List.eq_of_mem_replicate (List.mem_of_getElem? hs)
    rfl
  · intro H t a t' _ ih hs s' hs'
    rw [getElem?_step hs, Option.map_eq_some_iff] at hs'
    obtain ⟨s, hs, rfl⟩ := hs'
    rw [s.handed_react, ih s hs, Machine.filterMap_snoc]

end Topic

/-! ## The account -/

/-- Where the messages are that subscription `s` has not been handed. -/
def Topic.elsewhere (t : Topic α) (s : Subscription α) : List α := s.unhandled ++ t.transit ++ t.vanished

/-- Every message that was sent is in one place, for each subscription. -/
def Accounted (t : Topic α) : Prop := ∀ s ∈ t.subs, (s.handed ++ t.elsewhere s).Perm t.sent

namespace Accounted

variable {t t' : Topic α} {a : Act α}

theorem start (n : Nat) : Accounted ({ subs := .replicate n {} } : Topic α) := by
  intro s hs
  rw [List.eq_of_mem_replicate hs]
  exact List.Perm.refl _

variable [DecidableEq α]

/-- **An action moves a message** from one place to another, for the
subscription at `k`. -/
theorem react {s : Subscription α} {k : Nat} (hk : t.subs[k]? = .some s) (ha : t.Enabled a) (b : α) :
    (s.react k a).unhandled.count b + (a.handTo k).toList.count b + (t.underway a).count b +
        a.vanish?.toList.count b =
      s.unhandled.count b + t.transit.count b + a.send?.toList.count b := by
  have hnil : ([] : List α).count b = 0 := rfl
  cases a with
  | send a =>
    dsimp only [Subscription.react, Act.handTo, Topic.underway, Act.vanish?, Act.send?, Option.toList]
    rw [List.count_append]
    omega
  | vanish a =>
    have htransit := (List.perm_cons_erase (l := t.transit) ha).count_eq b
    dsimp only [Subscription.react, Act.handTo, Topic.underway, Act.vanish?, Act.send?, Option.toList]
    rw [List.count_cons] at htransit ⊢
    omega
  | publish a full =>
    have htransit := (List.perm_cons_erase (l := t.transit) ha).count_eq b
    have hoffer := (s.unhandled_offer a (k ∈ full)).count_eq b
    dsimp only [Subscription.react, Act.handTo, Topic.underway, Act.vanish?, Act.send?, Option.toList]
    rw [List.count_cons] at htransit hoffer
    omega
  | ask k' =>
    have hask := s.unhandled_ask.count_eq b
    dsimp only [Subscription.react, Act.handTo, Topic.underway, Act.vanish?, Act.send?, Option.toList]
    split <;> omega
  | up k' =>
    have hrise : s.rise.unhandled = s.unhandled := rfl
    dsimp only [Subscription.react, Act.handTo, Topic.underway, Act.vanish?, Act.send?, Option.toList]
    split
    · rw [hrise]
      omega
    · omega
  | lose k' n =>
    have hlose := (s.unhandled_lose n).count_eq b
    dsimp only [Subscription.react, Act.handTo, Topic.underway, Act.vanish?, Act.send?, Option.toList]
    split <;> omega
  | hand k' a =>
    dsimp only [Subscription.react, Act.handTo, Topic.underway, Act.vanish?, Act.send?]
    split
    · next hk' =>
      have hhead : s.waiting.head? = .some a := by
        have ha : t.subs[k']?.bind (·.waiting.head?) = .some a := ha
        rwa [hk', hk] at ha
      have hhand := congrArg (List.count b) (Subscription.unhandled_hand hhead)
      rw [List.count_cons] at hhand
      simp only [Option.toList, List.count_cons, List.count_nil]
      omega
    · simp

theorem step (h : Accounted t) (hs : t.step a = .some t') : Accounted t' := by
  obtain ⟨ha, rfl⟩ := Topic.step_eq_some.mp hs
  intro s' hs'
  obtain ⟨k, hk, rfl⟩ := List.mem_mapIdx.mp hs'
  refine List.perm_iff_count.mpr fun b => ?_
  have hb := (h _ (List.getElem_mem hk)).count_eq b
  have hmove := react (List.getElem?_eq_getElem hk) ha b
  simp only [Topic.elsewhere, Subscription.handed_react, List.count_append] at hb ⊢
  omega

theorem exec (h : Accounted t) {H : List (Act α)} (hH : Machine.exec Topic.step t H = .some t') :
    Accounted t' :=
  Machine.invariant h (fun _ _ _ => step) hH

end Accounted

/-! ## Without loss -/

section
variable [DecidableEq α]

/-- What reaches the topic in a run. -/
def publishes (H : List (Act α)) : List α := H.filterMap Act.publish?

/-- What has reached it before subscription `k` is up. -/
def before (k : Nat) (H : List (Act α)) : List α := publishes (H.takeWhile (· ≠ .up k))

/-- No message vanishes, every subscription has room, and no link is lost. -/
structure Steady (H : List (Act α)) : Prop where
  arrives : ∀ a, .vanish a ∉ H
  room : ∀ a full, .publish a full ∈ H → full = []
  stays : ∀ k n, .lose k n ∉ H
  once : ∀ k, H.count (.ask k) ≤ 1

omit [DecidableEq α] in
theorem publishes_snoc (H : List (Act α)) (a : Act α) :
    publishes (H ++ [a]) = publishes H ++ a.publish?.toList :=
  Machine.filterMap_snoc Act.publish? H a

theorem takeWhile_of_notMem {k : Nat} {H : List (Act α)} (h : .up k ∉ H) (K : List (Act α)) :
    (H ++ K).takeWhile (· ≠ .up k) = H ++ K.takeWhile (· ≠ .up k) := by
  refine List.takeWhile_append_of_pos ?_
  intro a ha
  exact decide_eq_true fun hk => h (hk ▸ ha)

theorem before_of_notMem {k : Nat} {H : List (Act α)} (h : .up k ∉ H) : before k H = publishes H := by
  have htake := takeWhile_of_notMem h []
  rw [List.takeWhile_nil, List.append_nil] at htake
  rw [before, htake]

/-- What has come before it is up does not change from then on. -/
theorem before_append_of_mem {k : Nat} {H : List (Act α)} (h : .up k ∈ H) (K : List (Act α)) :
    before k (H ++ K) = before k H := by
  rw [before, List.takeWhile_append, if_neg, before]
  intro hlen
  have hself := (List.takeWhile_prefix _).eq_of_length hlen
  exact absurd rfl (of_decide_eq_true (List.takeWhile_eq_self_iff.mp hself _ h))

theorem before_snoc_of_notMem {k : Nat} {H : List (Act α)} (h : .up k ∉ H) (a : Act α) :
    before k (H ++ [a]) = before k H ++ a.publish?.toList := by
  by_cases ha : a = .up k
  · subst ha
    rw [before, takeWhile_of_notMem h, before_of_notMem h]
    simp [Act.publish?]
  · have h' : .up k ∉ H ++ [a] := by simpa [h] using Ne.symm ha
    rw [before_of_notMem h', before_of_notMem h, publishes_snoc]

theorem before_snoc_of_none (k : Nat) (H : List (Act α)) {a : Act α} (ha : a.publish? = .none) :
    before k (H ++ [a]) = before k H := by
  by_cases h : .up k ∈ H
  · exact before_append_of_mem h [a]
  · rw [before_snoc_of_notMem h, ha]
    exact List.append_nil _

theorem Steady.of_snoc {H : List (Act α)} {a : Act α} (h : Steady (H ++ [a])) : Steady H where
  arrives := fun b hb => h.arrives b (List.mem_append_left _ hb)
  room := fun b full hb => h.room b full (List.mem_append_left _ hb)
  stays := fun k n hk => h.stays k n (List.mem_append_left _ hk)
  once := fun k => Nat.le_trans ((List.sublist_append_left H [a]).count_le _) (h.once k)

/-- What subscription `k` has of a steady run. -/
structure Served (k : Nat) (H : List (Act α)) (s : Subscription α) : Prop where
  asked : s.link ≠ .down ↔ .ask k ∈ H
  up : s.link = .up ↔ .up k ∈ H
  missed : s.missed = (before k H).map (Cause.absent, ·)
  published : publishes H = before k H ++ s.handed ++ s.waiting

namespace Served

variable {k : Nat} {H : List (Act α)} {s : Subscription α} {t t' : Topic α}

theorem start (k : Nat) : Served k [] ({} : Subscription α) where
  asked := by simp
  up := by simp
  missed := rfl
  published := rfl

theorem waiting_eq_nil (h : Served k H s) (hk : .up k ∉ H) : s.handed = [] ∧ s.waiting = [] := by
  have hpub := h.published
  rw [before_of_notMem hk, List.append_assoc, List.self_eq_append_right] at hpub
  exact List.append_eq_nil_iff.mp hpub

theorem keep {a : Act α} (h : Served k H s) {s' : Subscription α} (hpub : a.publish? = .none)
    (hasked : s'.link ≠ .down ↔ .ask k ∈ H ++ [a]) (hup : s'.link = .up ↔ .up k ∈ H ++ [a])
    (hmissed : s'.missed = s.missed) (hcopies : s'.handed ++ s'.waiting = s.handed ++ s.waiting) :
    Served k (H ++ [a]) s' := by
  refine ⟨hasked, hup, ?_, ?_⟩
  · rw [hmissed, before_snoc_of_none k H hpub, h.missed]
  · rw [publishes_snoc, hpub, before_snoc_of_none k H hpub, List.append_assoc, hcopies, h.published]
    simp

theorem keep_link {a : Act α} (h : Served k H s) {s' : Subscription α} (hpub : a.publish? = .none)
    (hask : a ≠ .ask k) (hrise : a ≠ .up k) (hlink : s'.link = s.link) (hmissed : s'.missed = s.missed)
    (hcopies : s'.handed ++ s'.waiting = s.handed ++ s.waiting) : Served k (H ++ [a]) s' := by
  refine h.keep hpub ?_ ?_ hmissed hcopies
  · rw [hlink, h.asked, List.mem_append, List.mem_singleton, or_iff_left (Ne.symm hask)]
  · rw [hlink, h.up, List.mem_append, List.mem_singleton, or_iff_left (Ne.symm hrise)]

theorem ask (h : Served k H s) (hfirst : .ask k ∉ H) : Served k (H ++ [.ask k]) s.ask := by
  have hdown : s.link = .down := not_not.mp (mt h.asked.mp hfirst)
  have hk : .up k ∉ H := fun hm => by
    rw [h.up.mpr hm] at hdown
    cases hdown
  obtain ⟨hhanded, hwaiting⟩ := h.waiting_eq_nil hk
  refine h.keep rfl (by simp [Subscription.ask]) (by simp [Subscription.ask, hk]) ?_ ?_
  · simp [Subscription.ask, Subscription.lose, hwaiting]
  · simp [Subscription.ask, Subscription.lose, hwaiting]

theorem rise (h : Served k H s) (hasked : s.link = .asked) : Served k (H ++ [.up k]) s.rise := by
  have hm : .ask k ∈ H := h.asked.mp (by rw [hasked]; decide)
  exact h.keep rfl (by simp [Subscription.rise, hm]) (by simp [Subscription.rise]) rfl rfl

theorem offer (h : Served k H s) (a : α) : Served k (H ++ [.publish a []]) (s.offer a false) := by
  have hasked : .ask k ∈ H ++ [.publish a []] ↔ .ask k ∈ H := by simp
  have hmem : .up k ∈ H ++ [.publish a []] ↔ .up k ∈ H := by simp
  unfold Subscription.offer
  split
  · next hs =>
    have hbefore : before k (H ++ [.publish a []]) = before k H := before_append_of_mem (h.up.mp hs) _
    refine ⟨h.asked.trans hasked.symm, h.up.trans hmem.symm, by simpa [hbefore] using h.missed, ?_⟩
    rw [publishes_snoc, hbefore, h.published]
    simp [Act.publish?]
  · next hs =>
    have hk : .up k ∉ H := fun hm => hs (h.up.mpr hm)
    obtain ⟨hhanded, hwaiting⟩ := h.waiting_eq_nil hk
    have hbefore : before k (H ++ [.publish a []]) = before k H ++ [a] := before_snoc_of_notMem hk _
    refine ⟨h.asked.trans hasked.symm, h.up.trans hmem.symm, ?_, ?_⟩
    · rw [hbefore, List.map_append, ← h.missed]
      rfl
    · rw [publishes_snoc, hbefore, h.published, hhanded, hwaiting]
      simp [Act.publish?]

theorem react {a : Act α} (h : Served k H s) (hk : t.subs[k]? = .some s) (ha : t.Enabled a)
    (hsteady : Steady (H ++ [a])) : Served k (H ++ [a]) (s.react k a) := by
  have hlast : a ∈ H ++ [a] := by simp
  cases a with
  | send a => exact h.keep_link rfl (by simp) (by simp) rfl rfl rfl
  | vanish a => exact h.keep_link rfl (by simp) (by simp) rfl rfl rfl
  | lose k' n => exact absurd hlast (hsteady.stays k' n)
  | hand k' a =>
    dsimp only [Subscription.react]
    split
    · next hk' =>
      have ha : t.subs[k']?.bind (·.waiting.head?) = .some a := ha
      rw [hk', hk] at ha
      refine h.keep_link rfl (by simp) (by simp) rfl rfl ?_
      have hwait : a :: s.waiting.tail = s.waiting := List.cons_head?_tail ha
      rw [Subscription.hand, List.append_assoc, List.singleton_append, hwait]
    · exact h.keep_link rfl (by simp) (by simp) rfl rfl rfl
  | ask k' =>
    dsimp only [Subscription.react]
    split
    · next hk' =>
      subst hk'
      refine h.ask fun hm => ?_
      have hone := hsteady.once k'
      rw [List.count_append, List.count_singleton_self] at hone
      have := List.count_pos_iff.mpr hm
      omega
    · next hk' => exact h.keep_link rfl (fun he => hk' (Act.ask.inj he)) (by simp) rfl rfl rfl
  | up k' =>
    dsimp only [Subscription.react]
    split
    · next hk' =>
      subst hk'
      have ha : t.subs[k']?.map (·.link) = .some .asked := ha
      rw [hk] at ha
      exact h.rise (Option.some.inj ha)
    · next hk' => exact h.keep_link rfl (by simp) (fun he => hk' (Act.up.inj he)) rfl rfl rfl
  | publish a full =>
    obtain rfl := hsteady.room a full hlast
    exact h.offer a

/-- **A steady run** serves each subscription. -/
theorem exec {n : Nat} (hH : Machine.exec Topic.step { subs := .replicate n {} } H = .some t)
    (hsteady : Steady H) (hk : t.subs[k]? = .some s) : Served k H s := by
  refine Machine.exec_rec (P := fun H (t : Topic α) => Steady H → ∀ s, t.subs[k]? = .some s →
    Served k H s) ?_ ?_ hH hsteady s hk
  · intro _ s hs
    obtain rfl := List.eq_of_mem_replicate (List.mem_of_getElem? hs)
    exact start k
  · intro H t a t' _ ih hstep hsteady s' hs'
    rw [Topic.getElem?_step hstep, Option.map_eq_some_iff] at hs'
    obtain ⟨s, hs, rfl⟩ := hs'
    exact (ih hsteady.of_snoc s hs).react hs (Topic.step_eq_some.mp hstep).1 hsteady

end Served
end
end FanOut
