/-
Calls and their answers, over boxes that the callers own.

A client opens a box that is new, puts its address on a call, and takes the next
letter of the box for the answer. It has one call out at a time, and gives the
box up when it does not wait any longer. A server takes a call and sends the
answer to the box on it. A call or an answer may get lost at any point, and a
call may fail: then it is answered in place of its server, whose own answer, if
it comes at all, is not passed on. So no call is answered twice. Calls are
served in any order, and may outlive the box.

No letter of a box then answers another call than the one its owner waits for
(`Routed.mail_eq`), however alike the calls of two clients are.
-/
import Burnin.Lib.Held
import Burnin.Lib.Machine

namespace Call

variable {ρ : Type*}

/-- A call, with the box for the answer. -/
structure Letter (ρ : Type*) where
  box : Nat
  call : ρ
  deriving DecidableEq

/-- The answer to a call: that of a server, or that it has failed. -/
structure Answer (ρ : Type*) where
  letter : Letter ρ
  failed : Bool
  deriving DecidableEq

inductive Server (ρ : Type*) where
  | idle
  | serving (x : Letter ρ)
  /-- the call that it serves has failed -/
  | late
  deriving DecidableEq

/-- The call that a server has still to answer. -/
def Server.letter : Server ρ → Option (Letter ρ)
  | .serving x => .some x
  | .idle | .late => .none

inductive Client (ρ : Type*) where
  | closed
  | opened (box : Nat)
  | waiting (box : Nat) (call : ρ)
  deriving DecidableEq

namespace Client

def box : Client ρ → Option Nat
  | .closed => .none
  | .opened b | .waiting b _ => .some b

/-- The letters that may be under way for its box. -/
def expected : Client ρ → List (Letter ρ)
  | .waiting b call => [⟨b, call⟩]
  | _ => []

end Client

structure Calls (ρ : Type*) where
  clients : Nat → Client ρ := fun _ => .closed
  servers : List (Server ρ) := []
  queued : List (Letter ρ) := []
  mail : List (Answer ρ) := []
  /-- the boxes opened so far -/
  minted : Nat := 0

inductive Act (ρ : Type*) where
  | connect (k : Nat)
  /-- a call, which is put into the queue if it is `posted` -/
  | ask (k : Nat) (call : ρ) (posted : Bool)
  /-- a call that the client gives up, together with its box -/
  | askFailed (k : Nat) (call : ρ) (posted : Bool)
  | receive (k : Nat) (x : Answer ρ)
  | close (k : Nat)
  | closeAll
  | take (j : Nat) (x : Letter ρ)
  /-- server `j` is done, with an answer if it is `posted` -/
  | finish (j : Nat) (posted : Bool)
  /-- a call that no server has taken fails -/
  | fail (x : Letter ρ)
  /-- the call that server `j` serves fails -/
  | failServed (j : Nat)
  | loseCall (x : Letter ρ)
  | loseMail (x : Answer ρ)

/-- It is an act of a server, a failure or a loss. -/
def Act.isInner : Act ρ → Bool
  | .take _ _ | .finish _ _ | .fail _ | .failServed _ | .loseCall _ | .loseMail _ => true
  | _ => false

/-- A call fails. -/
def Act.isFail : Act ρ → Bool
  | .fail _ | .failServed _ => true
  | _ => false

namespace Calls

/-- The calls that wait for their answer, and those whose answer is under way. -/
def letters (c : Calls ρ) : List (Letter ρ) :=
  c.queued ++ Held.held Server.letter c.servers ++ c.mail.map Answer.letter

def setClient (c : Calls ρ) (k : Nat) (s : Client ρ) : Calls ρ :=
  { c with clients := Function.update c.clients k s }

variable [DecidableEq ρ]

def step (c : Calls ρ) : Act ρ → Option (Calls ρ)
  | .connect k =>
    match c.clients k with
    | .closed => .some { c.setClient k (.opened c.minted) with minted := c.minted + 1 }
    | _ => .none
  | .ask k call posted =>
    match c.clients k with
    | .opened b =>
      .some { c.setClient k (.waiting b call) with
        queued := c.queued ++ if posted then [⟨b, call⟩] else [] }
    | _ => .none
  | .askFailed k call posted =>
    match c.clients k with
    | .opened b =>
      .some { c.setClient k .closed with queued := c.queued ++ if posted then [⟨b, call⟩] else [] }
    | _ => .none
  | .receive k x =>
    match c.clients k with
    | .waiting b _ =>
      if c.mail.find? (·.letter.box = b) = .some x then
        .some { c.setClient k (.opened b) with mail := c.mail.erase x }
      else .none
    | _ => .none
  | .close k => .some (c.setClient k .closed)
  | .closeAll => .some { c with clients := fun _ => .closed }
  | .take j x =>
    if c.servers[j]? = .some .idle ∧ x ∈ c.queued then
      .some { c with servers := c.servers.set j (.serving x), queued := c.queued.erase x }
    else .none
  | .finish j posted =>
    match c.servers[j]? with
    | .some (.serving x) =>
      .some { c with
        servers := c.servers.set j .idle, mail := c.mail ++ if posted then [⟨x, false⟩] else [] }
    | .some .late => .some { c with servers := c.servers.set j .idle }
    | _ => .none
  | .fail x =>
    if x ∈ c.queued then
      .some { c with queued := c.queued.erase x, mail := c.mail ++ [⟨x, true⟩] }
    else .none
  | .failServed j =>
    match c.servers[j]? with
    | .some (.serving x) =>
      .some { c with servers := c.servers.set j .late, mail := c.mail ++ [⟨x, true⟩] }
    | _ => .none
  | .loseCall x => .some { c with queued := c.queued.erase x }
  | .loseMail x => .some { c with mail := c.mail.erase x }

theorem step_clients {c c' : Calls ρ} {a : Act ρ} (hs : c.step a = .some c') (ha : a.isInner = true) :
    c'.clients = c.clients := by
  cases a with
  | take j x => exact Option.some.inj (Option.ite_none_right_eq_some.mp hs).2 ▸ rfl
  | finish j posted =>
    simp only [step] at hs
    split at hs
    · exact Option.some.inj hs ▸ rfl
    · exact Option.some.inj hs ▸ rfl
    · cases hs
  | fail x => exact Option.some.inj (Option.ite_none_right_eq_some.mp hs).2 ▸ rfl
  | failServed j =>
    simp only [step] at hs
    split at hs
    · exact Option.some.inj hs ▸ rfl
    · cases hs
  | loseCall x => exact Option.some.inj hs ▸ rfl
  | loseMail x => exact Option.some.inj hs ▸ rfl
  | _ => cases ha

/-- Only a failure makes an answer of a failed call. -/
theorem step_failed {c c' : Calls ρ} {a : Act ρ} (hs : c.step a = .some c') (ha : a.isFail = false)
    {x : Answer ρ} (hx : x ∈ c'.mail) (hf : x.failed = true) : x ∈ c.mail := by
  cases a with
  | connect k | ask k call posted | askFailed k call posted =>
    simp only [step] at hs
    split at hs
    · obtain rfl := Option.some.inj hs
      exact hx
    · cases hs
  | receive k y =>
    simp only [step] at hs
    split at hs
    · obtain rfl := Option.some.inj (Option.ite_none_right_eq_some.mp hs).2
      exact List.mem_of_mem_erase hx
    · cases hs
  | close k | closeAll =>
    obtain rfl := Option.some.inj hs
    exact hx
  | take j y =>
    obtain rfl := Option.some.inj (Option.ite_none_right_eq_some.mp hs).2
    exact hx
  | finish j posted =>
    simp only [step] at hs
    split at hs
    · obtain rfl := Option.some.inj hs
      rcases List.mem_append.mp hx with hx | hx
      · exact hx
      · cases posted with
        | false => cases hx
        | true =>
          obtain rfl := List.mem_singleton.mp hx
          cases hf
    · obtain rfl := Option.some.inj hs
      exact hx
    · cases hs
  | loseCall y =>
    obtain rfl := Option.some.inj hs
    exact hx
  | loseMail y =>
    obtain rfl := Option.some.inj hs
    exact List.mem_of_mem_erase hx
  | fail y => cases ha
  | failServed j => cases ha

end Calls

/-! ## Where the letters go -/

structure Routed (c : Calls ρ) : Prop where
  boxes : ∀ k, ∀ b ∈ (c.clients k).box, b < c.minted
  owner : ∀ k j b, (c.clients k).box = .some b → (c.clients j).box = .some b → k = j
  posted : ∀ x ∈ c.letters, x.box < c.minted
  expected : ∀ k, ∀ b ∈ (c.clients k).box, (c.letters.filter (·.box = b)).Subperm (c.clients k).expected

namespace Routed

variable {c c' : Calls ρ}

theorem empty (n : Nat) : Routed { servers := .replicate n .idle : Calls ρ } := by
  have hnil : ({ servers := .replicate n .idle : Calls ρ }).letters = [] := by
    simp [Calls.letters, Held.held, Server.letter]
  refine ⟨fun k b hb => ?_, fun k j b hb => ?_, fun x hx => ?_, fun k b hb => ?_⟩
  · cases hb
  · cases hb
  · rw [hnil] at hx
    cases hx
  · cases hb

theorem fewer (h : Routed c) (hclients : c'.clients = c.clients) (hminted : c'.minted = c.minted)
    (hl : c'.letters.Subperm c.letters) : Routed c' where
  boxes := by
    rw [hclients, hminted]
    exact h.boxes
  owner := by
    rw [hclients]
    exact h.owner
  posted := fun x hx => by
    rw [hminted]
    exact h.posted x (hl.subset hx)
  expected := fun k b hb => by
    rw [hclients] at hb ⊢
    exact (hl.filter _).trans (h.expected k b hb)

/-- Client `k` changes its state. It keeps its box, has none, or has a new one,
and what it posts names the box it had. -/
theorem of_client (h : Routed c) {k : Nat} {s' : Client ρ}
    (hclients : c'.clients = Function.update c.clients k s') (hminted : c.minted ≤ c'.minted)
    {new : List (Letter ρ)} (hl : c'.letters.Subperm (c.letters ++ new))
    (hnew : ∀ x ∈ new, (c.clients k).box = .some x.box)
    (hbox : ∀ b ∈ s'.box, (c.clients k).box = .some b ∨ b = c.minted ∧ c.minted < c'.minted)
    (hexp : ∀ b ∈ s'.box, (c'.letters.filter (·.box = b)).Subperm s'.expected) : Routed c' := by
  have hk : c'.clients k = s' := by rw [hclients, Function.update_self]
  have hother {j : Nat} (hj : j ≠ k) : c'.clients j = c.clients j := by
    rw [hclients, Function.update_of_ne hj]
  -- Another client does not have the box of `k`.
  have hdisjoint {j b : Nat} (hj : j ≠ k) (hb : (c.clients j).box = .some b) : s'.box ≠ .some b :=
    fun hs => by
    rcases hbox b hs with hold | ⟨rfl, -⟩
    · exact hj (h.owner j k b hb hold)
    · exact absurd (h.boxes j _ hb) (lt_irrefl _)
  refine ⟨fun j b hb => ?_, fun i j b hi hj => ?_, fun x hx => ?_, fun j b hb => ?_⟩
  · by_cases hj : j = k
    · rw [hj, hk] at hb
      rcases hbox b hb with hold | ⟨rfl, hlt⟩
      · exact (h.boxes k b hold).trans_le hminted
      · exact hlt
    · exact (h.boxes j b (hother hj ▸ hb)).trans_le hminted
  · by_cases hik : i = k <;> by_cases hjk : j = k
    · rw [hik, hjk]
    · rw [hik, hk] at hi
      exact absurd hi (hdisjoint hjk (hother hjk ▸ hj))
    · rw [hjk, hk] at hj
      exact absurd hj (hdisjoint hik (hother hik ▸ hi))
    · exact h.owner i j b (hother hik ▸ hi) (hother hjk ▸ hj)
  · rcases List.mem_append.mp (hl.subset hx) with hx | hx
    · exact (h.posted x hx).trans_le hminted
    · exact (h.boxes k _ (hnew x hx)).trans_le hminted
  · by_cases hj : j = k
    · rw [hj, hk] at hb ⊢
      exact hexp b hb
    · rw [hother hj] at hb ⊢
      have hnone : new.filter (·.box = b) = [] := by
        refine List.filter_eq_nil_iff.mpr fun x hx hx' => hj (h.owner j k b hb ?_)
        rw [hnew x hx, of_decide_eq_true hx']
      have hfilter := hl.filter (fun x => decide (x.box = b))
      rw [List.filter_append, hnone, List.append_nil] at hfilter
      exact hfilter.trans (h.expected j b hb)

/-- A letter for the box of a client that waits is the answer to its call, and
the only one. -/
theorem filter_waiting (h : Routed c) {k b : Nat} {call : ρ} (hk : c.clients k = .waiting b call) :
    (c.letters.filter (·.box = b)).Subperm [⟨b, call⟩] := by
  have := h.expected k b (by rw [hk]; rfl)
  rwa [hk] at this

theorem letter_eq (h : Routed c) {k b : Nat} {call : ρ} (hk : c.clients k = .waiting b call)
    {x : Letter ρ} (hx : x ∈ c.letters) (hb : x.box = b) : x = ⟨b, call⟩ := by
  have hmem := (h.filter_waiting hk).subset (List.mem_filter.mpr ⟨hx, decide_eq_true hb⟩)
  exact List.mem_singleton.mp hmem

/-- **The letter that a client receives** is the answer to its call. -/
theorem mail_eq (h : Routed c) {k b : Nat} {call : ρ} (hk : c.clients k = .waiting b call) {x : Answer ρ}
    (hx : c.mail.find? (·.letter.box = b) = .some x) : x.letter = ⟨b, call⟩ :=
  h.letter_eq hk (List.mem_append_right _ (List.mem_map_of_mem (List.mem_of_find?_eq_some hx)))
    (by simpa using List.find?_some hx)

theorem connect (h : Routed c) (k : Nat) :
    Routed { c.setClient k (.opened c.minted) with minted := c.minted + 1 } := by
  have hl : c.letters.Subperm (c.letters ++ []) := by rw [List.append_nil]
  refine h.of_client rfl (Nat.le_succ _) hl (fun x hx => by cases hx)
    (fun b hb => .inr ⟨(Option.some.inj hb).symm, Nat.lt_succ_self _⟩) fun b hb => ?_
  obtain rfl : c.minted = b := Option.some.inj hb
  have hnone : c.letters.filter (·.box = c.minted) = [] :=
    List.filter_eq_nil_iff.mpr fun x hx hb => absurd (of_decide_eq_true hb) (h.posted x hx).ne
  exact hnone ▸ List.Subperm.refl []

theorem letters_post (c : Calls ρ) (k : Nat) (s : Client ρ) (new : List (Letter ρ)) :
    ({ c.setClient k s with queued := c.queued ++ new }).letters.Perm (c.letters ++ new) := by
  simp only [Calls.letters, Calls.setClient, List.append_assoc]
  refine List.Perm.append_left _ (List.perm_append_comm.trans ?_)
  rw [List.append_assoc]

theorem ask (h : Routed c) {k b : Nat} (hk : c.clients k = .opened b) (call : ρ) (posted : Bool) :
    Routed { c.setClient k (.waiting b call) with
      queued := c.queued ++ if posted then [⟨b, call⟩] else [] } := by
  have hperm := letters_post c k (.waiting b call) (if posted then [⟨b, call⟩] else [])
  refine h.of_client rfl le_rfl hperm.subperm (fun x hx => ?_) (fun b' hb' => .inl ?_) fun b' hb' => ?_
  · cases posted with
    | false => cases hx
    | true =>
      obtain rfl := List.mem_singleton.mp hx
      rw [hk]
      rfl
  · rw [hk]
    exact hb'
  · obtain rfl : b = b' := Option.some.inj hb'
    have hnone : c.letters.filter (·.box = b) = [] := by
      have := h.expected k b (by rw [hk]; rfl)
      rw [hk] at this
      exact List.subperm_nil.mp this
    refine ((hperm.filter _).subperm).trans ?_
    rw [List.filter_append, hnone]
    cases posted with
    | false => exact List.nil_subperm
    | true => simp [Client.expected]

theorem askFailed (h : Routed c) {k b : Nat} (hk : c.clients k = .opened b) (call : ρ) (posted : Bool) :
    Routed { c.setClient k .closed with queued := c.queued ++ if posted then [⟨b, call⟩] else [] } := by
  refine h.of_client rfl le_rfl (letters_post c k .closed _).subperm (fun x hx => ?_)
    (fun b' hb' => by cases hb') fun b' hb' => by cases hb'
  cases posted with
  | false => cases hx
  | true =>
    obtain rfl := List.mem_singleton.mp hx
    rw [hk]
    rfl

theorem receive [DecidableEq ρ] (h : Routed c) {k b : Nat} {call : ρ} {x : Answer ρ}
    (hk : c.clients k = .waiting b call) (hx : c.mail.find? (·.letter.box = b) = .some x) :
    Routed { c.setClient k (.opened b) with mail := c.mail.erase x } := by
  have hmail : (c.mail.map Answer.letter).Perm (⟨b, call⟩ :: (c.mail.erase x).map Answer.letter) := by
    simpa only [List.map_cons, h.mail_eq hk hx] using
      (List.perm_cons_erase (List.mem_of_find?_eq_some hx)).map Answer.letter
  have hperm : c.letters.Perm (⟨b, call⟩ ::
      (c.queued ++ Held.held Server.letter c.servers ++ (c.mail.erase x).map Answer.letter)) :=
    (hmail.append_left _).trans List.perm_middle
  have hl : (c.queued ++ Held.held Server.letter c.servers ++ (c.mail.erase x).map Answer.letter).Subperm
      (c.letters ++ []) := by
    rw [List.append_nil]
    exact (List.sublist_cons_self _ _).subperm.trans hperm.symm.subperm
  refine h.of_client rfl le_rfl hl (fun x hx => by cases hx) (fun b' hb' => .inl ?_) fun b' hb' => ?_
  · rw [hk]
    exact hb'
  · obtain rfl : b = b' := Option.some.inj hb'
    -- There was one letter for the box, and it is taken.
    have hone := ((hperm.filter (fun x => decide (x.box = b))).symm.subperm).trans (h.filter_waiting hk)
    rw [List.filter_cons_of_pos (by simp)] at hone
    have hlen := hone.length_le
    simp only [List.length_cons, List.length_nil] at hlen
    have hnil := List.length_eq_zero_iff.mp (Nat.le_zero.mp (Nat.le_of_succ_le_succ hlen))
    exact List.subperm_nil.mpr hnil

theorem closed (h : Routed c) (hclients : ∀ k, c'.clients k = c.clients k ∨ c'.clients k = .closed)
    (hl : c'.letters = c.letters) (hminted : c'.minted = c.minted) : Routed c' := by
  have hkeep {k b : Nat} (hb : (c'.clients k).box = .some b) : c'.clients k = c.clients k := by
    rcases hclients k with heq | heq
    · exact heq
    · rw [heq] at hb
      cases hb
  refine ⟨fun k b hb => ?_, fun i j b hi hj => ?_, fun x hx => ?_, fun k b hb => ?_⟩
  · rw [hminted]
    exact h.boxes k b (hkeep hb ▸ hb)
  · exact h.owner i j b (hkeep hi ▸ hi) (hkeep hj ▸ hj)
  · rw [hminted]
    exact h.posted x (hl ▸ hx)
  · have heq := hkeep hb
    rw [heq] at hb ⊢
    rw [hl]
    exact h.expected k b hb

/-- The call of a server is answered, if at all, and the server is done with it. -/
theorem answered (h : Routed c) {j : Nat} {x : Letter ρ} (hj : c.servers[j]? = .some (.serving x))
    {s : Server ρ} (hs : s.letter = .none) {answers : List (Answer ρ)}
    (ha : (answers.map Answer.letter).Subperm [x]) :
    Routed { c with servers := c.servers.set j s, mail := c.mail ++ answers } := by
  have hheld : (Held.held Server.letter (c.servers.set j s) ++ [x]).Perm
      (Held.held Server.letter c.servers) := by
    have hset := Held.held_set Server.letter hj s
    rw [hs] at hset
    simpa [Server.letter] using hset
  -- The answer takes the place of the call.
  have hperm : (c.queued ++ Held.held Server.letter (c.servers.set j s) ++
      (c.mail.map Answer.letter ++ [x])).Perm c.letters := by
    simp only [Calls.letters, List.append_assoc]
    refine List.Perm.append_left _ ?_
    refine ((List.perm_append_comm).append_left _).trans ?_
    rw [← List.append_assoc]
    exact hheld.append_right _
  refine h.fewer rfl rfl (List.Subperm.trans ?_ hperm.subperm)
  rw [Calls.letters, List.map_append]
  exact (List.subperm_append_left _).mpr ((List.subperm_append_left _).mpr ha)

theorem released (h : Routed c) {j : Nat} (hj : c.servers[j]? = .some .late) :
    Routed { c with servers := c.servers.set j .idle } := by
  have hheld : (Held.held Server.letter (c.servers.set j .idle)).Perm
      (Held.held Server.letter c.servers) :=
    Held.held_keep hj rfl
  exact h.fewer rfl rfl ((hheld.append_left _).append_right _).subperm

section
variable [DecidableEq ρ]

theorem fail (h : Routed c) {x : Letter ρ} (hx : x ∈ c.queued) :
    Routed { c with queued := c.queued.erase x, mail := c.mail ++ [⟨x, true⟩] } := by
  refine h.fewer rfl rfl (List.Perm.subperm ?_)
  have hfront : (c.queued.erase x ++ [x]).Perm c.queued :=
    (List.perm_append_singleton x _).trans (List.perm_cons_erase hx).symm
  simp only [Calls.letters, List.map_append, List.map_cons, List.map_nil]
  refine List.Perm.trans ?_ ((hfront.append_right _).append_right _)
  rw [← List.append_assoc]
  refine (List.perm_append_singleton x _).trans ?_
  rw [List.append_assoc, List.append_assoc, List.append_assoc, List.singleton_append]
  exact List.perm_middle.symm

theorem take (h : Routed c) {j : Nat} {x : Letter ρ} (hj : c.servers[j]? = .some .idle)
    (hx : x ∈ c.queued) :
    Routed { c with servers := c.servers.set j (.serving x), queued := c.queued.erase x } := by
  refine h.fewer rfl rfl (List.Perm.subperm (List.Perm.append_right _ ?_))
  have hheld : (Held.held Server.letter (c.servers.set j (.serving x))).Perm
      (Held.held Server.letter c.servers ++ [x]) := Held.held_acquire hj rfl rfl
  refine (hheld.append_left _).trans ?_
  rw [← List.append_assoc]
  exact (List.perm_append_singleton x _).trans ((List.perm_cons_erase hx).symm.append_right _)

/-- **A step keeps the letters on their way.** -/
theorem step (h : Routed c) {a : Act ρ} (hs : c.step a = .some c') : Routed c' := by
  cases a with
  | connect k =>
    simp only [Calls.step] at hs
    split at hs
    · exact Option.some.inj hs ▸ h.connect k
    · cases hs
  | ask k call posted =>
    simp only [Calls.step] at hs
    split at hs
    case h_1 b hk => exact Option.some.inj hs ▸ h.ask hk call posted
    case h_2 => cases hs
  | askFailed k call posted =>
    simp only [Calls.step] at hs
    split at hs
    case h_1 b hk => exact Option.some.inj hs ▸ h.askFailed hk call posted
    case h_2 => cases hs
  | receive k x =>
    simp only [Calls.step] at hs
    split at hs
    case h_1 b call hk =>
      obtain ⟨hx, hs⟩ := Option.ite_none_right_eq_some.mp hs
      exact Option.some.inj hs ▸ h.receive hk hx
    case h_2 => cases hs
  | close k =>
    obtain rfl := Option.some.inj hs
    refine h.closed (fun j => ?_) rfl rfl
    by_cases hj : j = k
    · exact .inr (by rw [hj]; exact Function.update_self ..)
    · exact .inl (Function.update_of_ne hj ..)
  | closeAll =>
    obtain rfl := Option.some.inj hs
    exact h.closed (fun _ => .inr rfl) rfl rfl
  | take j x =>
    obtain ⟨⟨hj, hx⟩, hs⟩ := Option.ite_none_right_eq_some.mp hs
    exact Option.some.inj hs ▸ h.take hj hx
  | finish j posted =>
    simp only [Calls.step] at hs
    split at hs
    case h_1 x hj =>
      refine Option.some.inj hs ▸ h.answered hj rfl ?_
      cases posted with
      | false => exact List.nil_subperm
      | true => exact List.Subperm.refl _
    case h_2 hj => exact Option.some.inj hs ▸ h.released hj
    case h_3 => cases hs
  | fail x =>
    obtain ⟨hx, hs⟩ := Option.ite_none_right_eq_some.mp hs
    exact Option.some.inj hs ▸ h.fail hx
  | failServed j =>
    simp only [Calls.step] at hs
    split at hs
    case h_1 x hj => exact Option.some.inj hs ▸ h.answered hj rfl (List.Subperm.refl _)
    case h_2 => cases hs
  | loseCall x =>
    obtain rfl := Option.some.inj hs
    exact h.fewer rfl rfl ((List.erase_sublist.append_right _).append_right _).subperm
  | loseMail x =>
    obtain rfl := Option.some.inj hs
    exact h.fewer rfl rfl ((List.erase_sublist.map _).append_left _).subperm

end

end Routed
end Call
