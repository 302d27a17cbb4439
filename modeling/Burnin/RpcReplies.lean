/-
A requester against its reply node (`burnin/worker/rpc.go`).

The node is a queue that goes with the links: `connect` makes a new one. The
responder puts one answer there for each request, in order, and besides there
are surplus replies, duplicates of earlier ones or late ones. A reply whose
correlation-id is not that of the outstanding request is counted as an RPC error
by `accountReply`, and `doOne` then keeps the links: the answer that the request
should have got is still to come, and is taken for the answer to the next one.
So from the first mismatch on, each request on these links mismatches
(`stale_reply_cascades`). Only where the links are rebuilt before an answer is
taken after a mismatch is the number of these errors bounded by that of the
surplus replies (`mismatches_le_surplus`).
-/
import Burnin.Lib.Past
import Burnin.RpcFacts

namespace Burnin

open Machine Past

/-- What stands in a reply node. -/
inductive Queued where
  /-- the responder's answer to a request -/
  | answer (req : Request)
  | surplus (r : Reply)
  deriving DecidableEq

namespace Queued

def reply (withOutcome : Bool) : Queued → Reply
  | .answer req => buildReply withOutcome req
  | .surplus r => r

def isSurplus : Queued → Bool
  | .surplus _ => true
  | .answer _ => false

/-- The requests that are answered in a node, in order. -/
def answered (node : List Queued) : List Request :=
  node.filterMap fun
    | .answer req => .some req
    | .surplus _ => .none

@[simp]
theorem answered_nil : answered [] = [] := rfl

@[simp]
theorem answered_append (node₁ node₂ : List Queued) :
    answered (node₁ ++ node₂) = answered node₁ ++ answered node₂ :=
  List.filterMap_append

@[simp]
theorem answered_cons_answer (req : Request) (node : List Queued) :
    answered (.answer req :: node) = req :: answered node := rfl

@[simp]
theorem answered_cons_surplus (r : Reply) (node : List Queued) :
    answered (.surplus r :: node) = answered node := rfl

end Queued

/-- A requester of a worker, its reply node, and the requests that are on their
way to the responder. -/
structure RpcExchange where
  base : BaseWorker
  /-- The worker sends commands. -/
  withOutcome : Bool
  requester : RpcRequester := {}
  unanswered : List Request := []
  node : List Queued := []
  /-- the surplus replies put into a node so far -/
  surplus : Nat := 0
  /-- the RPC errors of `accountReply` for a correlation-id -/
  mismatches : Nat := 0
  /-- One of these was on the present links. -/
  mismatched : Bool := false
  /-- the surplus replies that were taken on the present links for an answer -/
  mistaken : Nat := 0

/-- The outstanding request. -/
def Phase.outstanding : Phase → Option Request
  | .awaiting req => .some req
  | _ => .none

namespace RpcExchange

inductive Event where
  /-- a step of the requester, other than one in which it gets a reply -/
  | own (e : RpcRequester.Event)
  /-- the responder answers the oldest request -/
  | answer
  /-- a reply is put into the node that answers no request, or one anew -/
  | surplus (r : Reply)
  /-- `Receive` returns the first reply of the node -/
  | receive (elapsed : Int)

/-- What the node and the responder have of a step of the requester. -/
def deliver (x x' : RpcExchange) : RpcRequester.Event → RpcExchange
  -- The links are new, and with them the node.
  | .connected => { x' with node := [], unanswered := [], mismatched := false, mistaken := 0 }
  | .request .accepted =>
    { x' with unanswered := x.unanswered ++ [x.requester.nextRequest x.base.channelName] }
  | _ => x'

/-- What is noted of a reply that was received for `req`. -/
def note (x : RpcExchange) (req : Request) (q : Queued) : RpcExchange :=
  if (q.reply x.withOutcome).correlation ≠ req.correlation then
    { x with mismatches := x.mismatches + 1, mismatched := true }
  else if q.isSurplus then { x with mistaken := x.mistaken + 1 }
  else x

def step (x : RpcExchange) : Event → Option RpcExchange
  | .own (.reply _ _) => .none
  | .own e =>
    (x.requester.step x.withOutcome x.base e).map fun (requester, base) =>
      x.deliver { x with requester, base } e
  | .answer =>
    match x.unanswered with
    | [] => .none
    | req :: unanswered => .some { x with unanswered, node := x.node ++ [.answer req] }
  | .surplus r =>
    if ∀ req ∈ x.requester.phase.outstanding, r.correlation ≠ req.correlation then
      .some { x with node := x.node ++ [.surplus r], surplus := x.surplus + 1 }
    else .none
  | .receive elapsed =>
    match x.requester.phase, x.node with
    | .awaiting req, q :: node =>
      (x.requester.step x.withOutcome x.base (.reply (q.reply x.withOutcome) elapsed)).map fun
        (requester, base) => note { x with requester, base, node } req q
    | _, _ => .none

/-- The requester of a worker when it starts. -/
def start (base : BaseWorker) (withOutcome : Bool) : RpcExchange := { base, withOutcome }

/-! ## The bound -/

/-- The account of the surplus replies. Those that are still in the node, and
those that were taken for an answer on links that have not mismatched, can each
pay for one more error. As long as none was taken on the present links, what is
answered and what will be is the outstanding request. -/
structure Paid (x : RpcExchange) : Prop where
  count : x.mismatches + x.node.countP Queued.isSurplus +
    (if x.mismatched then 0 else x.mistaken) ≤ x.surplus
  inStep : x.mismatched = false → x.mistaken = 0 → x.requester.phase ≠ .dialing →
    x.requester.phase ≠ .returned →
    Queued.answered x.node ++ x.unanswered = x.requester.phase.outstanding.toList

/-- An answer to a request is not taken after a mismatch, unless the links were
rebuilt. -/
def Rebuilt (x : RpcExchange) : Event → Prop
  | .receive _ => x.mismatched = true → ∀ q ∈ x.node.head?, q.isSurplus = true
  | _ => True

theorem start_paid (base : BaseWorker) (withOutcome : Bool) : Paid (start base withOutcome) :=
  ⟨le_rfl, fun _ _ h => absurd rfl h⟩

theorem Paid.leave {x x' : RpcExchange} (h : Paid x)
    (hx : x' = { x with requester := x'.requester, base := x'.base })
    (hp : x'.requester.phase = .dialing ∨ x'.requester.phase = .returned) : Paid x' := by
  rw [hx]
  exact ⟨h.count, fun _ _ h₁ h₂ => (hp.elim h₁ h₂).elim⟩

theorem Paid.own {x : RpcExchange} {e : RpcRequester.Event} {requester : RpcRequester}
    {base : BaseWorker} (h : Paid x) (he : ∀ r elapsed, e ≠ .reply r elapsed)
    (hm : x.requester.Moves x.withOutcome x.base e requester base) :
    Paid (x.deliver { x with requester, base } e) := by
  cases hm with
  | connected =>
    refine ⟨?_, fun _ _ _ _ => rfl⟩
    have := h.count
    show x.mismatches + 0 + 0 ≤ x.surplus
    omega
  | connectFailed hp => exact h.leave rfl (.inl hp)
  | request hp o =>
    cases o with
    | accepted =>
      refine ⟨h.count, fun h₁ h₂ _ _ => ?_⟩
      have := h.inStep h₁ h₂ (by simp [hp]) (by simp [hp])
      simp only [Phase.outstanding, hp, Option.toList_none, List.append_eq_nil_iff] at this
      simp [deliver, RpcRequester.send, Phase.outstanding, this]
    | failed => exact h.leave rfl (.inl rfl)
    | cancelled => exact h.leave rfl (.inr rfl)
  | reply _ r elapsed => exact absurd rfl (he r elapsed)
  | timeout => exact h.leave rfl (.inl rfl)
  | replyFailed => exact h.leave rfl (.inl rfl)
  | cancelled => exact h.leave rfl (.inr rfl)

/-- On links on which no surplus reply was taken for an answer and none has
mismatched, the first answer of the node is that to the outstanding request. -/
theorem Paid.head_eq {x : RpcExchange} (h : Paid x) {req req' : Request} {node : List Queued}
    (hp : x.requester.phase = .awaiting req) (hn : x.node = .answer req' :: node)
    (h₁ : x.mismatched = false) (h₂ : x.mistaken = 0) :
    req' = req ∧ Queued.answered node ++ x.unanswered = [] := by
  have := h.inStep h₁ h₂ (by simp [hp]) (by simp [hp])
  simpa [hn, hp, Phase.outstanding] using this

theorem Paid.receive {x : RpcExchange} (h : Paid x) {req : Request} {q : Queued} {node : List Queued}
    (hp : x.requester.phase = .awaiting req) (hn : x.node = q :: node)
    (hc : x.mismatched = true → q.isSurplus = true) (base : BaseWorker) :
    Paid (note { x with requester := { x.requester with phase := .idle }, base, node } req q) := by
  have hcount := h.count
  rw [hn, List.countP_cons] at hcount
  cases q with
  | surplus r =>
    simp only [Queued.isSurplus, if_true] at hcount
    unfold note
    split
    · -- It pays for its own error.
      refine ⟨?_, fun h => nomatch h⟩
      simp only [if_true]
      omega
    · refine ⟨?_, fun _ h => absurd h (Nat.succ_ne_zero _)⟩
      simp only [Queued.isSurplus, if_true]
      split at hcount <;> simp_all <;> omega
  | answer req' =>
    have h₁ : x.mismatched = false := by
      cases hx : x.mismatched with
      | false => rfl
      | true => cases hc hx
    simp only [Queued.isSurplus, h₁, Bool.false_eq_true, if_false, Nat.add_zero] at hcount
    unfold note
    split
    case isTrue hne =>
      -- Another reply stood for it, and was not charged.
      have h₂ : x.mistaken ≠ 0 := fun h₂ => hne (by rw [(h.head_eq hp hn h₁ h₂).1]; rfl)
      refine ⟨?_, fun h => nomatch h⟩
      simp only [if_true]
      omega
    case isFalse =>
      refine ⟨by simpa [Queued.isSurplus, h₁] using hcount, fun _ h₂ _ _ => ?_⟩
      exact (h.head_eq hp hn h₁ h₂).2

/-- **One step** keeps the account, when it is not the taking of an answer after
a mismatch. -/
theorem Paid.step {x x' : RpcExchange} {e : Event} (h : Paid x) (hs : x.step e = .some x')
    (hc : Rebuilt x e) : Paid x' := by
  cases e with
  | own e =>
    have he : ∀ r elapsed, e ≠ .reply r elapsed := by
      rintro r elapsed rfl
      cases hs
    have hmap : (x.requester.step x.withOutcome x.base e).map
        (fun (requester, base) => x.deliver { x with requester, base } e) = .some x' := by
      cases e with
      | reply r elapsed => exact absurd rfl (he r elapsed)
      | _ => exact hs
    obtain ⟨⟨requester, base⟩, hstep, rfl⟩ := Option.map_eq_some_iff.mp hmap
    exact h.own he (RpcRequester.step_moves hstep)
  | answer =>
    simp only [RpcExchange.step] at hs
    split at hs
    case h_1 => cases hs
    case h_2 req unanswered hu =>
      cases hs
      refine ⟨by simpa [Queued.isSurplus] using h.count, fun h₁ h₂ h₃ h₄ => ?_⟩
      simpa [hu] using h.inStep h₁ h₂ h₃ h₄
  | surplus r =>
    simp only [RpcExchange.step] at hs
    split at hs
    · cases hs
      refine ⟨?_, fun h₁ h₂ h₃ h₄ => by simpa using h.inStep h₁ h₂ h₃ h₄⟩
      have := h.count
      simp only [List.countP_append, List.countP_singleton, Queued.isSurplus, if_true]
      omega
    · cases hs
  | receive elapsed =>
    simp only [RpcExchange.step] at hs
    split at hs
    case h_1 req q node hp hn =>
      obtain ⟨⟨requester, base⟩, hstep, rfl⟩ := Option.map_eq_some_iff.mp hs
      cases RpcRequester.step_moves hstep with
      | reply => exact h.receive hp hn (fun hm => hc hm q (by simp [hn])) _
    case h_2 => cases hs

/-- **The errors are paid for.** In every run of a requester and its reply node,
with surplus replies put there at any points, in which no answer is taken after
a mismatch before the links are rebuilt, `accountReply` records at most as many
RPC errors for a correlation-id as there were surplus replies. -/
theorem mismatches_le_surplus (base : BaseWorker) (withOutcome : Bool) {es : List Event}
    {x : RpcExchange} (hrun : exec step (start base withOutcome) es = .some x)
    (hc : Always (fun H e => ∀ y, exec step (start base withOutcome) H = .some y → Rebuilt y e) es) :
    x.mismatches ≤ x.surplus := by
  have hpaid : Paid x := by
    refine exec_rec (P := fun es x =>
      Always (fun H e => ∀ y, exec step (start base withOutcome) H = .some y →
      Rebuilt y e) es → Paid x) (fun _ => start_paid base withOutcome) ?_ hrun hc
    intro H x e x' hx ih hs hc
    obtain ⟨hH, he⟩ := always_snoc.mp hc
    exact (ih hH).step hs (he x hx)
  exact (Nat.le_add_right _ _).trans ((Nat.le_add_right _ _).trans hpaid.count)

/-- A reply to a request of earlier links. -/
def lateReply : Reply := { correlation := "late", executed := true, envelope := .none }

/-- A late reply is taken for the answer, which is then in the node. -/
def lateFirst : List Event :=
  [.own .connected, .own (.request .accepted), .surplus lateReply, .answer, .receive 0]

/-- A requester of commands. -/
def commandsExchange : RpcExchange := start (.new smallWindow .commands 1) true

set_option maxRecDepth 20000 in
theorem mismatches_le_surplus_lateFirst :
    ∃ x, exec step commandsExchange lateFirst = .some x ∧ x.mismatches = 1 ∧
      x.mismatches ≤ x.surplus := by
  have hx : (exec step commandsExchange lateFirst).map (·.mismatches) = .some 1 := by decide +kernel
  obtain ⟨x, hx, h⟩ := Option.map_eq_some_iff.mp hx
  refine ⟨x, hx, h, mismatches_le_surplus _ _ hx ?_⟩
  refine (always_snoc (H := lateFirst.take 4)).mpr ⟨fun pre e post he => ?_, fun y hy hm => ?_⟩
  · have hmem : e ∈ lateFirst.take 4 := by rw [he]; simp
    cases e with
    | receive elapsed => simp [lateFirst] at hmem
    | _ => exact fun _ _ => trivial
  · have hy' : (exec step commandsExchange (lateFirst.take 4)).map (·.mismatched) =
        .some false := by decide +kernel
    rw [commandsExchange, hy] at hy'
    exact absurd (hm.symm.trans (Option.some.inj hy')) (by decide)

set_option maxRecDepth 20000 in
/-- **A late reply costs every later request of the links.** After it each
request is given the answer to the one before. -/
theorem stale_reply_cascades :
    (exec step commandsExchange (lateFirst ++
        [.own (.request .accepted), .answer, .receive 0, .own (.request .accepted), .answer,
          .receive 0])).map
      (fun x => (x.surplus, x.mismatches, x.base.rpcErrorCount, x.base.rpcSuccessCount)) =
        .some (1, 3, 3, 0) := by
  decide +kernel

end RpcExchange

end Burnin
