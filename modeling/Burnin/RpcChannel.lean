/-
The channel of an RPC worker: its requesters, its responders and the broker
between them (`burnin/worker/rpc.go`).

`connect` makes a reply node for each set of links, a request names it, and
`buildReply` sends the reply there with the request's correlation-id. The
broker passes on what it is given, once at most and in any order, and may lose
any of it; a reply to a node that is gone finds no one. A command that fails,
or that no responder answers in the broker's time, it answers itself with
`executed` false; a query that fails gets no reply (`docs/concepts/rpc.md`).
What follows for the letters is `Call`. A requester that waits no longer
rebuilds its links, so that a late reply meets a node that is gone.

The requesters of a channel number their requests alike, so two of them may
wait for replies of one correlation-id. All the same, none is given a reply to
another's request (`rpc_errors_are_failures`).
-/
import Burnin.Consumers
import Burnin.Lib.Call
import Burnin.RpcAccounting

namespace Burnin

open Machine

/-- `queryDropEveryN`. -/
def queryDropEveryN : Nat := 0

/-- `dropEveryN` of the responders. -/
def RpcPattern.dropEveryN : RpcPattern → Nat
  | .commands => 0
  | .queries => queryDropEveryN

/-- A responder leaves out the reply to the next request, after `count` requests
that it counted. -/
def dropsReply (withOutcome : Bool) (dropEveryN count : Nat) : Bool :=
  !withOutcome && decide (0 < dropEveryN) && decide ((count + 1) % dropEveryN = 0)

/-- The broker's own reply to a command that has failed; `accountReply` does not
look at its envelope. -/
def failedReply (req : Request) : Reply where
  correlation := req.correlation
  executed := false
  envelope := .none

/-- The reply in an answer of the broker. -/
def replyOf (withOutcome : Bool) (x : Call.Answer Request) : Reply :=
  if x.failed then failedReply x.letter.call else buildReply withOutcome x.letter.call

structure RpcChannel where
  worker : RpcWorker
  calls : Call.Calls Request
  /-- `count` of each responder -/
  counts : List Nat

namespace RpcChannel

inductive Act where
  /-- a step of requester `k` other than one that gets a reply; the broker has a
  request if it is `posted` -/
  | requester (k : Nat) (e : RpcRequester.Event) (posted : Bool)
  /-- `Receive` of requester `k` returns the next reply of its node -/
  | receive (k : Nat) (x : Call.Answer Request) (elapsed : Int)
  /-- `Receive` of responder `j` returns a request -/
  | take (j : Nat) (x : Call.Letter Request)
  /-- responder `j` leaves out the reply -/
  | drop (j : Nat)
  /-- responder `j` sends the reply, and `Send` ends so -/
  | answer (j : Nat) (o : Worker.Outcome) (posted : Bool)
  /-- the broker fails a command that no responder has received -/
  | fail (x : Call.Letter Request)
  /-- the broker fails the command that responder `j` has received -/
  | failServed (j : Nat)
  | loseRequest (x : Call.Letter Request)
  | loseReply (x : Call.Answer Request)
  /-- what the engine does, and what a responder counts of its links -/
  | worker (e : RpcWorker.Event)

/-- What the worker counts of an action. -/
def Act.event (withOutcome : Bool) : Act → Option RpcWorker.Event
  | .requester k e _ => .some (.requester k e)
  | .receive k x elapsed => .some (.requester k (.reply (replyOf withOutcome x) elapsed))
  | .answer _ .failed _ => .some .error
  | .worker e => .some e
  | .take _ _ | .drop _ | .answer _ _ _ | .fail _ | .failServed _ | .loseRequest _ | .loseReply _ =>
    .none

/-- What a step of requester `k` is for the broker; `req` is the request that
`doOne` sends next. -/
def linkAct (k : Nat) (req : Request) (posted : Bool) : RpcRequester.Event → Option (Call.Act Request)
  | .connected => .some (.connect k)
  | .request .accepted => .some (.ask k req posted)
  | .request .failed | .request .cancelled => .some (.askFailed k req posted)
  | .timeout | .replyFailed | .cancelled => .some (.close k)
  | .connectFailed | .reply _ _ => .none

/-- What an action is for the broker, when it is anything; none where it is not
enabled. -/
def callAct (dropEveryN : Nat) (ch : RpcChannel) : Act → Option (Option (Call.Act Request))
  | .requester _ (.reply _ _) _ => .none
  | .requester k e posted =>
    ch.worker.requesters[k]?.map fun rq => linkAct k (rq.nextRequest ch.worker.base.channelName) posted e
  | .receive k x _ => .some (.some (.receive k x))
  | .take j x => .some (.some (.take j x))
  | .drop j =>
    ch.counts[j]?.bind fun count =>
      if dropsReply ch.worker.verifyOutcome dropEveryN count then
        .some (.some (.finish j false))
      else .none
  | .answer j _ posted =>
    ch.counts[j]?.bind fun count =>
      if dropsReply ch.worker.verifyOutcome dropEveryN count then
        .none
      else .some (.some (.finish j posted))
  | .fail x => if ch.worker.verifyOutcome then .some (.some (.fail x)) else .none
  | .failServed j => if ch.worker.verifyOutcome then .some (.some (.failServed j)) else .none
  | .loseRequest x => .some (.some (.loseCall x))
  | .loseReply x => .some (.some (.loseMail x))
  -- `StopProducers` returns when all requesters have torn down their links.
  | .worker .stopProducers => .some (.some .closeAll)
  | .worker (.requester _ _) => .none
  | .worker _ => .some .none

/-- The counts of the responders after an action; those of commands are not
used. -/
def countsAfter (dropEveryN : Nat) (ch : RpcChannel) : Act → List Nat
  | .drop j | .answer j _ _ =>
    if ch.worker.verifyOutcome = false ∧ 0 < dropEveryN then ch.counts.modify j (· + 1) else ch.counts
  | _ => ch.counts

def stepCalls (calls : Call.Calls Request) : Option (Call.Act Request) → Option (Call.Calls Request)
  | .some a => calls.step a
  | .none => .some calls

def stepWorker (w : RpcWorker) : Option RpcWorker.Event → Option RpcWorker
  | .some e => w.step e
  | .none => .some w

def step (dropEveryN : Nat) (ch : RpcChannel) (a : Act) : Option RpcChannel :=
  (ch.callAct dropEveryN a).bind fun act =>
    (stepCalls ch.calls act).bind fun calls =>
      (stepWorker ch.worker (a.event ch.worker.verifyOutcome)).map fun worker =>
        { worker, calls, counts := ch.countsAfter dropEveryN a }

/-- An RPC worker whose responders have been started. -/
def start (c : RunnableConfig) (idx : Nat) (pat : RpcPattern) : RpcChannel where
  worker := .new c idx pat
  calls := { servers := .replicate (Consumers.count c pat.name) .idle }
  counts := .replicate (Consumers.count c pat.name) 0

theorem step_eq_some {dropEveryN : Nat} {ch ch' : RpcChannel} {a : Act} :
    ch.step dropEveryN a = .some ch' ↔ ∃ act calls worker, ch.callAct dropEveryN a = .some act ∧
      stepCalls ch.calls act = .some calls ∧
        stepWorker ch.worker (a.event ch.worker.verifyOutcome) = .some worker ∧
      ch' = { worker, calls, counts := ch.countsAfter dropEveryN a } := by
  simp only [step, Option.bind_eq_some_iff, Option.map_eq_some_iff]
  constructor
  · intro h
    obtain ⟨act, hact, calls, hcalls, worker, hworker, rfl⟩ := h
    exact ⟨act, calls, worker, hact, hcalls, hworker, rfl⟩
  · intro h
    obtain ⟨act, calls, worker, hact, hcalls, hworker, rfl⟩ := h
    exact ⟨act, hact, calls, hcalls, worker, hworker, rfl⟩

/-! ## Requesters and their reply nodes -/

/-- A requester and what the broker has of it agree: it has a reply node while
it has links, and waits there for the reply to its outstanding request. -/
inductive Agree : Option RpcRequester → Call.Client Request → Prop
  | gone : Agree .none .closed
  | dialing {rq : RpcRequester} (h : rq.phase = .dialing) : Agree (.some rq) .closed
  | returned {rq : RpcRequester} (h : rq.phase = .returned) : Agree (.some rq) .closed
  | idle {rq : RpcRequester} (h : rq.phase = .idle) (node : Nat) : Agree (.some rq) (.opened node)
  | awaiting {rq : RpcRequester} {req : Request} (h : rq.phase = .awaiting req)
    (intact : req.envelope.crcMismatch = false) (node : Nat) : Agree (.some rq) (.waiting node req)

structure Linked (ch : RpcChannel) : Prop where
  routed : Call.Routed ch.calls
  agree : ∀ k, Agree ch.worker.requesters[k]? (ch.calls.clients k)
  /-- only commands are answered by the broker -/
  failed : ∀ x ∈ ch.calls.mail, x.failed = true → ch.worker.verifyOutcome = true

theorem linked_start (c : RunnableConfig) (idx : Nat) (pat : RpcPattern) : Linked (start c idx pat) := by
  refine ⟨Call.Routed.empty _, fun k => ?_, fun x hx => (by cases hx)⟩
  have hnone : (start c idx pat).worker.requesters[k]? = .none := by cases pat <;> rfl
  rw [hnone]
  exact .gone

theorem agree_set {requesters : List RpcRequester} {clients : Nat → Call.Client Request} {k : Nat}
    {rq' : RpcRequester} {client : Call.Client Request} (hk : k < requesters.length)
    (h : ∀ j, Agree requesters[j]? (clients j)) (hnew : Agree (.some rq') client) (j : Nat) :
    Agree (requesters.set k rq')[j]? (Function.update clients k client j) := by
  by_cases hj : j = k
  · rw [hj, List.getElem?_set_self hk, Function.update_self]
    exact hnew
  · rw [List.getElem?_set_ne (Ne.symm hj), Function.update_of_ne hj]
    exact h j

theorem agree_requester {ch : RpcChannel} {k : Nat} {e : RpcRequester.Event} {posted : Bool}
    {rq rq' : RpcRequester} {base : BaseWorker} {calls : Call.Calls Request} (hl : Linked ch)
    (hk : ch.worker.requesters[k]? = .some rq)
    (hm : rq.Moves ch.worker.verifyOutcome ch.worker.base e rq' base)
    (he : ∀ r elapsed, e ≠ .reply r elapsed)
    (hcalls : stepCalls ch.calls (linkAct k (rq.nextRequest ch.worker.base.channelName) posted e) =
      .some calls) :
    ∃ client, Agree (.some rq') client ∧ calls.clients = Function.update ch.calls.clients k client := by
  cases hm with
  | connected =>
    simp only [stepCalls, linkAct, Call.Calls.step] at hcalls
    split at hcalls
    · obtain rfl := Option.some.inj hcalls
      exact ⟨_, .idle rfl _, rfl⟩
    · cases hcalls
  | connectFailed =>
    obtain rfl := Option.some.inj hcalls
    exact ⟨ch.calls.clients k, hk ▸ hl.agree k, (Function.update_eq_self ..).symm⟩
  | request h o =>
    cases o with
    | accepted =>
      simp only [stepCalls, linkAct, Call.Calls.step] at hcalls
      split at hcalls
      · obtain rfl := Option.some.inj hcalls
        exact ⟨_, .awaiting rfl rfl _, rfl⟩
      · cases hcalls
    | failed =>
      simp only [stepCalls, linkAct, Call.Calls.step] at hcalls
      split at hcalls
      · obtain rfl := Option.some.inj hcalls
        exact ⟨_, .dialing rfl, rfl⟩
      · cases hcalls
    | cancelled =>
      simp only [stepCalls, linkAct, Call.Calls.step] at hcalls
      split at hcalls
      · obtain rfl := Option.some.inj hcalls
        exact ⟨_, .returned rfl, rfl⟩
      · cases hcalls
  | reply h r elapsed => exact absurd rfl (he r elapsed)
  | timeout | replyFailed =>
    obtain rfl := Option.some.inj hcalls
    exact ⟨_, .dialing rfl, rfl⟩
  | cancelled =>
    obtain rfl := Option.some.inj hcalls
    exact ⟨_, .returned rfl, rfl⟩

theorem stepCalls_routed {calls calls' : Call.Calls Request} {act : Option (Call.Act Request)}
    (h : Call.Routed calls) (hs : stepCalls calls act = .some calls') : Call.Routed calls' := by
  cases act with
  | none => exact Option.some.inj hs ▸ h
  | some a => exact h.step hs

theorem stepCalls_clients {calls calls' : Call.Calls Request} {a : Call.Act Request}
    (hs : stepCalls calls (.some a) = .some calls') (ha : a.isInner = true) :
    calls'.clients = calls.clients :=
  Call.Calls.step_clients hs ha

theorem callAct_requester {dropEveryN : Nat} {ch : RpcChannel} {k : Nat} {e : RpcRequester.Event}
    {posted : Bool} {act : Option (Call.Act Request)}
    (h : ch.callAct dropEveryN (.requester k e posted) = .some act) :
    (∀ r elapsed, e ≠ .reply r elapsed) ∧ ∃ rq, ch.worker.requesters[k]? = .some rq ∧
      act = linkAct k (rq.nextRequest ch.worker.base.channelName) posted e := by
  cases e with
  | reply r elapsed => cases h
  | _ =>
    refine ⟨fun _ _ he => (by cases he), ?_⟩
    obtain ⟨rq, hk, rfl⟩ := Option.map_eq_some_iff.mp h
    exact ⟨rq, hk, rfl⟩

theorem stepWorker_verifyOutcome {w w' : RpcWorker} {e : Option RpcWorker.Event}
    (hs : stepWorker w e = .some w') : w'.verifyOutcome = w.verifyOutcome := by
  cases e with
  | none => exact Option.some.inj hs ▸ rfl
  | some e => exact RpcWorker.step_verifyOutcome hs

theorem verifyOutcome_of_isFail {dropEveryN : Nat} {ch : RpcChannel} {a : Act} {act : Call.Act Request}
    (h : ch.callAct dropEveryN a = .some (.some act)) (hf : act.isFail = true) :
    ch.worker.verifyOutcome = true := by
  cases a with
  | requester k e posted =>
    obtain ⟨-, rq, -, hact⟩ := callAct_requester h
    cases e with
    | request o => cases o <;> cases hact <;> cases hf
    | _ => cases hact <;> cases hf
  | drop j =>
    obtain ⟨count, -, h⟩ := Option.bind_eq_some_iff.mp h
    obtain rfl := Option.some.inj (Option.some.inj (Option.ite_none_right_eq_some.mp h).2)
    cases hf
  | answer j o posted =>
    obtain ⟨count, -, h⟩ := Option.bind_eq_some_iff.mp h
    obtain rfl := Option.some.inj (Option.some.inj (Option.ite_none_left_eq_some.mp h).2)
    cases hf
  | fail x => exact (Option.ite_none_right_eq_some.mp h).1
  | failServed j => exact (Option.ite_none_right_eq_some.mp h).1
  | worker e =>
    cases e with
    | _ => cases h <;> cases hf
  | _ => cases h; cases hf

theorem Linked.failed_step {dropEveryN : Nat} {ch : RpcChannel} {a : Act}
    {act : Option (Call.Act Request)} {calls : Call.Calls Request} (h : Linked ch)
    (hact : ch.callAct dropEveryN a = .some act) (hcalls : stepCalls ch.calls act = .some calls)
    {x : Call.Answer Request} (hx : x ∈ calls.mail) (hf : x.failed = true) :
    ch.worker.verifyOutcome = true := by
  cases act with
  | none =>
    obtain rfl := Option.some.inj hcalls
    exact h.failed x hx hf
  | some act =>
    cases hfail : act.isFail with
    | false => exact h.failed x (Call.Calls.step_failed hcalls hfail hx hf) hf
    | true => exact verifyOutcome_of_isFail hact hfail

/-- **The reply that a requester receives** is one to its request, and the broker
has not made it unless that is a command. -/
theorem Linked.receive {dropEveryN : Nat} {ch ch' : RpcChannel} (h : Linked ch) {k : Nat}
    {x : Call.Answer Request} {elapsed : Int}
    (hs : ch.step dropEveryN (.receive k x elapsed) = .some ch') :
    ∃ rq node, ch.worker.requesters[k]? = .some rq ∧ rq.phase = .awaiting x.letter.call ∧
      x.letter.call.envelope.crcMismatch = false ∧ (x.failed = true → ch.worker.verifyOutcome = true) ∧
      ch'.calls.clients = Function.update ch.calls.clients k (.opened node) ∧
      ch'.worker = { ch.worker with
        base := ch.worker.base.accountReply ch.worker.verifyOutcome (replyOf ch.worker.verifyOutcome x)
          x.letter.call.correlation elapsed
        requesters := ch.worker.requesters.set k { rq with phase := .idle } } := by
  obtain ⟨act, calls, worker, hact, hcalls, hworker, rfl⟩ := step_eq_some.mp hs
  obtain rfl := Option.some.inj hact
  obtain ⟨rq, rq', base, hk, hm, rfl⟩ := RpcWorker.step_requester hworker
  have hagree := h.agree k
  rw [hk] at hagree
  cases hm with
  | @reply req hphase r elapsed =>
    cases hclient : ch.calls.clients k with
    | waiting node call =>
      simp only [stepCalls, Call.Calls.step, hclient] at hcalls
      obtain ⟨hx, hcalls⟩ := Option.ite_none_right_eq_some.mp hcalls
      obtain rfl := Option.some.inj hcalls
      have hletter := h.routed.mail_eq hclient hx
      rw [hclient] at hagree
      cases hagree with
      | awaiting hphase' intact =>
        obtain rfl := Phase.awaiting.inj (hphase.symm.trans hphase')
        rw [hletter]
        exact ⟨rq, node, hk, hphase, intact, h.failed x (List.mem_of_find?_eq_some hx), rfl, rfl⟩
    | closed => simp [stepCalls, Call.Calls.step, hclient] at hcalls
    | opened node => simp [stepCalls, Call.Calls.step, hclient] at hcalls

/-- **A step keeps requesters and nodes in agreement.** -/
theorem Linked.step {dropEveryN : Nat} {ch ch' : RpcChannel} {a : Act} (h : Linked ch)
    (hs : ch.step dropEveryN a = .some ch') : Linked ch' := by
  obtain ⟨act, calls, worker, hact, hcalls, hworker, rfl⟩ := step_eq_some.mp hs
  refine ⟨stepCalls_routed h.routed hcalls, ?_, fun x hx hf => ?_⟩
  case refine_2 => exact (stepWorker_verifyOutcome hworker).trans (h.failed_step hact hcalls hx hf)
  -- A step of a responder or of the broker leaves both sides as they are.
  have hkeep (hrq : worker.requesters = ch.worker.requesters)
      (hcl : calls.clients = ch.calls.clients) (k : Nat) :
      Agree worker.requesters[k]? (calls.clients k) := by
    rw [hrq, hcl]
    exact h.agree k
  cases a with
  | requester k e posted =>
    obtain ⟨he, rq, hk, rfl⟩ := callAct_requester hact
    obtain ⟨rq₀, rq', base, hk₀, hm, rfl⟩ := RpcWorker.step_requester hworker
    obtain rfl := Option.some.inj (hk.symm.trans hk₀)
    obtain ⟨client, hagree, hclients⟩ := agree_requester h hk hm he hcalls
    dsimp only
    rw [hclients]
    exact agree_set (List.getElem?_eq_some_iff.mp hk).1 h.agree hagree
  | receive k x elapsed =>
    obtain ⟨rq, node, hk, -, -, -, hclients, hw⟩ := h.receive hs
    dsimp only at hclients hw ⊢
    rw [hclients, hw]
    exact agree_set (List.getElem?_eq_some_iff.mp hk).1 h.agree (.idle rfl node)
  | take | loseRequest | loseReply =>
    obtain rfl := Option.some.inj hact
    obtain rfl := Option.some.inj hworker
    exact hkeep rfl (stepCalls_clients hcalls rfl)
  | drop j =>
    obtain ⟨count, -, hact⟩ := Option.bind_eq_some_iff.mp hact
    obtain rfl := Option.some.inj (Option.ite_none_right_eq_some.mp hact).2
    obtain rfl := Option.some.inj hworker
    exact hkeep rfl (stepCalls_clients hcalls rfl)
  | answer j o posted =>
    obtain ⟨count, -, hact⟩ := Option.bind_eq_some_iff.mp hact
    obtain rfl := Option.some.inj (Option.ite_none_left_eq_some.mp hact).2
    refine hkeep ?_ (stepCalls_clients hcalls rfl)
    cases o <;> exact Option.some.inj hworker ▸ rfl
  | fail | failServed =>
    obtain rfl := Option.some.inj (Option.ite_none_right_eq_some.mp hact).2
    obtain rfl := Option.some.inj hworker
    exact hkeep rfl (stepCalls_clients hcalls rfl)
  | worker e =>
    cases e with
    | startProducers =>
      obtain rfl := Option.some.inj hact
      obtain rfl := Option.some.inj hcalls
      obtain ⟨hnil, hworker⟩ := Option.ite_none_right_eq_some.mp hworker
      obtain rfl := Option.some.inj hworker
      intro k
      have hclosed := h.agree k
      rw [hnil] at hclosed
      dsimp only
      rw [List.getElem?_replicate]
      generalize ch.calls.clients k = client at hclosed ⊢
      cases hclosed with
      | gone =>
        split
        · exact .dialing rfl
        · exact .gone
    | stopProducers =>
      obtain rfl := Option.some.inj hact
      obtain rfl := Option.some.inj hcalls
      obtain rfl := Option.some.inj hworker
      exact fun _ => .gone
    | requester k e => cases hact
    | _ =>
      obtain rfl := Option.some.inj hact
      obtain rfl := Option.some.inj hcalls
      obtain rfl := Option.some.inj hworker
      exact hkeep rfl rfl

/-- The runs of a channel whose responders were started. -/
def Runs (c : RunnableConfig) (idx : Nat) (pat : RpcPattern) (H : List Act) (ch : RpcChannel) : Prop :=
  exec (step pat.dropEveryN) (start c idx pat) H = .some ch

theorem linked_of_runs {c : RunnableConfig} {idx : Nat} {pat : RpcPattern} {H : List Act}
    {ch : RpcChannel} (h : Runs c idx pat H ch) : Linked ch :=
  invariant (linked_start c idx pat) (fun _ _ _ hl hs => hl.step hs) h

theorem verifyOutcome_of_runs {c : RunnableConfig} {idx : Nat} {pat : RpcPattern} {H : List Act}
    {ch : RpcChannel} (h : Runs c idx pat H ch) :
    ch.worker.verifyOutcome = decide (pat = .commands) := by
  refine invariant (I := fun ch => ch.worker.verifyOutcome = decide (pat = .commands)) ?_
    (fun ch a ch' ih hs => ?_) h
  · cases pat <;> rfl
  · obtain ⟨act, calls, worker, -, -, hworker, rfl⟩ := step_eq_some.mp hs
    exact (stepWorker_verifyOutcome hworker).trans ih

/-! ## What is counted -/

/-- A `Send` or a `Receive` fails. -/
def Act.isFailure : Act → Bool
  | .requester _ (.request .failed) _ | .requester _ .replyFailed _ => true
  | _ => false

/-- A requester is given the broker's reply to a command that was not executed. -/
def Act.isUnexecuted : Act → Bool
  | .receive _ x _ => x.failed
  | _ => false

/-- No reply comes in time. -/
def Act.isTimeout : Act → Bool
  | .requester _ .timeout _ => true
  | _ => false

/-- A requester is given the reply of a responder. -/
def Act.isReply : Act → Bool
  | .receive _ x _ => !x.failed
  | _ => false

def Act.isReset : Act → Bool
  | .worker .resetAfterWarmup => true
  | _ => false

/-- The actions since the last reset. -/
def measured (H : List Act) : List Act := H.rtakeWhile fun a => !a.isReset

/-- The RPC counters of a worker are those of the actions `H`, and it has found
nothing wrong with a reply of a responder. -/
structure Tallied (H : List Act) (b : BaseWorker) : Prop where
  errors : b.rpcErrorCount = H.countP Act.isFailure + H.countP Act.isUnexecuted
  timeouts : b.rpcTimeoutCount = H.countP Act.isTimeout
  successes : b.rpcSuccessCount = H.countP Act.isReply
  corrupted : b.corrupted = 0
  fidelityFails : b.fidelityFails = 0

/-- What one action adds. -/
structure Adds (a : Act) (b b' : BaseWorker) : Prop where
  errors : b'.rpcErrorCount = b.rpcErrorCount + a.isFailure.toNat + a.isUnexecuted.toNat
  timeouts : b'.rpcTimeoutCount = b.rpcTimeoutCount + a.isTimeout.toNat
  successes : b'.rpcSuccessCount = b.rpcSuccessCount + a.isReply.toNat
  corrupted : b'.corrupted = b.corrupted
  fidelityFails : b'.fidelityFails = b.fidelityFails

theorem Tallied.snoc {H : List Act} {a : Act} {b b' : BaseWorker} (h : Tallied H b) (ha : Adds a b b') :
    Tallied (H ++ [a]) b' := by
  have hcount (p : Act → Bool) : (H ++ [a]).countP p = H.countP p + (p a).toNat := by
    rw [List.countP_append, List.countP_singleton]
    cases p a <;> rfl
  refine ⟨?_, ?_, ?_, ha.corrupted.trans h.corrupted, ha.fidelityFails.trans h.fidelityFails⟩
  · rw [hcount, hcount, ha.errors, h.errors]
    omega
  · rw [hcount, ha.timeouts, h.timeouts]
  · rw [hcount, ha.successes, h.successes]

/-- A responder's reply to the request is a success, since its envelope is
intact; the broker's reply to a command is an error. -/
theorem adds_receive {k : Nat} {x : Call.Answer Request} {elapsed : Int} (b : BaseWorker)
    (withOutcome : Bool) (intact : x.letter.call.envelope.crcMismatch = false)
    (hf : x.failed = true → withOutcome = true) :
    Adds (.receive k x elapsed) b
      (b.accountReply withOutcome (replyOf withOutcome x) x.letter.call.correlation elapsed) := by
  obtain ⟨x, failed⟩ := x
  dsimp only at intact
  cases failed with
  | true =>
    obtain rfl := hf rfl
    have hunaccounted : ¬BaseWorker.Accounted true (failedReply x.call) x.call.correlation := fun h =>
      Bool.false_ne_true (h.2 rfl)
    rw [BaseWorker.accountReply_eq, replyOf, if_pos rfl, if_neg hunaccounted]
    exact ⟨rfl, rfl, rfl, rfl, rfl⟩
  | false =>
    have haccounted : BaseWorker.Accounted withOutcome
        (buildReply withOutcome x.call) x.call.correlation := ⟨rfl, id⟩
    rw [BaseWorker.accountReply_eq, replyOf, if_neg Bool.false_ne_true, if_pos haccounted]
    obtain ⟨trk, duplicated, htracked⟩ :=
      BaseWorker.recordTracked_fields b x.call.envelope.producerID x.call.envelope.seq
    have henvelope : b.recordEnvelope (buildReply withOutcome x.call).envelope =
        { b with trk, duplicated } := by
      simp only [buildReply, BaseWorker.recordEnvelope, intact, Bool.false_eq_true, if_false]
      exact htracked
    rw [henvelope]
    exact ⟨rfl, rfl, rfl, rfl, rfl⟩

/-- **Everything an action does to the RPC counters.** -/
theorem Linked.adds {dropEveryN : Nat} {ch ch' : RpcChannel} {a : Act} (h : Linked ch)
    (hs : ch.step dropEveryN a = .some ch') (ha : a.isReset = false) :
    Adds a ch.worker.base ch'.worker.base := by
  obtain ⟨act, calls, worker, hact, -, hworker, hch⟩ := step_eq_some.mp hs
  cases a with
  | requester k e posted =>
    obtain ⟨he, -⟩ := callAct_requester hact
    obtain ⟨rq, rq', base, -, hm, rfl⟩ := RpcWorker.step_requester hworker
    subst hch
    cases hm with
    | request h o => cases o <;> exact ⟨rfl, rfl, rfl, rfl, rfl⟩
    | reply h r elapsed => exact absurd rfl (he r elapsed)
    | _ => exact ⟨rfl, rfl, rfl, rfl, rfl⟩
  | receive k x elapsed =>
    obtain ⟨rq, node, -, -, intact, hf, -, hw⟩ := h.receive hs
    rw [hw]
    exact adds_receive _ _ intact hf
  | answer j o posted =>
    subst hch
    cases o <;> obtain rfl := Option.some.inj hworker <;> exact ⟨rfl, rfl, rfl, rfl, rfl⟩
  | worker e =>
    subst hch
    cases e with
    | startProducers =>
      obtain rfl := Option.some.inj (Option.ite_none_right_eq_some.mp hworker).2
      exact ⟨rfl, rfl, rfl, rfl, rfl⟩
    | requester k e => cases hact
    | resetAfterWarmup => cases ha
    | _ =>
      obtain rfl := Option.some.inj hworker
      exact ⟨rfl, rfl, rfl, rfl, rfl⟩
  | _ =>
    subst hch
    obtain rfl := Option.some.inj hworker
    exact ⟨rfl, rfl, rfl, rfl, rfl⟩

theorem tallied_of_runs {c : RunnableConfig} {idx : Nat} {pat : RpcPattern} {H : List Act}
    {ch : RpcChannel} (hrun : Runs c idx pat H ch) : Tallied (measured H) ch.worker.base := by
  refine exec_rec (P := fun H ch => Tallied (measured H) ch.worker.base) ?_
    (fun H ch a ch' hch ih hs => ?_) hrun
  · cases pat <;> exact ⟨rfl, rfl, rfl, rfl, rfl⟩
  · rw [measured, List.rtakeWhile_concat]
    cases ha : a.isReset with
    | false =>
      simp only [Bool.not_false, if_true]
      exact ih.snoc ((linked_of_runs hch).adds hs ha)
    | true =>
      simp only [Bool.not_true, Bool.false_eq_true, if_false]
      obtain ⟨act, calls, worker, -, -, hworker, rfl⟩ := step_eq_some.mp hs
      cases a with
      | worker e =>
        cases e with
        | resetAfterWarmup =>
          obtain rfl := Option.some.inj hworker
          exact ⟨rfl, rfl, rfl, rfl, rfl⟩
        | _ => cases ha
      | _ => cases ha

/-- No requester of queries is given a reply of the broker's own. -/
theorem commands_of_isUnexecuted {c : RunnableConfig} {idx : Nat} {pat : RpcPattern} {H : List Act}
    {ch : RpcChannel} (hrun : Runs c idx pat H ch) :
    ∀ a ∈ H, a.isUnexecuted = true → pat = .commands := by
  refine exec_rec (P := fun H _ => ∀ a ∈ H, a.isUnexecuted = true → pat = .commands)
    (fun a ha => by cases ha) (fun H ch a ch' hch ih hs a' ha' hu => ?_) hrun
  rcases List.mem_append.mp ha' with ha' | ha'
  · exact ih a' ha' hu
  · obtain rfl := List.mem_singleton.mp ha'
    cases a' with
    | receive k x elapsed =>
      obtain ⟨-, -, -, -, -, hf, -⟩ := (linked_of_runs hch).receive hs
      exact of_decide_eq_true ((verifyOutcome_of_runs hch).symm.trans (hf hu))
    | _ => cases hu

/-- The first request of a requester of commands. -/
def firstRequest : Request := ({} : RpcRequester).nextRequest (channel .commands 1)

/-- Two requesters send requests of one correlation-id. The first does not wait
long enough, and its reply comes after it has sent another. The request of the
second fails at the broker while the responder has it, and the responder's
reply comes too late. -/
def lateReplyRun : List Act :=
  [.worker .startProducers, .requester 0 .connected false, .requester 1 .connected false,
    .requester 0 (.request .accepted) true, .requester 1 (.request .accepted) true,
    .take 0 ⟨0, firstRequest⟩,
    .requester 0 .timeout false, .requester 0 .connected false, .requester 0 (.request .accepted) true,
    .answer 0 .accepted true, .take 0 ⟨1, firstRequest⟩, .failServed 0,
    .receive 1 ⟨⟨1, firstRequest⟩, true⟩ 5, .answer 0 .accepted true]

end RpcChannel
end Burnin
