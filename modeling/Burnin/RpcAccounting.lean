/-
The RPC counters of a worker add up (`rpc_conserved`): between `StartProducers`
and the return of `StopProducers` every request that was sent, or failed to be,
is counted as a success, a timeout or an error, but for at most one that each
requester had in flight when it was cancelled.

A requester owes the outcome of the request it awaits (`Owes`). What one step
adds to the two sides of the account is the change in what its requester owes
(`RpcRequester.Moves.balance`), so over a run the difference is what they all
owe together (`Balanced`).
-/
import Mathlib.Algebra.BigOperators.Group.Finset.Basic
import Mathlib.Algebra.Order.BigOperators.Group.Finset
import Mathlib.Algebra.Order.Ring.Int
import Burnin.RpcFacts

namespace Burnin

open Machine

/-- The requests whose outcome is counted. -/
def BaseWorker.resolved (b : BaseWorker) : Nat := b.rpcSuccessCount + b.rpcTimeoutCount + b.rpcErrorCount

/-- How many outcomes a requester owes: one for the request it awaits. When it
has returned it may have done so while it awaited one. -/
inductive Owes : Phase → Nat → Prop
  | dialing : Owes .dialing 0
  | idle : Owes .idle 0
  | awaiting (req : Request) : Owes (.awaiting req) 1
  | returned {n : Nat} (h : n ≤ 1) : Owes .returned n

theorem Owes.le_one {phase : Phase} {n : Nat} (h : Owes phase n) : n ≤ 1 := by
  cases h with
  | returned h => exact h
  | _ => decide

/-- Whether the step is a `Send` that failed, with `send_failure` recorded. -/
def RpcRequester.Event.failedSend : RpcRequester.Event → Nat
  | .request .failed => 1
  | _ => 0

namespace BaseWorker

theorem recordTracked_fields (b : BaseWorker) (p : String) (seq : UInt64) :
    ∃ trk duplicated, b.recordTracked p seq = { b with trk, duplicated } := by
  unfold recordTracked
  dsimp only
  split <;> exact ⟨_, _, rfl⟩

theorem recordEnvelope_fields (b : BaseWorker) (m : Option Envelope) :
    ∃ trk duplicated corrupted fidelityFails,
      b.recordEnvelope m = { b with trk, duplicated, corrupted, fidelityFails } := by
  cases m with
  | none => exact ⟨_, _, _, _, rfl⟩
  | some m =>
    dsimp only [recordEnvelope]
    obtain ⟨trk, duplicated, h⟩ :=
      recordTracked_fields (if m.crcMismatch then b.recordCorrupted else b) m.producerID m.seq
    rw [h]
    cases m.crcMismatch <;> exact ⟨_, _, _, _, rfl⟩

theorem accountReply_resolved (b : BaseWorker) (verifyOutcome : Bool) (reply : Reply) (wantCorr : String)
    (elapsed : Int) :
    (b.accountReply verifyOutcome reply wantCorr elapsed).sent = b.sent ∧
      (b.accountReply verifyOutcome reply wantCorr elapsed).resolved = b.resolved + 1 ∧
      (b.accountReply verifyOutcome reply wantCorr elapsed).rpcSuccessCount =
        b.rpcSuccessCount + (if Accounted verifyOutcome reply wantCorr then 1 else 0) := by
  rw [accountReply_eq]
  split
  · obtain ⟨_, _, _, _, h⟩ := b.recordEnvelope_fields reply.envelope
    rw [h]
    refine ⟨rfl, ?_, rfl⟩
    simp only [resolved, recordRPCSuccess, recordReceived]
    omega
  · exact ⟨rfl, rfl, rfl⟩

end BaseWorker

namespace RpcRequester

/-- **What one step of a requester does to the account.** -/
theorem Moves.balance {verifyOutcome : Bool} {rq rq' : RpcRequester} {b b' : BaseWorker} {e : Event}
    (h : rq.Moves verifyOutcome b e rq' b') {n : Nat} (hn : Owes rq.phase n) :
    (∃ n', Owes rq'.phase n' ∧ b'.sent + e.failedSend + b.resolved + n = b.sent + b'.resolved + n') ∧
      b'.received + b.rpcSuccessCount = b.received + b'.rpcSuccessCount := by
  cases h with
  | connected h =>
    rw [h] at hn
    cases hn
    exact ⟨⟨0, .idle, rfl⟩, rfl⟩
  | connectFailed h => exact ⟨⟨n, hn, rfl⟩, rfl⟩
  | request h o =>
    rw [h] at hn
    cases hn
    cases o with
    | accepted =>
      refine ⟨⟨1, .awaiting _, ?_⟩, rfl⟩
      simp only [send, BaseWorker.recordSent, BaseWorker.resolved, Event.failedSend]
      omega
    | failed =>
      refine ⟨⟨0, .dialing, ?_⟩, rfl⟩
      simp only [send, BaseWorker.recordError, BaseWorker.recordRPCError, BaseWorker.resolved,
        Event.failedSend]
      omega
    | cancelled => exact ⟨⟨0, .returned (by decide), rfl⟩, rfl⟩
  | @reply req h r elapsed =>
    rw [h] at hn
    cases hn
    obtain ⟨h1, h2, h3⟩ := b.accountReply_resolved verifyOutcome r req.correlation elapsed
    obtain ⟨-, h4⟩ := b.accountReply_counts verifyOutcome r req.correlation elapsed
    refine ⟨⟨0, .idle, ?_⟩, ?_⟩
    · simp only [h1, h2, Event.failedSend]
      omega
    · rw [h3, h4]
      omega
  | timeout h =>
    rw [h] at hn
    cases hn
    refine ⟨⟨0, .dialing, ?_⟩, rfl⟩
    simp only [BaseWorker.recordRPCTimeout, BaseWorker.resolved, Event.failedSend]
    omega
  | replyFailed h =>
    rw [h] at hn
    cases hn
    refine ⟨⟨0, .dialing, ?_⟩, rfl⟩
    simp only [BaseWorker.recordRPCError, BaseWorker.resolved, Event.failedSend]
    omega
  | cancelled h => exact ⟨⟨n, .returned hn.le_one, rfl⟩, rfl⟩

end RpcRequester

namespace RpcWorker

def Event.failedSend : Event → Nat
  | .requester _ e => e.failedSend
  | _ => 0

/-- The requests of a run whose `Send` failed. -/
def failedSends (es : List Event) : Nat := (es.map Event.failedSend).sum

theorem failedSends_snoc (es : List Event) (e : Event) :
    failedSends (es ++ [e]) = failedSends es + e.failedSend := by
  simp [failedSends]

/-- The account after the run `es` of a window that began in `w₀`, when
requester `k` owes `owed k`. -/
structure Balanced (w₀ : RpcWorker) (es : List Event) (w : RpcWorker) (owed : Nat → Nat) : Prop where
  length : w.requesters.length = w₀.senders
  owes : ∀ k, ∀ rq ∈ w.requesters[k]?, Owes rq.phase (owed k)
  sum : w.base.sent + failedSends es + w₀.base.resolved =
    w₀.base.sent + w.base.resolved + ∑ k ∈ Finset.range w₀.senders, owed k
  received : w.base.received + w₀.base.rpcSuccessCount = w₀.base.received + w.base.rpcSuccessCount

theorem Balanced.requester {w₀ w w' : RpcWorker} {es : List Event} {owed : Nat → Nat}
    (h : Balanced w₀ es w owed) {k : Nat} {e : RpcRequester.Event}
    (hs : w.step (.requester k e) = .some w') :
    ∃ owed', Balanced w₀ (es ++ [.requester k e]) w' owed' := by
  obtain ⟨rq, rq', base, hk, hm, rfl⟩ := step_requester hs
  obtain ⟨⟨n', hn', hsum⟩, hreceived⟩ := hm.balance (h.owes k rq hk)
  have hlt : k < w₀.senders := h.length ▸ (List.getElem?_eq_some_iff.mp hk).1
  refine ⟨Function.update owed k n', ?_, fun j rq₁ hj => ?_, ?_, ?_⟩
  · rw [List.length_set]
    exact h.length
  · simp only [Option.mem_def, List.getElem?_set] at hj
    by_cases hkj : k = j
    · subst hkj
      rw [Function.update_self]
      simp only [if_true] at hj
      split at hj
      · exact Option.some.inj hj ▸ hn'
      · cases hj
    · rw [Function.update_of_ne fun h => hkj h.symm]
      rw [if_neg hkj] at hj
      exact h.owes j rq₁ hj
  · have hmem := Finset.mem_range.mpr hlt
    have hsplit := Finset.add_sum_erase (Finset.range w₀.senders) owed hmem
    have := h.sum
    rw [failedSends_snoc, Finset.sum_update_of_mem hmem, Finset.sdiff_singleton_eq_erase]
    simp only [Event.failedSend]
    omega
  · have := h.received
    simp only
    omega

theorem Balanced.keep {w₀ w w' : RpcWorker} {es : List Event} {e : Event} {owed : Nat → Nat}
    (h : Balanced w₀ es w owed) (hrq : w'.requesters = w.requesters) (hsent : w'.base.sent = w.base.sent)
    (hresolved : w'.base.resolved = w.base.resolved) (hreceived : w'.base.received = w.base.received)
    (hsuccess : w'.base.rpcSuccessCount = w.base.rpcSuccessCount) (hf : e.failedSend = 0) :
    Balanced w₀ (es ++ [e]) w' owed :=
  ⟨hrq ▸ h.length, hrq ▸ h.owes, by rw [failedSends_snoc, hf, hsent, hresolved]; exact h.sum,
    by rw [hreceived, hsuccess]; exact h.received⟩

/-- **The account of a window.** -/
theorem balanced_run {w₀ w₁ w : RpcWorker} (hstart : w₀.step .startProducers = .some w₁)
    {es : List Event} (hin : ∀ e ∈ es, e.inWindow = true) (hrun : exec step w₁ es = .some w) :
    ∃ owed, Balanced w₀ es w owed := by
  refine exec_rec (P := fun es w => (∀ e ∈ es, e.inWindow = true) →
    ∃ owed, Balanced w₀ es w owed) ?_ ?_ hrun hin
  · intro _
    simp only [step] at hstart
    split at hstart
    · cases hstart
      refine ⟨fun _ => 0, List.length_replicate, fun k rq hrq => ?_, ?_, rfl⟩
      · rw [Option.mem_def, List.getElem?_replicate] at hrq
        split at hrq
        · exact Option.some.inj hrq ▸ .dialing
        · cases hrq
      · simp [failedSends]
    · cases hstart
  · intro es w e w' _ ih hstep hin
    obtain ⟨owed, h⟩ := ih fun e he => hin e (List.mem_append_left _ he)
    have he := hin e (by simp)
    cases e with
    | startProducers => cases he
    | stopProducers => cases he
    | resetAfterWarmup => cases he
    | requester k e => exact h.requester hstep
    | _ =>
      cases hstep
      exact ⟨owed, h.keep rfl rfl rfl rfl rfl rfl⟩

/-- **RPC accounting is conserved.** From `StartProducers` to the return of
`StopProducers`, whatever the interleaving of the requesters and the outcomes:
what was sent or failed to be, less what is counted as a success, a timeout or
an error, is between 0 and the number of requesters, and what was received are
the successes. -/
theorem rpc_conserved {w₀ w₁ w₂ w₃ : RpcWorker} (hstart : w₀.step .startProducers = .some w₁)
    {es : List Event} (hin : ∀ e ∈ es, e.inWindow = true) (hrun : exec step w₁ es = .some w₂)
    (hstop : w₂.step .stopProducers = .some w₃) :
    let balance : ℤ := (w₃.base.sent - w₀.base.sent) +
      failedSends es - (w₃.base.resolved - w₀.base.resolved)
    0 ≤ balance ∧ balance ≤ w₀.senders ∧
      (w₃.base.received - w₀.base.received : ℤ) = w₃.base.rpcSuccessCount - w₀.base.rpcSuccessCount := by
  obtain ⟨owed, h⟩ := balanced_run hstart hin hrun
  obtain rfl : _ = w₃ := Option.some.inj hstop
  have hle : ∑ k ∈ Finset.range w₀.senders, owed k ≤ w₀.senders := by
    have hone : ∀ k ∈ Finset.range w₀.senders, owed k ≤ 1 := fun k hk => by
      have hlt : k < w₂.requesters.length := h.length.symm ▸ Finset.mem_range.mp hk
      exact (h.owes k _ (List.getElem?_eq_getElem hlt)).le_one
    simpa using Finset.sum_le_card_nsmul _ _ 1 hone
  have hsum := h.sum
  have hreceived := h.received
  refine ⟨?_, ?_, ?_⟩
  · simp only
    omega
  · simp only
    omega
  · simp only
    omega

/-- A `Send` fails, and a request is cut short. -/
def cutShort : List Event :=
  [.requester 0 .connected, .requester 0 (.request .failed), .requester 0 .connected,
    .requester 0 (.request .accepted), .requester 0 .cancelled]

theorem rpc_conserved_cutShort :
    ∃ w₁ w₂ w₃, (new smallWindow 1 .commands).step .startProducers = .some w₁ ∧
      (∀ e ∈ cutShort, e.inWindow = true) ∧ exec step w₁ cutShort = .some w₂ ∧
      w₂.step .stopProducers = .some w₃ ∧
      (w₃.base.received - (new smallWindow 1 .commands).base.received : ℤ) =
        w₃.base.rpcSuccessCount - (new smallWindow 1 .commands).base.rpcSuccessCount := by
  have hin : ∀ e ∈ cutShort, e.inWindow = true := by decide
  exact ⟨_, _, _, rfl, hin, rfl, rfl, (rpc_conserved rfl hin rfl rfl).2.2⟩

end RpcWorker

end Burnin
