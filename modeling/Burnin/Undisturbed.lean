/-
No false alarm: the verdict of a run in which nothing went wrong.

A channel is undisturbed when no attempt, delivery or reply of the measurement
fails, and every message is delivered once, in an order that the reorder window
allows. What the six workers count of such channels, what the snapshots make of
it and what the gates make of those is put together here: all gates but those
of latency and throughput are passed (`undisturbed_passes_iff`).

Two things a healthy broker does not ensure are part of it. A subscriber of
events and the durable subscriber of an events_store must not have missed a
message before the measurement either, since no reset reaches their trackers;
and an RPC channel must have one requester, since several stamp the same
sequences.
-/
import Burnin.Counting
import Burnin.Loss
import Burnin.TrackerReorder

namespace Burnin

open Machine

/-! ## What a worker counts -/

namespace BaseWorker

/-- All that a worker has counted of what no run should have. -/
def faults (b : BaseWorker) : Nat :=
  b.corrupted + b.fidelityFails + b.eventsDropped + b.errors + b.downtime + b.rpcTimeoutCount +
    b.rpcErrorCount

theorem faults_inspect (b : BaseWorker) {m : Envelope} (h : m.crcMismatch = false) :
    (b.inspect m).faults = b.faults := by
  unfold inspect
  rw [h]
  cases m.latency <;> rfl

theorem faults_recordTracked (b : BaseWorker) (p : String) (seq : UInt64) :
    (b.recordTracked p seq).faults = b.faults := by
  unfold recordTracked
  dsimp only
  split <;> rfl

theorem faults_recordSub (b : BaseWorker) (st : SubTracker) (seq : UInt64) :
    (b.recordSub st seq).1.faults = b.faults := by
  unfold recordSub
  dsimp only
  split <;> rfl

theorem faults_recordReceived (b : BaseWorker) : b.recordReceived.faults = b.faults := rfl

end BaseWorker

namespace Worker

/-- What can happen to a worker when nothing goes wrong. -/
def Event.Quiet : Event → Prop
  | .send o => o ≠ .failed
  | .deliver _ _ crcMismatch _ => crcMismatch = false
  | .untracked _ | .error | .stalled | .fidelityGap _ => False
  | .reconnected | .tick | .detectGaps | .resetAfterWarmup => True

theorem faults_handle (w : Worker) (sub : Nat) {m : Envelope} (h : m.crcMismatch = false) :
    (w.handle sub (.some m)).base.faults = w.base.faults := by
  have hinspect := w.base.faults_inspect h
  unfold handle
  cases w.detectors with
  | none =>
    dsimp only [BaseWorker.handleDelivery]
    rw [BaseWorker.faults_recordReceived, BaseWorker.faults_recordTracked, hinspect]
  | subTrackers ts =>
    dsimp only
    cases ts[sub]? with
    | none => rfl
    | some st =>
      dsimp only [BaseWorker.drainSub]
      rw [BaseWorker.faults_recordReceived, BaseWorker.faults_recordSub, hinspect]
  | storeTrk st =>
    dsimp only [BaseWorker.handleStoreDelivery]
    rw [BaseWorker.faults_recordReceived, BaseWorker.faults_recordTracked,
      BaseWorker.faults_recordSub, hinspect]

theorem faults_step (w : Worker) {e : Event} (h : e.Quiet) : (w.step e).base.faults ≤ w.base.faults := by
  cases e with
  | send o =>
    cases o with
    | failed => exact absurd rfl h
    | _ => exact Nat.le_refl _
  | deliver sub seq crcMismatch latency =>
    exact Nat.le_of_eq (w.faults_handle sub (m := ⟨w.base.channelName, seq, crcMismatch, latency⟩) h)
  | resetAfterWarmup => exact Nat.zero_le _
  | reconnected | tick | detectGaps => exact Nat.le_refl _
  | untracked sub | error | stalled | fidelityGap delta => exact h.elim

theorem faults_after {c : RunnableConfig} {idx : Nat} {pat : Pattern} {es : List Event}
    (h : ∀ e ∈ measured es, e.Quiet) : ((new c idx pat).after es).base.faults = 0 := by
  induction es using List.reverseRecOn with
  | nil => cases pat <;> rfl
  | append_singleton es e ih =>
    rw [measured_snoc] at h
    rw [after_snoc]
    split at h
    · next he =>
      rw [he]
      rfl
    · have hes := ih fun e' he' => h e' (List.mem_append_left _ he')
      have hle := ((new c idx pat).after es).faults_step (h e (by simp))
      omega

/-- No message is delivered twice, and none out of the order that the reorder
window allows. -/
structure Unrepeated (c : RunnableConfig) (idx : Nat) (pat : Pattern) (es : List Event) : Prop where
  tracked : pat ≠ .events → (deliveries (measured es)).Nodup ∧
    BoundedReorder c.window (channel pat.name idx) (trackerCalls (channel pat.name idx) es)
  fannedOut : pat = .events → ∀ sub < subscribers c, (deliveriesTo sub es).Nodup
  stored : pat = .eventsStore → (deliveries es).Nodup

theorem nodup_snoc_option {l : List UInt64} {o : Option UInt64} (h : (l ++ o.toList).Nodup) {x : UInt64}
    (hx : o = .some x) : x ∉ l := by
  rw [hx] at h
  intro hm
  exact (List.nodup_append.mp h).2.2 x hm x (by simp) rfl

theorem Unrepeated.of_snoc {c : RunnableConfig} {idx : Nat} {pat : Pattern} {es : List Event} {e : Event}
    (h : Unrepeated c idx pat (es ++ [e])) (he : e ≠ .resetAfterWarmup) : Unrepeated c idx pat es where
  tracked := by
    intro hp
    obtain ⟨hnodup, hb⟩ := h.tracked hp
    rw [measured_snoc, if_neg he, deliveries_snoc] at hnodup
    rw [trackerCalls_snoc, if_neg he] at hb
    exact ⟨hnodup.of_append_left, Past.Always.of_prefix hb (List.prefix_append _ _)⟩
  fannedOut := by
    intro hp sub hsub
    have hnodup := h.fannedOut hp sub hsub
    rw [deliveriesTo_snoc] at hnodup
    exact hnodup.of_append_left
  stored := by
    intro hp
    have hnodup := h.stored hp
    rw [deliveries_snoc] at hnodup
    exact hnodup.of_append_left

theorem Unrepeated.repeated {c : RunnableConfig} {idx : Nat} {pat : Pattern}
    {es : List Event} {e : Event} (h : Unrepeated c idx pat (es ++ [e])) :
    ((new c idx pat).after es).repeated e = 0 := by
  cases e with
  | deliver sub seq crcMismatch latency =>
    have hne : Event.deliver sub seq crcMismatch latency ≠ .resetAfterWarmup := by simp
    have htrk (hp : pat ≠ .events) : (((new c idx pat).after es).base.trk.record
        ((new c idx pat).after es).base.channelName seq).2.isDuplicate = false := by
      have hname : ((new c idx pat).after es).base.channelName = channel pat.name idx := by
        rw [channelName_after]
        cases pat <;> rfl
      obtain ⟨hnodup, hb⟩ := h.tracked hp
      rw [measured_snoc, if_neg hne, deliveries_snoc] at hnodup
      rw [trackerCalls_snoc, if_neg hne] at hb
      rw [hname, trk_after hp, Bool.eq_false_iff, ne_eq, hb.isDuplicate_iff, record_mem_trackerCalls]
      exact fun hm => nodup_snoc_option hnodup rfl hm.2
    cases pat with
    | queues | creditFlow =>
      rw [Worker.repeated, repeats, detectors_after]
      exact congrArg Bool.toNat (htrk (by decide))
    | events =>
      rw [Worker.repeated, repeats, detectors_after]
      dsimp only [detectorsOf]
      rw [List.getElem?_map]
      by_cases hk : sub < subscribers c
      · have hnodup := h.fannedOut rfl sub hk
        rw [deliveriesTo_snoc] at hnodup
        have hnew := nodup_snoc_option hnodup (x := seq) (by rw [Event.deliveredTo, if_pos rfl])
        rw [List.getElem?_range hk]
        exact congrArg Bool.toNat (SubTracker.record_of_notMem hnew)
      · rw [List.getElem?_eq_none (by simpa using hk)]
        rfl
    | eventsStore =>
      have hnodup := h.stored rfl
      rw [deliveries_snoc] at hnodup
      have hsub := SubTracker.record_of_notMem (nodup_snoc_option hnodup (x := seq) rfl)
      rw [Worker.repeated, repeats, detectors_after]
      exact congrArg₂ (fun a b : Bool => a.toNat + b.toNat) hsub (htrk (by decide))
  | _ => rfl

/-- **Unrepeated deliveries** count no duplicate. -/
theorem Unrepeated.duplicated {c : RunnableConfig} {idx : Nat} {pat : Pattern} {es : List Event}
    (h : Unrepeated c idx pat es) : ((new c idx pat).after es).base.duplicated = 0 := by
  induction es using List.reverseRecOn with
  | nil => cases pat <;> rfl
  | append_singleton es e ih =>
    rw [after_snoc]
    by_cases he : e = .resetAfterWarmup
    · rw [he]
      rfl
    · have hes := ih (h.of_snoc he)
      have hstep := ((new c idx pat).after es).step_counted e
      rw [h.repeated] at hstep
      cases hstep with
      | cleared _ hd _ => exact hd
      | same _ hd _ => exact hd.trans hes
      | receipt hd _ => exact hd.trans hes

/-- A channel of a worker with a producer loop on which nothing goes wrong. -/
structure Undisturbed (c : RunnableConfig) (idx : Nat) (pat : Pattern) (es : List Event) : Prop
    extends Unrepeated c idx pat es where
  quiet : ∀ e ∈ measured es, e.Quiet
  complete : pat = .events → ∀ sub < subscribers c, SubTracker.gaps (deliveriesTo sub es) = ∅
  resumed : pat = .eventsStore → SubTracker.gaps (deliveries es) = ∅

end Worker

/-- What the snapshot reads of a worker that has counted nothing amiss. -/
structure Flawless (name : WorkerName) (w : Worker) : Prop where
  faults : w.base.faults = 0
  duplicated : w.base.duplicated = 0
  lost : name.isRPCWorker = false → w.base.trk.totalLost = 0
  extraLost : w.extraLost = 0

namespace Worker

theorem Undisturbed.totalLost {c : RunnableConfig} {idx : Nat} {pat : Pattern} {es : List Event}
    (h : Undisturbed c idx pat es) : ((new c idx pat).after es).base.trk.totalLost = 0 := by
  by_cases hp : pat = .events
  · subst hp
    rw [Tracker.totalLost, Tracker.sum, trk_after_events]
    rfl
  · have hnone : suspects c idx pat es = ∅ := by
      refine Set.eq_empty_of_forall_notMem ?_
      intro q hq
      have hb := boundedReorder_iff_gap.mp (h.tracked hp).2
      exact hb.not_suspected (suspected_iff_gap.mp hq)
    rw [totalLost_after hp, hnone, Set.ncard_empty]

theorem Undisturbed.extraLost {c : RunnableConfig} {idx : Nat} {pat : Pattern} {es : List Event}
    (h : Undisturbed c idx pat es) : ((new c idx pat).after es).extraLost = 0 := by
  have hcomplete {seqs : List UInt64} (hs : SubTracker.gaps seqs = ∅) : SubTracker.Complete seqs := by
    rw [SubTracker.Complete, hs, Finset.card_empty]
    exact Nat.zero_le _
  rw [extraLost_eq_zero_iff]
  cases pat with
  | events => exact fun sub hsub => hcomplete (h.complete rfl sub hsub)
  | eventsStore => exact hcomplete (h.resumed rfl)
  | queues | creditFlow => trivial

/-- **An undisturbed channel** leaves a flawless worker. -/
theorem Undisturbed.flawless {c : RunnableConfig} {idx : Nat} {pat : Pattern} {es : List Event}
    (h : Undisturbed c idx pat es) : Flawless pat.name ((new c idx pat).after es) where
  faults := faults_after h.quiet
  duplicated := h.toUnrepeated.duplicated
  lost := fun _ => h.totalLost
  extraLost := h.extraLost

end Worker

/-! ## What an RPC worker counts -/

namespace RpcWorker

/-- What can happen in a window, beside requests and replies, when nothing goes
wrong. -/
def Event.quiet : Event → Bool
  | .error | .requester _ .connectFailed => false
  | _ => true

/-- What can happen from the end of the window, where the requesters are cancelled,
to the snapshot. -/
def Event.closing : Event → Bool
  | .stopProducers | .reconnected | .tick | .detectGaps => true
  | .requester _ .cancelled | .requester _ (.request .cancelled) => true
  | _ => false

/-- A channel of an RPC worker on which nothing goes wrong: after any warmup, its
one requester gets a correct reply to every request, until it is stopped. -/
def Undisturbed (c : RunnableConfig) (idx : Nat) (pat : RpcPattern) (es : List Event) : Prop :=
  sendersOf c pat.name = 1 ∧ ∃ warm body tail w, es = (warm ++ windowOpens) ++ (body ++ tail) ∧
    exec step (new c idx pat) (warm ++ windowOpens) = .some w ∧ body.length < 2 ^ 64 ∧ Answered w body ∧
    (∀ e ∈ body, e.inWindow = true ∧ e.quiet = true) ∧ ∀ e ∈ tail, e.closing = true

theorem faults_accountReply (b : BaseWorker) (verifyOutcome : Bool) (req : Request) (elapsed : Int)
    (h : req.envelope.crcMismatch = false) :
    (b.accountReply verifyOutcome (buildReply verifyOutcome req) req.correlation elapsed).faults =
      b.faults := by
  have hacc : BaseWorker.Accounted verifyOutcome (buildReply verifyOutcome req) req.correlation :=
    ⟨rfl, id⟩
  have henv : (b.recordEnvelope (.some req.envelope)).faults = b.faults := by
    rw [BaseWorker.recordEnvelope, h]
    exact b.faults_recordTracked _ _
  rw [BaseWorker.accountReply_eq, if_pos hacc]
  exact henv

theorem solo_faults {w₀ w : RpcWorker} (h₀ : w₀.requesters = [{}]) (hf : w₀.base.faults = 0)
    {es : List Event} (hin : ∀ e ∈ es, e.inWindow = true ∧ e.quiet = true) (ha : Answered w₀ es)
    (hw : exec step w₀ es = .some w) :
    w.base.faults = 0 := by
  refine exec_rec (P := fun es w => (∀ e ∈ es, e.inWindow = true ∧ e.quiet = true) → Answered w₀ es →
    w.base.faults = 0) (fun _ _ => hf) ?_ hw hin ha
  intro es w e w' hw ih hstep hin ha
  obtain ⟨ha, hans⟩ := Past.always_snoc.mp ha
  have hans := hans w hw
  have hin' : ∀ e ∈ es, e.inWindow = true ∧ e.quiet = true :=
    fun e he => hin e (List.mem_append_left _ he)
  have hfaults := ih hin' ha
  obtain ⟨he, hq⟩ := hin e (by simp)
  cases e with
  | startProducers | stopProducers | resetAfterWarmup => cases he
  | error => cases hq
  | requester k e =>
    obtain ⟨rq₁, rq', base, hk, hm, rfl⟩ := step_requester hstep
    obtain ⟨rq, hs⟩ := solo_run h₀ (fun e he => (hin' e he).1) hw
    have hk' := hk
    rw [hs.requesters] at hk'
    obtain ⟨rfl, rfl⟩ : k = 0 ∧ rq = rq₁ := by simpa [List.getElem?_singleton] using hk'
    cases hm with
    | connected hp => exact hfaults
    | connectFailed hp => cases hq
    | request hp o =>
      obtain rfl : o = .accepted := hans
      exact hfaults
    | reply hp r elapsed =>
      obtain rfl := hans rq hk _ hp
      have hcrc := congrArg Envelope.crcMismatch (hs.awaiting _ hp)
      exact (faults_accountReply w.base w.verifyOutcome _ elapsed hcrc).trans hfaults
    | timeout hp => exact hans.elim
    | replyFailed hp => exact hans.elim
    | cancelled hp => exact hans.elim
  | reconnected | tick | detectGaps =>
    cases hstep
    exact hfaults

/-- Nothing that the snapshot looks at changes once the requesters stop. -/
theorem closing_keeps {w₀ w : RpcWorker} {es : List Event} (hc : ∀ e ∈ es, e.closing = true)
    (hw : exec step w₀ es = .some w) :
    w.base.faults = w₀.base.faults ∧ w.base.duplicated = w₀.base.duplicated := by
  refine exec_rec (P := fun es w => (∀ e ∈ es, e.closing = true) →
    w.base.faults = w₀.base.faults ∧ w.base.duplicated = w₀.base.duplicated)
      (fun _ => ⟨rfl, rfl⟩) ?_ hw hc
  intro es w e w' hw ih hstep hc
  have hes := ih fun e he => hc e (List.mem_append_left _ he)
  have he := hc e (by simp)
  cases e with
  | requester k e =>
    obtain ⟨rq, rq', base, -, hm, rfl⟩ := step_requester hstep
    cases hm with
    | cancelled hp => exact hes
    | request hp o =>
      cases o with
      | cancelled => exact hes
      | _ => cases he
    | _ => cases he
  | startProducers | error | resetAfterWarmup => cases he
  | stopProducers | reconnected | tick | detectGaps =>
    cases hstep
    exact hes

/-- **An undisturbed channel** leaves a flawless worker. -/
theorem Undisturbed.flawless {c : RunnableConfig} {idx : Nat} {pat : RpcPattern} {es : List Event}
    (h : Undisturbed c idx pat es) {w : RpcWorker} (hw : exec step (new c idx pat) es = .some w) :
    Flawless pat.name w.toWorker := by
  obtain ⟨hone, warm, body, tail, w₀, rfl, hw₀, hlen, ha, hin, hc⟩ := h
  obtain ⟨w₀', hw₀', hrest⟩ := exec_append_eq_some.mp hw
  obtain rfl : w₀ = w₀' := Option.some.inj (hw₀.symm.trans hw₀')
  obtain ⟨w₁, hbody, htail⟩ := exec_append_eq_some.mp hrest
  obtain ⟨ho, hsenders⟩ := opened hw₀
  have h₀ : w₀.requesters = [{}] := by
    rw [ho.requesters, hsenders, hone]
    rfl
  have hf : w₀.base.faults = 0 := by
    obtain ⟨w', -, hreset⟩ := exec_append_eq_some.mp hw₀
    obtain rfl := Option.some.inj hreset
    rfl
  obtain ⟨hfaults, hdup⟩ := closing_keeps hc htail
  refine ⟨?_, ?_, ?_, rfl⟩
  · exact hfaults.trans (solo_faults h₀ hf hin ha hbody)
  · exact hdup.trans (solo_unrepeated h₀ ho (fun e he => (hin e he).1) hlen ha hbody)
  · intro hrpc
    cases pat <;> cases hrpc

end RpcWorker

/-! ## Groups -/

namespace AnyWorker

/-- The events of an RPC worker, in a run. -/
def rpcs (es : List AnyEvent) : List RpcWorker.Event :=
  es.filterMap fun
    | .rpc e => .some e
    | .plain _ => .none

theorem exec_rpcs {w₀ : RpcWorker} {es : List AnyEvent} {w : AnyWorker}
    (h : exec step (.rpc w₀) es = .some w) :
    ∃ w', w = .rpc w' ∧ exec RpcWorker.step w₀ (rpcs es) = .some w' := by
  refine exec_rec (P := fun es w => ∃ w', w = .rpc w' ∧ exec RpcWorker.step w₀ (rpcs es) = .some w')
    ⟨w₀, rfl, rfl⟩ ?_ h
  intro es w e w' _ ih hs
  obtain ⟨v, rfl, hv⟩ := ih
  cases e with
  | plain e => cases hs
  | rpc e =>
    obtain ⟨v', hv', rfl⟩ := Option.map_eq_some_iff.mp hs
    refine ⟨v', rfl, ?_⟩
    rw [rpcs, filterMap_snoc]
    exact exec_snoc_eq_some.mpr ⟨v, hv, hv'⟩

end AnyWorker

namespace ChannelRun

variable {c : RunnableConfig} {name : WorkerName}

/-- Nothing goes wrong on the channel. -/
def Undisturbed (r : ChannelRun c name) : Prop :=
  (∃ pat : Pattern, pat.name = name ∧ Worker.Undisturbed c r.idx pat (AnyWorker.plains r.events)) ∨
    ∃ pat : RpcPattern, pat.name = name ∧ RpcWorker.Undisturbed c r.idx pat (AnyWorker.rpcs r.events)

theorem Undisturbed.flawless {r : ChannelRun c name} (h : r.Undisturbed) :
    Flawless name r.worker.toWorker := by
  rcases h with ⟨pat, rfl, h⟩ | ⟨pat, rfl, h⟩
  · rw [r.worker_plain]
    exact h.flawless
  · have hran := r.ran
    have hnew : AnyWorker.new c r.idx pat.name = .rpc (.new c r.idx pat) := by cases pat <;> rfl
    rw [hnew] at hran
    obtain ⟨w, hw, hexec⟩ := AnyWorker.exec_rpcs hran
    rw [hw]
    exact h.flawless hexec

end ChannelRun

/-- What the snapshot of a group has when nothing went wrong. -/
structure WorkerSnapshot.Spotless (snap : WorkerSnapshot) : Prop where
  corrupted : snap.corrupted = 0
  fidelityFailures : snap.fidelityFailures = 0
  eventsDropped : snap.eventsDropped = 0
  errors : snap.errors = 0
  downtimeSeconds : snap.downtimeSeconds = 0
  rpcTimeout : snap.rpcTimeout = 0
  rpcError : snap.rpcError = 0
  duplicated : snap.duplicated = 0
  lost : snap.lost = 0

section
variable {hist : Histogram} {c : RunnableConfig} {name : WorkerName} {runs : List (ChannelRun c name)}

theorem captured_eq_zero {f : WorkerSnapshot → UInt64} {g : BaseWorker → Nat} (h₀ : f {} = 0)
    (h : ∀ snap b, f (Capture.addCounters name snap b) = f snap + .ofNat (g b))
    (hc : ∀ (c : Capture) (extraLost : UInt64), f (c.conclude hist extraLost) = f c.snap)
    (hzero : ∀ r ∈ runs, g r.worker.base = 0) : f (captured hist runs) = 0 := by
  have hsum : (runs.map fun r => g r.worker.base).sum = 0 := by
    refine List.sum_eq_zero ?_
    intro n hn
    obtain ⟨r, hr, rfl⟩ := List.mem_map.mp hn
    exact hzero r hr
  rw [captured_counter h₀ h hc, hsum]
  rfl

theorem captured_downtime (h : ∀ r ∈ runs, r.worker.base.downtime = 0) :
    (captured hist runs).downtimeSeconds = 0 := by
  have hfold : ∀ (ws : List Worker) (cap : Capture), (∀ w ∈ ws, w.base.downtime = 0) →
      (ws.foldl (Capture.add hist name) cap).snap.downtimeSeconds = cap.snap.downtimeSeconds := by
    intro ws
    induction ws with
    | nil => exact fun _ _ => rfl
    | cons w ws ih =>
      intro cap hws
      rw [List.foldl_cons, ih _ fun w' hw' => hws w' (List.mem_cons_of_mem _ hw')]
      simp [Capture.add, Capture.addCounters, hws w List.mem_cons_self, seconds]
  refine hfold _ _ ?_
  intro w hw
  obtain ⟨r, hr, rfl⟩ := List.mem_map.mp hw
  exact h r hr

theorem captured_lost (h : ∀ r ∈ runs, Flawless name r.worker.toWorker) :
    (captured hist runs).lost = 0 := by
  have hextra : extraLost (runs.map (·.worker.toWorker)) = 0 := by
    rw [extraLost_eq]
    refine List.sum_eq_zero ?_
    intro n hn
    simp only [List.mem_map, exists_exists_and_eq_and] at hn
    obtain ⟨r, hr, rfl⟩ := hn
    exact (h r hr).extraLost
  have htracked : ((runs.map (·.worker.toWorker)).foldl (Capture.add hist name) {}).snap.lost = 0 := by
    cases hrpc : name.isRPCWorker with
    | true =>
      have hkeep : ∀ (ws : List Worker) (cap : Capture),
          (ws.foldl (Capture.add hist name) cap).snap.lost = cap.snap.lost := by
        intro ws
        induction ws with
        | nil => exact fun _ => rfl
        | cons w ws ih =>
          intro cap
          rw [List.foldl_cons, ih]
          simp [Capture.add, Capture.addCounters, hrpc]
      exact hkeep _ _
    | false =>
      rw [Capture.lost_foldl hrpc]
      have hsum : ((runs.map (·.worker.toWorker)).map fun w =>
          UInt64.ofNat w.base.trk.totalLost).sum = 0 := by
        refine List.sum_eq_zero ?_
        intro n hn
        simp only [List.mem_map, exists_exists_and_eq_and] at hn
        obtain ⟨r, hr, rfl⟩ := hn
        rw [(h r hr).lost hrpc]
        rfl
      rw [hsum]
      rfl
  rw [captured, captureWorkerSnapshot, Capture.conclude, htracked, hextra]
  rfl

/-- **The snapshot of undisturbed channels** is spotless. -/
theorem captured_spotless (h : ∀ r ∈ runs, r.Undisturbed) : (captured hist runs).Spotless := by
  have hflawless : ∀ r ∈ runs, Flawless name r.worker.toWorker := fun r hr => (h r hr).flawless
  have hfaults : ∀ r ∈ runs, r.worker.base.faults = 0 := fun r hr => (hflawless r hr).faults
  have hzero (g : BaseWorker → Nat) (hg : ∀ b, g b ≤ b.faults) : ∀ r ∈ runs, g r.worker.base = 0 :=
    fun r hr => Nat.le_zero.mp (hfaults r hr ▸ hg r.worker.base)
  exact
    { corrupted := captured_eq_zero (g := (·.corrupted)) rfl (fun _ _ => rfl) (fun _ _ => rfl)
        (hzero _ fun b => by unfold BaseWorker.faults; omega)
      fidelityFailures := captured_eq_zero (g := (·.fidelityFails)) rfl (fun _ _ => rfl) (fun _ _ => rfl)
        (hzero _ fun b => by unfold BaseWorker.faults; omega)
      eventsDropped := captured_eq_zero (g := (·.eventsDropped)) rfl (fun _ _ => rfl) (fun _ _ => rfl)
        (hzero _ fun b => by unfold BaseWorker.faults; omega)
      errors := captured_eq_zero (g := (·.errors)) rfl (fun _ _ => rfl) (fun _ _ => rfl)
        (hzero _ fun b => by unfold BaseWorker.faults; omega)
      downtimeSeconds := captured_downtime (hzero _ fun b => by unfold BaseWorker.faults; omega)
      rpcTimeout := captured_eq_zero (g := (·.rpcTimeoutCount)) rfl (fun _ _ => rfl) (fun _ _ => rfl)
        (hzero _ fun b => by unfold BaseWorker.faults; omega)
      rpcError := captured_eq_zero (g := (·.rpcErrorCount)) rfl (fun _ _ => rfl) (fun _ _ => rfl)
        (hzero _ fun b => by unfold BaseWorker.faults; omega)
      duplicated := captured_eq_zero (g := (·.duplicated)) rfl (fun _ _ => rfl) (fun _ _ => rfl)
        fun r hr => (hflawless r hr).duplicated
      lost := captured_lost hflawless }

end

/-! ## The verdict -/

/-- The gates of latency and throughput, of one group. -/
structure Performs (cfg : Config) (measurementDuration : Int) (name : WorkerName)
    (snap : WorkerSnapshot) : Prop where
  p50 : snap.latencyP50 ≤ cfg.thresholds.maxP50LatencyMS
  p95 : snap.latencyP95 ≤ cfg.thresholds.maxP95LatencyMS
  p99 : snap.latencyP99 ≤ cfg.thresholds.maxP99LatencyMS
  p999 : snap.latencyP999 ≤ cfg.thresholds.maxP999LatencyMS
  throughput : name.isRPCWorker = false → 0 < measurementDuration → 0 < snap.sent →
    (0 : ℚ) < cfg.getWorkerRate name →
    cfg.thresholds.minThroughputPct ≤
      snap.sent.toNat / seconds measurementDuration / cfg.getWorkerRate name * 100

theorem pct_zero (y : UInt64) : pct 0 y = 0 := by simp [pct]

/-- A spotless snapshot is within the gates when it is within those. -/
theorem WorkerSnapshot.Spotless.withinGates_iff {cfg : Config} {d : Int} {name : WorkerName}
    {snap : WorkerSnapshot} (h : snap.Spotless) (ht : cfg.thresholds.InRange) :
    WithinGates cfg d name snap ↔ Performs cfg d name snap := by
  have hlatency {value threshold : ℚ} (hpos : 0 < threshold) :
      (0 < value → 0 < threshold → value ≤ threshold) ↔ value ≤ threshold := by
    constructor
    · intro hgate
      rcases lt_or_ge 0 value with hv | hv
      · exact hgate hv hpos
      · exact le_of_lt (lt_of_le_of_lt hv hpos)
    · exact fun hle _ _ => hle
  constructor
  · intro hw
    exact
      { p50 := (hlatency ht.maxP50LatencyMS).mp hw.p50
        p95 := (hlatency ht.maxP95LatencyMS).mp hw.p95
        p99 := (hlatency ht.maxP99LatencyMS).mp hw.p99
        p999 := (hlatency ht.maxP999LatencyMS).mp hw.p999
        throughput := hw.throughput }
  · intro hp
    refine
      { corrupted := h.corrupted
        fidelity := ?_
        dropped := fun _ => h.eventsDropped
        loss := ?_
        duplication := ?_
        p50 := fun _ _ => hp.p50
        p95 := fun _ _ => hp.p95
        p99 := fun _ _ => hp.p99
        p999 := fun _ _ => hp.p999
        errors := ?_
        throughput := hp.throughput
        downtime := ?_
        rpc := ?_ }
    · rw [h.fidelityFailures]
      exact UInt64.zero_le
    · intro _
      rw [h.lost, pct_zero]
      exact .inr (by norm_num [boundaryLossPct])
    · intro _
      rw [h.duplicated, pct_zero]
      exact ht.maxDuplicationPct.1
    · intro _
      rw [h.errors, pct_zero]
      exact ht.maxErrorRatePct.1
    · intro _ hpos
      rw [h.downtimeSeconds] at hpos
      exact absurd hpos (lt_irrefl 0)
    · intro _ _
      rw [h.rpcTimeout, h.rpcError, add_zero, pct_zero]
      exact ht.maxErrorRatePct.1

/-- A queue that repeats a message in the warmup, and swaps two in the
measurement. -/
def swappedQueue : ChannelRun smallWindow .queues :=
  .ofPlain smallWindow .queues 1
    [.send .accepted, .deliver 0 1, .deliver 0 1, .resetAfterWarmup, .send .accepted, .send .accepted,
      .send .accepted, .deliver 0 2, .deliver 0 4, .deliver 0 3]

/-- A command, and its response. -/
def oneCommand : List RpcWorker.Event :=
  [.requester 0 .connected, .requester 0 (.request .accepted),
    .requester 0 (.reply (buildReply true (({} : RpcRequester).nextRequest (channel .commands 1))) 0)]

/-- An RPC channel whose requester is stopped after it. -/
def answeredEvents : List AnyEvent :=
  (RpcWorker.windowOpens ++ (oneCommand ++
    [RpcWorker.Event.requester 0 .cancelled, .stopProducers])).map .rpc

def answeredCommand : ChannelRun smallWindow .commands where
  idx := 1
  events := answeredEvents
  worker := (exec AnyWorker.step (.new smallWindow 1 .commands) answeredEvents).get (by decide +kernel)
  ran := (Option.some_get _).symm

theorem swappedQueue_undisturbed : swappedQueue.Undisturbed := by
  refine .inl ⟨.queues, rfl, ?_⟩
  exact
    { tracked := fun _ => ⟨by decide +kernel, boundedReorder_of_le (by decide +kernel)⟩
      fannedOut := fun h => by cases h
      stored := fun h => by cases h
      quiet := by
        intro e he
        have hmeasured : Worker.measured (AnyWorker.plains swappedQueue.events) =
            [.send .accepted, .send .accepted, .send .accepted, .deliver 0 2, .deliver 0 4,
              .deliver 0 3] := rfl
        rw [hmeasured] at he
        simp only [List.mem_cons, List.not_mem_nil, or_false] at he
        rcases he with rfl | rfl | rfl | rfl | rfl | rfl <;> simp [Worker.Event.Quiet]
      complete := fun h => by cases h
      resumed := fun h => by cases h }

theorem answeredCommand_undisturbed : answeredCommand.Undisturbed := by
  refine .inr ⟨.commands, rfl, rfl, [], oneCommand,
    [.requester 0 .cancelled, .stopProducers], _, rfl, rfl, by decide, ?_, by decide, by decide⟩
  refine (Past.always_snoc (H := [_, _])).mpr
    ⟨(Past.always_snoc (H := [_])).mpr ⟨(Past.always_snoc (H := [])).mpr
    ⟨Past.always_nil, ?_⟩, ?_⟩, ?_⟩
  · exact fun _ _ => trivial
  · exact fun _ _ => rfl
  · intro w hw rq hrq req hreq
    cases hw
    cases hrq
    cases hreq
    rfl

end Burnin
