/-
Facts about the RPC workers: what one step does to the state that a worker's
requesters share (`accountReply_spec`, `step_requester`), and the identities of
the requests that a worker sends in a measurement window.

A requester numbers its own requests from 1 on, and stamps them with the name
of the channel. With one requester the numbers go up, so that no pair is stamped
twice and no correct reply is a duplicate (`solo_run`, `solo_unrepeated`); two
requesters both stamp 1.
-/
import Burnin.Rpc
import Burnin.WorkerFacts

namespace Burnin

open Machine

/-! ## One step -/

namespace BaseWorker

/-- `accountReply` goes on to the envelope of a reply. -/
def Accounted (verifyOutcome : Bool) (reply : Reply) (wantCorr : String) : Prop :=
  reply.correlation = wantCorr ∧ (verifyOutcome = true → reply.executed = true)

instance (verifyOutcome : Bool) (reply : Reply) (wantCorr : String) :
    Decidable (Accounted verifyOutcome reply wantCorr) := inferInstanceAs (Decidable (_ ∧ _))

theorem accountReply_eq (b : BaseWorker) (verifyOutcome : Bool) (reply : Reply) (wantCorr : String)
    (elapsed : Int) :
    b.accountReply verifyOutcome reply wantCorr elapsed =
      if Accounted verifyOutcome reply wantCorr then
        ((b.recordEnvelope reply.envelope).recordReceived).recordRPCSuccess elapsed
      else b.recordRPCError := by
  by_cases hc : reply.correlation = wantCorr <;> by_cases hx : reply.executed = true <;>
    cases verifyOutcome <;> simp [accountReply, Accounted, hc, hx]

theorem recordEnvelope_spec (b : BaseWorker) (m : Option Envelope) :
    (b.recordEnvelope m).trk = b.trk.track m ∧ (b.recordEnvelope m).channelName = b.channelName := by
  cases m with
  | none => exact ⟨rfl, rfl⟩
  | some m =>
    dsimp only [recordEnvelope]
    cases m.crcMismatch <;> exact recordTracked_spec _ m.producerID m.seq

theorem recordEnvelope_counts (b : BaseWorker) (m : Option Envelope) :
    (b.recordEnvelope m).duplicated = b.duplicated + (b.trk.flags m).toNat ∧
      (b.recordEnvelope m).received = b.received := by
  cases m with
  | none => exact ⟨rfl, rfl⟩
  | some m =>
    dsimp only [recordEnvelope]
    cases m.crcMismatch <;> exact recordTracked_counts _ m.producerID m.seq

theorem accountReply_spec (b : BaseWorker) (verifyOutcome : Bool) (reply : Reply) (wantCorr : String)
    (elapsed : Int) :
    (b.accountReply verifyOutcome reply wantCorr elapsed).trk =
        (if Accounted verifyOutcome reply wantCorr then b.trk.track reply.envelope else b.trk) ∧
      (b.accountReply verifyOutcome reply wantCorr elapsed).channelName = b.channelName := by
  rw [accountReply_eq]
  split
  · exact b.recordEnvelope_spec reply.envelope
  · exact ⟨rfl, rfl⟩

theorem accountReply_counts (b : BaseWorker) (verifyOutcome : Bool) (reply : Reply) (wantCorr : String)
    (elapsed : Int) :
    (b.accountReply verifyOutcome reply wantCorr elapsed).duplicated =
        b.duplicated +
          (if Accounted verifyOutcome reply wantCorr then (b.trk.flags reply.envelope).toNat else 0) ∧
      (b.accountReply verifyOutcome reply wantCorr elapsed).received =
        b.received + (if Accounted verifyOutcome reply wantCorr then 1 else 0) := by
  obtain ⟨h1, h2⟩ := b.recordEnvelope_counts reply.envelope
  rw [accountReply_eq]
  split
  · exact ⟨h1, congrArg (· + 1) h2⟩
  · exact ⟨rfl, rfl⟩

end BaseWorker

namespace RpcRequester

/-- Everything that a step of a requester can do. -/
inductive Moves (verifyOutcome : Bool) (rq : RpcRequester) (b : BaseWorker) :
    Event → RpcRequester → BaseWorker → Prop
  | connected (h : rq.phase = .dialing) : Moves verifyOutcome rq b .connected { rq with
      phase := .idle } b
  | connectFailed (h : rq.phase = .dialing) : Moves verifyOutcome rq b .connectFailed rq b.recordError
  | request (h : rq.phase = .idle) (o : Worker.Outcome) :
    Moves verifyOutcome rq b (.request o) (rq.send b o).1 (rq.send b o).2
  | reply {req : Request} (h : rq.phase = .awaiting req) (r : Reply) (elapsed : Int) :
    Moves verifyOutcome rq b (.reply r elapsed) { rq with phase := .idle }
      (b.accountReply verifyOutcome r req.correlation elapsed)
  | timeout {req : Request} (h : rq.phase = .awaiting req) :
    Moves verifyOutcome rq b .timeout { rq with phase := .dialing } b.recordRPCTimeout
  | replyFailed {req : Request} (h : rq.phase = .awaiting req) :
    Moves verifyOutcome rq b .replyFailed { rq with phase := .dialing } b.recordRPCError
  | cancelled (h : rq.phase ≠ .returned) : Moves verifyOutcome rq b .cancelled { rq with
      phase := .returned } b

theorem step_moves {verifyOutcome : Bool} {rq rq' : RpcRequester} {b b' : BaseWorker} {e : Event}
    (h : rq.step verifyOutcome b e = .some (rq', b')) : Moves verifyOutcome rq b e rq' b' := by
  unfold step at h
  split at h
  case h_1 hp => cases h; exact .connected hp
  case h_2 hp => cases h; exact .connectFailed hp
  case h_3 o hp =>
    obtain ⟨rfl, rfl⟩ := Prod.mk.inj (Option.some.inj h)
    exact .request hp o
  case h_4 r elapsed hp => cases h; exact .reply hp r elapsed
  case h_5 hp => cases h; exact .timeout hp
  case h_6 hp => cases h; exact .replyFailed hp
  case h_7 => cases h
  case h_8 hp => cases h; exact .cancelled hp
  case h_9 => cases h

theorem Moves.channelName {verifyOutcome : Bool} {rq rq' : RpcRequester} {b b' : BaseWorker} {e : Event}
    (h : Moves verifyOutcome rq b e rq' b') : b'.channelName = b.channelName := by
  cases h with
  | request h o => cases o <;> rfl
  | reply h r elapsed => exact (b.accountReply_spec _ _ _ _).2
  | _ => rfl

end RpcRequester

namespace RpcWorker

theorem step_requester {w w' : RpcWorker} {k : Nat} {e : RpcRequester.Event}
    (h : w.step (.requester k e) = .some w') :
    ∃ rq rq' base, w.requesters[k]? = .some rq ∧ rq.Moves w.verifyOutcome w.base e rq' base ∧
      w' = { w with base, requesters := w.requesters.set k rq' } := by
  cases hk : w.requesters[k]? with
  | none => simp [step, hk] at h
  | some rq =>
    simp only [step, hk, Option.map_eq_some_iff, Prod.exists] at h
    obtain ⟨rq', base, hs, rfl⟩ := h
    exact ⟨rq, rq', base, rfl, RpcRequester.step_moves hs, rfl⟩

theorem step_senders {w w' : RpcWorker} {e : Event} (h : w.step e = .some w') :
    w'.senders = w.senders := by
  cases e with
  | startProducers =>
    simp only [step] at h
    split at h
    · cases h; rfl
    · cases h
  | requester k e =>
    obtain ⟨rq, rq', base, -, -, rfl⟩ := step_requester h
    rfl
  | _ => cases h; rfl

theorem step_verifyOutcome {w w' : RpcWorker} {e : Event} (h : w.step e = .some w') :
    w'.verifyOutcome = w.verifyOutcome := by
  cases e with
  | startProducers =>
    obtain rfl := Option.some.inj (Option.ite_none_right_eq_some.mp h).2
    rfl
  | requester k e =>
    obtain ⟨rq, rq', base, -, -, rfl⟩ := step_requester h
    rfl
  | _ => cases h; rfl

theorem stamped_snoc {w₀ w : RpcWorker} {es : List Event} (h : exec step w₀ es = .some w) (e : Event) :
    stamped w₀ (es ++ [e]) = stamped w₀ es ++ (w.stamp e).toList := by
  induction es generalizing w₀ with
  | nil =>
    obtain rfl := Option.some.inj h
    cases hs : w₀.step e <;> simp [stamped, hs]
  | cons x es ih =>
    rw [exec_cons, Option.bind_eq_some_iff] at h
    obtain ⟨w₁, h₁, h⟩ := h
    simp only [List.cons_append, stamped, h₁, Option.map_some, Option.getD_some, ih h, List.append_assoc]

/-! ## A measurement window -/

/-- What the engine does between warmup and the measurement window. -/
def windowOpens : List Event := [.stopProducers, .resetAfterWarmup, .startProducers]

/-- What can happen between the two ends of a measurement window. -/
def Event.inWindow : Event → Bool
  | .startProducers | .stopProducers | .resetAfterWarmup => false
  | _ => true

/-- The step is part of a run in which every request gets one correct reply. -/
def Answers (w : RpcWorker) : Event → Prop
  | .requester _ (.request o) => o = .accepted
  | .requester k (.reply r _) =>
    ∀ rq ∈ w.requesters[k]?, ∀ req, rq.phase = .awaiting req → r = buildReply w.verifyOutcome req
  | .requester _ .timeout | .requester _ .replyFailed | .requester _ .cancelled => False
  | _ => True

/-- Every request of a run gets one correct reply. -/
def Answered (w₀ : RpcWorker) (es : List Event) : Prop :=
  Past.Always (fun pre e => ∀ w, exec step w₀ pre = .some w → w.Answers e) es

/-- The identities of the requests of a window are unique: no pair is stamped
twice, and correct replies are no duplicates. -/
structure Identified (w₀ : RpcWorker) (es : List Event) : Prop where
  nodup : (stamped w₀ es).Nodup
  unrepeated : Answered w₀ es → ∀ w, exec step w₀ es = .some w → w.base.duplicated = 0

/-- The worker at the start of a window. -/
structure Opened (w : RpcWorker) : Prop where
  requesters : w.requesters = .replicate w.senders {}
  trk : w.base.trk = Tracker.new w.base.trk.reorderWindow
  duplicated : w.base.duplicated = 0

theorem senders_exec {w₀ w : RpcWorker} {es : List Event} (h : exec step w₀ es = .some w) :
    w.senders = w₀.senders :=
  invariant (I := fun w => w.senders = w₀.senders) rfl (fun _ _ _ hs h => (step_senders h).trans hs) h

theorem opened {c : RunnableConfig} {idx : Nat} {pat : RpcPattern} {warm : List Event} {w : RpcWorker}
    (h : exec step (new c idx pat) (warm ++ windowOpens) = .some w) :
    Opened w ∧ w.senders = sendersOf c pat.name := by
  have hsenders : (new c idx pat).senders = sendersOf c pat.name := by cases pat <;> rfl
  refine ⟨?_, (senders_exec h).trans hsenders⟩
  obtain ⟨w₁, -, hw⟩ := exec_append_eq_some.mp h
  obtain rfl : _ = w := Option.some.inj hw
  exact ⟨rfl, rfl, rfl⟩

/-! ## One requester -/

/-- A worker with one requester `rq` after the run `es` of a window: the pairs
stamped are the channel's name with the numbers from 1 on. -/
structure Solo (w₀ : RpcWorker) (es : List Event) (w : RpcWorker) (rq : RpcRequester) : Prop where
  channelName : w.base.channelName = w₀.base.channelName
  requesters : w.requesters = [rq]
  seq : rq.seq = .ofNat (stamped w₀ es).length
  awaiting : ∀ req, rq.phase = .awaiting req →
    req.envelope = { producerID := w₀.base.channelName, seq := rq.seq }
  stamped : stamped w₀ es = (List.range (stamped w₀ es).length).map fun i =>
    (w₀.base.channelName, .ofNat (i + 1))
  length : (RpcWorker.stamped w₀ es).length ≤ es.length

theorem Solo.keep {w₀ w w' : RpcWorker} {es : List Event} {e : Event} {rq rq' : RpcRequester}
    (h : Solo w₀ es w rq) (hw : exec step w₀ es = .some w) (hstamp : w.stamp e = .none)
    (hname : w'.base.channelName = w.base.channelName) (hrq : w'.requesters = [rq'])
    (hseq : rq'.seq = rq.seq) (hawait : ∀ req, rq'.phase = .awaiting req →
      rq.phase = .awaiting req) : Solo w₀ (es ++ [e]) w' rq' := by
  have hs : RpcWorker.stamped w₀ (es ++ [e]) = RpcWorker.stamped w₀ es := by
    rw [stamped_snoc hw, hstamp]
    simp
  refine ⟨hname.trans h.channelName, hrq, ?_, fun req hr => ?_, ?_, ?_⟩
  · rw [hs, hseq, h.seq]
  · rw [hseq]
    exact h.awaiting req (hawait req hr)
  · rw [hs]
    exact h.stamped
  · rw [hs, List.length_append]
    exact Nat.le_add_right_of_le h.length

theorem Solo.request {w₀ w w' : RpcWorker} {es : List Event} {rq : RpcRequester} {o : Worker.Outcome}
    (h : Solo w₀ es w rq) (hw : exec step w₀ es = .some w) (hbase : w'.base = (rq.send w.base o).2)
    (hrq : w'.requesters = [(rq.send w.base o).1]) :
    Solo w₀ (es ++ [.requester 0 (.request o)]) w' (rq.send w.base o).1 := by
  have hs : RpcWorker.stamped w₀ (es ++ [.requester 0 (.request o)]) =
      RpcWorker.stamped w₀ es ++ [(w₀.base.channelName, rq.seq + 1)] := by
    rw [stamped_snoc hw, ← h.channelName]
    simp [stamp, h.requesters, RpcRequester.nextRequest]
  have hlen : (RpcWorker.stamped w₀ (es ++ [.requester 0 (.request o)])).length =
      (RpcWorker.stamped w₀ es).length + 1 := by rw [hs, List.length_append]; rfl
  have hseq : rq.seq + 1 = .ofNat ((RpcWorker.stamped w₀ es).length + 1) := by
    rw [h.seq, UInt64.ofNat_add]
    rfl
  refine ⟨?_, hrq, ?_, fun req hr => ?_, ?_, ?_⟩
  · rw [hbase, ← h.channelName]
    cases o <;> rfl
  · rw [hlen, ← hseq]
    cases o <;> rfl
  · cases o with
    | accepted =>
      cases hr
      rw [← h.channelName]
      rfl
    | _ => cases hr
  · rw [hlen, hs, List.range_succ, List.map_append, ← h.stamped, hseq]
    rfl
  · rw [hlen, List.length_append]
    exact Nat.succ_le_succ h.length

/-- **A window with one requester.** -/
theorem solo_run {w₀ w : RpcWorker} (h₀ : w₀.requesters = [{}]) {es : List Event}
    (hin : ∀ e ∈ es, e.inWindow = true) (hw : exec step w₀ es = .some w) : ∃ rq, Solo w₀ es w rq := by
  refine exec_rec (P := fun es w => (∀ e ∈ es, e.inWindow = true) → ∃ rq, Solo w₀ es w rq) ?_ ?_ hw hin
  · intro _
    exact ⟨{}, rfl, h₀, rfl, by simp, rfl, Nat.le_refl 0⟩
  · intro es w e w' hw ih hstep hin
    obtain ⟨rq, h⟩ := ih fun e he => hin e (List.mem_append_left _ he)
    have he := hin e (by simp)
    cases e with
    | startProducers => cases he
    | stopProducers => cases he
    | resetAfterWarmup => cases he
    | requester k e =>
      obtain ⟨rq₁, rq', base, hk, hm, rfl⟩ := step_requester hstep
      rw [h.requesters] at hk
      obtain ⟨rfl, rfl⟩ : k = 0 ∧ rq = rq₁ := by simpa [List.getElem?_singleton] using hk
      have hset : w.requesters.set 0 rq' = [rq'] := by rw [h.requesters]; rfl
      have hname := hm.channelName
      cases hm with
      | request hp o => exact ⟨_, h.request hw rfl hset⟩
      | connectFailed hp => exact ⟨_, h.keep hw rfl hname hset rfl fun _ => id⟩
      | _ => exact ⟨_, h.keep hw rfl hname hset rfl (by simp)⟩
    | _ =>
      cases hstep
      exact ⟨rq, h.keep hw rfl rfl h.requesters rfl fun _ => id⟩

/-- The tracker has been fed numbers up to the last one stamped, which it lacks
while its reply is awaited. -/
structure InOrder (window : ReorderWindow) (p : String) (last : Nat) (w : RpcWorker)
    (cs : List Call) : Prop where
  trk : w.base.trk = Tracker.calls window cs
  le : ∀ n ∈ numbers p cs, n ≤ last
  lt : ∀ rq ∈ w.requesters, ∀ req, rq.phase = .awaiting req → ∀ n ∈ numbers p cs, n < last
  duplicated : w.base.duplicated = 0

/-- The correct reply to the one request in flight is no duplicate. -/
theorem InOrder.reply {window : ReorderWindow} {p : String} {last : Nat} {w w' : RpcWorker}
    {cs : List Call} (h : InOrder window p last w cs) {rq : RpcRequester} {req : Request}
    (hrq : rq ∈ w.requesters) (hp : rq.phase = .awaiting req) {seq : UInt64}
    (hm : req.envelope = { producerID := p, seq }) (hseq : seq.toNat = last) {elapsed : Int}
    (hbase : w'.base = w.base.accountReply w.verifyOutcome
      (buildReply w.verifyOutcome req) req.correlation elapsed)
    (hidle : ∀ rq ∈ w'.requesters, rq.phase = .idle) :
    InOrder window p last w' (cs ++ [.record p seq]) := by
  have hacc : BaseWorker.Accounted w.verifyOutcome (buildReply w.verifyOutcome req) req.correlation :=
    ⟨rfl, id⟩
  obtain ⟨htrk, -⟩ :=
    w.base.accountReply_spec w.verifyOutcome (buildReply w.verifyOutcome req) req.correlation elapsed
  obtain ⟨hdup, -⟩ :=
    w.base.accountReply_counts w.verifyOutcome (buildReply w.verifyOutcome req) req.correlation elapsed
  rw [if_pos hacc] at htrk hdup
  have hlt : ∀ n ∈ numbers p cs, n < seq.toNat := fun n hn => hseq ▸ h.lt rq hrq req hp n hn
  have hflags : w.base.trk.flags (.some req.envelope) = false := by
    rw [h.trk, hm]
    exact isDuplicate_of_above hlt
  refine ⟨?_, fun n hn => ?_, fun rq' hrq' req' hp' => ?_, ?_⟩
  · rw [hbase, htrk, h.trk, Tracker.calls_snoc, buildReply, hm]
    rfl
  · rw [numbers_snoc_record, List.mem_append, List.mem_singleton] at hn
    rcases hn with hn | hn
    · exact h.le n hn
    · omega
  · rw [hidle rq' hrq'] at hp'
    cases hp'
  · rw [hbase, hdup, h.duplicated]
    simp only [buildReply, hflags]
    rfl

/-- **Correct replies to one requester** are no duplicates. -/
theorem solo_unrepeated {w₀ w : RpcWorker} (h₀ : w₀.requesters = [{}]) (ho : Opened w₀) {es : List Event}
    (hin : ∀ e ∈ es, e.inWindow = true) (hn : es.length < 2 ^ 64) (ha : Answered w₀ es)
    (hw : exec step w₀ es = .some w) : w.base.duplicated = 0 := by
  -- By induction on the run, with `InOrder` for the number of requests so far.
  suffices h : ∃ cs, InOrder w₀.base.trk.reorderWindow w₀.base.channelName
      (stamped w₀ es).length w cs from
    h.choose_spec.duplicated
  refine exec_rec (P := fun es w => (∀ e ∈ es, e.inWindow = true) → es.length < 2 ^ 64 → Answered w₀ es →
    ∃ cs, InOrder w₀.base.trk.reorderWindow w₀.base.channelName
      (stamped w₀ es).length w cs) ?_ ?_ hw hin hn ha
  · intro _ _ _
    refine ⟨[], ho.trk, by simp [numbers], fun rq hrq req hp => ?_, ho.duplicated⟩
    rw [h₀, List.mem_singleton] at hrq
    rw [hrq] at hp
    cases hp
  · intro es w e w' hw ih hstep hin hn ha
    have hin' : ∀ e ∈ es, e.inWindow = true := fun e he => hin e (List.mem_append_left _ he)
    have hn' : es.length < 2 ^ 64 := by rw [List.length_append] at hn; omega
    obtain ⟨ha, hans⟩ := Past.always_snoc.mp ha
    have hans := hans w hw
    obtain ⟨cs, h⟩ := ih hin' hn' ha
    obtain ⟨rq, hs⟩ := solo_run h₀ hin' hw
    have he := hin e (by simp)
    rw [stamped_snoc hw]
    cases e with
    | startProducers => cases he
    | stopProducers => cases he
    | resetAfterWarmup => cases he
    | requester k e =>
      obtain ⟨rq₁, rq', base, hk, hm, rfl⟩ := step_requester hstep
      have hk' := hk
      rw [hs.requesters] at hk'
      obtain ⟨rfl, rfl⟩ : k = 0 ∧ rq = rq₁ := by simpa [List.getElem?_singleton] using hk'
      have hset : w.requesters.set 0 rq' = [rq'] := by rw [hs.requesters]; rfl
      cases hm with
      | connected hp | connectFailed hp =>
        refine ⟨cs, h.trk, by simpa [stamp] using h.le, fun rq' hrq' req hp' => ?_, h.duplicated⟩
        rw [hset, List.mem_singleton] at hrq'
        rw [hrq'] at hp'
        simp [hp] at hp'
      | request hp o =>
        obtain rfl : o = .accepted := hans
        have hlen : (stamped w₀ es ++ (w.stamp (.requester 0 (.request .accepted))).toList).length =
            (stamped w₀ es).length + 1 := by simp [stamp, hs.requesters]
        rw [hlen]
        exact ⟨cs, h.trk, fun n hn => Nat.le_succ_of_le (h.le n hn),
          fun _ _ _ _ n hn => Nat.lt_succ_of_le (h.le n hn), h.duplicated⟩
      | reply hp r elapsed =>
        obtain rfl := hans rq hk _ hp
        have hseq : rq.seq.toNat = (stamped w₀ es).length := by
          rw [hs.seq, UInt64.toNat_ofNat', Nat.mod_eq_of_lt (Nat.lt_of_le_of_lt hs.length hn')]
        have hmem : rq ∈ w.requesters := by rw [hs.requesters]; simp
        simp only [stamp, Option.toList, List.append_nil]
        refine ⟨_, h.reply hmem hp (hs.awaiting _ hp) hseq rfl fun rq' hrq' => ?_⟩
        rw [hset, List.mem_singleton] at hrq'
        rw [hrq']
      | timeout hp => exact hans.elim
      | replyFailed hp => exact hans.elim
      | cancelled hp => exact hans.elim
    | detectGaps =>
      cases hstep
      have hnum : numbers w₀.base.channelName (cs ++ [.detectGaps]) = numbers w₀.base.channelName cs :=
        numbers_snoc_none rfl
      simp only [stamp, Option.toList, List.append_nil]
      refine ⟨cs ++ [.detectGaps], ?_, by rw [hnum]; exact h.le, by rw [hnum]; exact h.lt, h.duplicated⟩
      rw [Tracker.calls_snoc, ← h.trk]
      rfl
    | _ =>
      cases hstep
      simp only [stamp, Option.toList, List.append_nil]
      exact ⟨cs, h.trk, h.le, h.lt, h.duplicated⟩

theorem solo_identified {w₀ : RpcWorker} (h₀ : w₀.requesters = [{}]) (ho : Opened w₀) {es : List Event}
    (hin : ∀ e ∈ es, e.inWindow = true) (hn : es.length < 2 ^ 64)
    (hrun : (exec step w₀ es).isSome = true) :
    Identified w₀ es := by
  obtain ⟨w, hw⟩ := Option.isSome_iff_exists.mp hrun
  obtain ⟨rq, hs⟩ := solo_run h₀ hin hw
  refine ⟨?_, fun ha w hw => solo_unrepeated h₀ ho hin hn ha hw⟩
  rw [hs.stamped]
  refine List.Nodup.map_on (fun i hi j hj hij => ?_) List.nodup_range
  have hi := Nat.lt_of_lt_of_le (List.mem_range.mp hi) hs.length
  have hj := Nat.lt_of_lt_of_le (List.mem_range.mp hj) hs.length
  have hij := congrArg UInt64.toNat (Prod.mk.inj hij).2
  rw [UInt64.toNat_ofNat', UInt64.toNat_ofNat', Nat.mod_eq_of_lt (by omega),
    Nat.mod_eq_of_lt (by omega)] at hij
  omega

/-! ## Several requesters -/

/-- Each of the first two requesters connects and sends a request. -/
def twoRequests : List Event :=
  [.requester 0 .connected, .requester 0 (.request .accepted), .requester 1 .connected,
    .requester 1 (.request .accepted)]

/-- Two requesters stamp their first requests alike. -/
theorem stamped_twoRequests {w₀ : RpcWorker} (ho : Opened w₀) (hn : 2 ≤ w₀.senders) :
    (exec step w₀ twoRequests).isSome = true ∧
      stamped w₀ twoRequests = [(w₀.base.channelName, 1), (w₀.base.channelName, 1)] := by
  obtain ⟨n, hn⟩ : ∃ n, w₀.senders = n + 2 := ⟨w₀.senders - 2, by omega⟩
  have hrq : w₀.requesters = {} :: {} :: .replicate n {} := by rw [ho.requesters, hn]; rfl
  simp [twoRequests, exec_cons, exec_nil, stamped, stamp, step, RpcRequester.step, RpcRequester.send,
    RpcRequester.nextRequest, BaseWorker.recordSent, hrq]

end RpcWorker

open RpcWorker in
/-- **When the identities of RPC requests are unique.** In every measurement
window of a commands or queries worker, for every interleaving of its
requesters, no (worker-id, sequence) pair is stamped twice and correct replies
are no duplicates, exactly when the worker has one requester. -/
theorem identities_unique_iff (c : RunnableConfig) (idx : Nat) (pat : RpcPattern)
    (he : (c.cfg.getWorkerConfig pat.name).enabled = true) :
    (∀ warm w₀ es, exec step (new c idx pat) (warm ++ windowOpens) = .some w₀ →
        (∀ e ∈ es, e.inWindow = true) → es.length < 2 ^ 64 → (exec step w₀ es).isSome = true →
          Identified w₀ es) ↔
      (c.cfg.getWorkerConfig pat.name).sendersPerChannel = 1 := by
  have hpos := (c.accepted.worker he).senders (by cases pat <;> rfl)
  have hsenders : sendersOf c pat.name = (c.cfg.getWorkerConfig pat.name).sendersPerChannel.toNat := by
    simp only [sendersOf]
    rw [if_neg (by omega)]
  constructor
  · intro h
    obtain ⟨w₀, hw₀⟩ : ∃ w₀, exec step (new c idx pat) ([] ++ windowOpens) = .some w₀ := ⟨_, rfl⟩
    obtain ⟨ho, hs⟩ := opened hw₀
    by_contra hne
    obtain ⟨hrun, hst⟩ := stamped_twoRequests ho (by omega)
    have hid := h [] w₀ twoRequests hw₀ (by simp [twoRequests, Event.inWindow]) (by decide) hrun
    have := hid.nodup
    rw [hst] at this
    simp at this
  · intro hone warm w₀ es hw₀ hin hn hrun
    obtain ⟨ho, hs⟩ := opened hw₀
    refine solo_identified ?_ ho hin hn hrun
    rw [ho.requesters, hs, hsenders, hone]
    rfl

open RpcWorker in
/-- The default configuration has one requester. -/
theorem identities_unique_default :
    ∃ w₀, exec step (new smallWindow 1 .commands) ([] ++ windowOpens) = .some w₀ ∧
      Identified w₀ [.requester 0 .connected, .requester 0 (.request .accepted)] :=
  ⟨_, rfl, (identities_unique_iff smallWindow 1 .commands rfl).mpr rfl [] _ _ rfl (by decide)
    (by decide) rfl⟩

/-- The same with two requesters for commands. -/
def twoSenders : RunnableConfig where
  cfg :=
    { smallWindow.cfg with
      workers := { defaultConfig.workers with
        commands := { defaultConfig.workers.commands with sendersPerChannel := 2 } } }
  accepted := by decide +kernel
  window := minReorderWindow
  window_eq := rfl

open RpcWorker in
/-- The replies that `twoRequests` gets. -/
def twoReplies : List RpcWorker.Event :=
  [.requester 0 (.reply (buildReply true (({} : RpcRequester).nextRequest (channel .commands 1))) 0),
    .requester 1 (.reply (buildReply true (({} : RpcRequester).nextRequest (channel .commands 1))) 0)]

set_option maxRecDepth 20000 in
open RpcWorker in
/-- Two requesters stamp the same pair, and the second correct reply is counted
as a duplicate. -/
theorem two_senders_collide :
    ∃ w₀, exec step (new twoSenders 1 .commands) windowOpens = .some w₀ ∧
      ¬ (stamped w₀ (twoRequests ++ twoReplies)).Nodup ∧
      (exec step w₀ (twoRequests ++ twoReplies)).map (·.base.duplicated) = .some 1 :=
  ⟨_, rfl, by decide +kernel, by decide +kernel⟩

end Burnin
