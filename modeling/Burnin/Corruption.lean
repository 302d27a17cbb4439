/-
Corrupted deliveries: what the checksum of a body finds, and what a run does
with it.

The checksum is a shift register that the bits of the body are fed into, the
lowest bit of each byte first (`checksumIEEE_eq`), so a body that was changed
within 32 consecutive bits does not pass its tag (`build_verified_iff`). A
handler that finds it counts the delivery as corrupted, and one that is counted
in the measurement window fails the run (`burst_fails_run`).
-/
import Burnin.Counting
import Burnin.Lib.Shift
import Burnin.Props

namespace Burnin

/-! ## The checksum -/

/-- The reversed IEEE polynomial. -/
def crcPoly : BitVec 32 := 0xedb88320#32

/-- The bits of a byte, the lowest first. -/
def byteBits (b : UInt8) : List Bool := (List.range 8).map b.toBitVec.getLsbD

/-- The bits of a body in the order in which the checksum takes them. -/
def bodyBits (body : List UInt8) : List Bool := body.flatMap byteBits

theorem length_byteBits (b : UInt8) : (byteBits b).length = 8 := rfl

theorem getD_byteBits (b : UInt8) (i : Nat) : (byteBits b).getD i false = b.toBitVec.getLsbD i := by
  by_cases hi : i < 8
  · simp [byteBits, hi]
  · rw [BitVec.getLsbD_of_ge _ _ (by omega), List.getD_eq_getElem?_getD,
      List.getElem?_eq_none (by rw [length_byteBits]; omega), Option.getD_none]

theorem byteBits_inj {b b' : UInt8} (h : byteBits b = byteBits b') : b = b' := by
  refine UInt8.toBitVec_inj.mp (BitVec.eq_of_getLsbD_eq fun i _ => ?_)
  rw [← getD_byteBits, ← getD_byteBits, h]

theorem bodyBits_inj {body body' : List UInt8} (h : bodyBits body = bodyBits body') : body = body' := by
  induction body generalizing body' with
  | nil =>
    cases body' with
    | nil => rfl
    | cons b' body' => cases h
  | cons b body ih =>
    cases body' with
    | nil => cases h
    | cons b' body' =>
      obtain ⟨hb, hrest⟩ := List.append_inj h (by rw [length_byteBits, length_byteBits])
      rw [byteBits_inj hb, ih hrest]

theorem and_one_eq_one (c : UInt32) : c &&& 1 = 1 ↔ c.toBitVec.getLsbD 0 = true := by
  rw [← UInt32.toNat_inj, UInt32.toNat_and, BitVec.getLsbD, Nat.testBit_zero, decide_eq_true_eq]
  exact (Nat.and_one_is_mod c.toNat).congr_left

theorem crcBit_toBitVec (c : UInt32) : (crcBit c).toBitVec = Shift.step crcPoly c.toBitVec := by
  have hshift : (c >>> 1).toBitVec = c.toBitVec >>> 1 := rfl
  simp only [crcBit, Shift.step, and_one_eq_one, apply_ite UInt32.toBitVec, UInt32.toBitVec_xor, hshift]
  rfl

/-- A byte is added to the register at once, and its bits are then shifted out. -/
theorem crcByte_toBitVec (c : UInt32) (b : UInt8) :
    (crcByte c b).toBitVec = Shift.run crcPoly c.toBitVec (byteBits b) := by
  have hconj : Function.Semiconj UInt32.toBitVec crcBit (Shift.step crcPoly) := crcBit_toBitVec
  have hadd : (c ^^^ b.toUInt32).toBitVec = c.toBitVec ^^^ Shift.ofBits 32 (byteBits b) := by
    refine BitVec.eq_of_getLsbD_eq fun i hi => ?_
    rw [UInt32.toBitVec_xor, BitVec.getLsbD_xor, BitVec.getLsbD_xor, Shift.getLsbD_ofBits _ hi,
      getD_byteBits, UInt8.toBitVec_toUInt32, BitVec.getLsbD_setWidth, decide_eq_true hi, Bool.true_and]
  rw [Shift.run_eq_iterate _ (by rw [length_byteBits]; decide), length_byteBits, ← hadd]
  exact hconj.iterate_right 8 _

theorem foldl_crcByte (c : UInt32) (body : List UInt8) :
    (body.foldl crcByte c).toBitVec = Shift.run crcPoly c.toBitVec (bodyBits body) := by
  induction body generalizing c with
  | nil => rfl
  | cons b body ih =>
    rw [List.foldl_cons, ih, crcByte_toBitVec]
    exact (List.foldl_append (l := byteBits b)).symm

/-- **The checksum is a shift register.** -/
theorem checksumIEEE_eq (body : List UInt8) :
    (checksumIEEE body).toBitVec =
      Shift.run crcPoly (BitVec.allOnes 32) (bodyBits body) ^^^ BitVec.allOnes 32 := by
  rw [checksumIEEE, UInt32.toBitVec_xor, foldl_crcByte]
  rfl

theorem crcHex_inj {body body' : List UInt8} (h : crcHex body = crcHex body') :
    checksumIEEE body = checksumIEEE body' := by
  have hpad : Text.padded 16 8 (checksumIEEE body).toNat = Text.padded 16 8 (checksumIEEE body').toNat :=
    String.ofList_inj.mp h
  exact UInt32.toNat_inj.mp (Text.padded_inj (by decide) (by decide) 8 hpad)

/-- `body'` is `body` with a change that is within 32 consecutive bits, those of a
byte taken from the lowest on. -/
def Burst (body body' : List UInt8) : Prop :=
  body' ≠ body ∧ ∃ pre mid mid' post, bodyBits body = pre ++ mid ++ post ∧
    bodyBits body' = pre ++ mid' ++ post ∧
    mid'.length = mid.length ∧ mid.length ≤ 32

theorem Burst.verifyCRC {body body' : List UInt8} (h : Burst body body') :
    Burnin.verifyCRC body' (crcHex body) = false := by
  obtain ⟨hne, pre, mid, mid', post, hbody, hbody', hlen, hle⟩ := h
  refine beq_eq_false_iff_ne.mpr fun hcrc => hne ?_
  have hsum := congrArg UInt32.toBitVec (crcHex_inj hcrc)
  rw [checksumIEEE_eq, checksumIEEE_eq, BitVec.xor_left_inj, hbody, hbody'] at hsum
  have hmid : mid = mid' := Shift.run_burst (by decide) hlen hle hsum.symm
  exact bodyBits_inj (by rw [hbody, hbody', hmid])

/-- **The tag of a body finds every burst.** Of the bodies that differ from the
one that `Build` made in at most 32 consecutive bits, those of a byte taken from
the lowest on, `VerifyCRC` accepts that one only. -/
theorem build_verified_iff (uint64 : Nat → UInt64) (targetSize : Int) {body' : List UInt8}
    (h : body' = (build uint64 targetSize).1 ∨ Burst (build uint64 targetSize).1 body') :
    verifyCRC body' (build uint64 targetSize).2 = true ↔ body' = (build uint64 targetSize).1 := by
  rw [(build_spec uint64 targetSize).2]
  constructor
  · intro hv
    refine h.resolve_right fun hb => ?_
    rw [hb.verifyCRC] at hv
    cases hv
  · intro hb
    rw [hb]
    exact verifyCRC_crcHex _

theorem build_five : (build (fun _ => 0x0504030201) 5).1 = [1, 2, 3, 4, 5] := by decide +kernel

theorem burst_overwritten : Burst [1, 2, 3, 4, 5] [1, 0xff, 0, 0x80, 5] :=
  ⟨by decide, byteBits 1, bodyBits [2, 3, 4], bodyBits [0xff, 0, 0x80], byteBits 5, by decide,
    by decide, by decide, by decide⟩

theorem verified_iff_overwritten :
    verifyCRC [1, 0xff, 0, 0x80, 5] (build (fun _ => 0x0504030201) 5).2 = true ↔
      [1, 0xff, 0, 0x80, 5] = (build (fun _ => 0x0504030201) 5).1 :=
  build_verified_iff _ _ (.inr (build_five ▸ burst_overwritten))

theorem crcHex_ne_empty (body : List UInt8) : crcHex body ≠ "" := by
  intro h
  have hnil : Text.padded 16 8 (checksumIEEE body).toNat = [] := String.ofList_inj.mp h
  exact Nat.toDigits_ne_nil (List.append_eq_nil_iff.mp hnil).2

/-- A message that was built for `body` and is delivered with another, that
differs in a burst. -/
structure BurstMessage (amqp : AmqpData) (producerID : String) (seq : UInt64)
    (m : AmqpMessage amqp) where
  body : List UInt8
  now : Int64
  properties : m.applicationProperties =
    (buildMessage amqp producerID seq body (crcHex body) now).applicationProperties
  burst : Burst body m.getData

theorem BurstMessage.delivered {amqp : AmqpData} {producerID : String} {seq : UInt64}
    {m : AmqpMessage amqp} (h : BurstMessage amqp producerID seq m) (hname : producerID ≠ "")
    (now : Int) :
    ∃ latency, m.delivered now = .some { producerID, seq, crcMismatch := true, latency } := by
  have hmeta : m.extracted =
      { producerID, seq, crcHex := crcHex h.body, sentAt := if 0 < h.now then .some h.now else .none,
        ok := producerID != "" } := by
    rw [← extracted_buildMessage amqp, AmqpMessage.extracted, AmqpMessage.extracted, h.properties]
  refine ⟨(if 0 < h.now then .some h.now else .none : Option Int64).map fun t => now - t.toInt, ?_⟩
  rw [AmqpMessage.delivered, AmqpMessage.envelope, hmeta]
  simp [hname, h.burst.verifyCRC, crcHex_ne_empty]

/-! ## What is counted -/

namespace BaseWorker

theorem inspect_corrupted (b : BaseWorker) (m : Envelope) :
    (b.inspect m).corrupted = b.corrupted + m.crcMismatch.toNat := by
  unfold inspect
  cases m.latency <;> cases m.crcMismatch <;> rfl

theorem recordTracked_corrupted (b : BaseWorker) (p : String) (seq : UInt64) :
    (b.recordTracked p seq).corrupted = b.corrupted := by
  unfold recordTracked
  dsimp only
  split <;> rfl

theorem recordSub_corrupted (b : BaseWorker) (st : SubTracker) (seq : UInt64) :
    (b.recordSub st seq).1.corrupted = b.corrupted := by
  unfold recordSub
  dsimp only
  split <;> rfl

end BaseWorker

namespace Worker

theorem handle_corrupted_none (w : Worker) (sub : Nat) :
    (w.handle sub .none).base.corrupted = w.base.corrupted := by
  unfold handle
  cases w.detectors with
  | none => rfl
  | subTrackers ts =>
    dsimp only
    cases ts[sub]? <;> rfl
  | storeTrk st => rfl

/-- A worker with these detectors has a subscriber `sub`; those of the other
workers are all served by one handler. -/
def hears : Detectors → Nat → Bool
  | .subTrackers ts, sub => decide (sub < ts.length)
  | .none, _ | .storeTrk _, _ => true

theorem handle_corrupted (w : Worker) (sub : Nat) (m : Envelope) :
    (w.handle sub (.some m)).base.corrupted = w.base.corrupted +
      (hears w.detectors sub && m.crcMismatch).toNat := by
  unfold handle
  cases w.detectors with
  | none =>
    simp [hears, BaseWorker.handleDelivery, BaseWorker.recordReceived,
      BaseWorker.recordTracked_corrupted, BaseWorker.inspect_corrupted]
  | subTrackers ts =>
    dsimp only
    cases hts : ts[sub]? with
    | none =>
      have hlen := List.getElem?_eq_none_iff.mp hts
      simp [hears, Nat.not_lt.mpr hlen]
    | some st =>
      have hlt := (List.getElem?_eq_some_iff.mp hts).1
      simp [hears, hlt, BaseWorker.drainSub, BaseWorker.recordReceived, BaseWorker.recordSub_corrupted,
        BaseWorker.inspect_corrupted]
  | storeTrk st =>
    simp [hears, BaseWorker.handleStoreDelivery, BaseWorker.recordReceived,
      BaseWorker.recordTracked_corrupted, BaseWorker.recordSub_corrupted, BaseWorker.inspect_corrupted]

/-- An event that delivers a corrupted body to a worker of pattern `pat`. -/
def Event.corrupts (c : RunnableConfig) (pat : Pattern) : Event → Bool
  | .deliver sub _ crcMismatch _ => (pat ≠ .events || decide (sub < subscribers c)) && crcMismatch
  | _ => false

theorem hears_after (c : RunnableConfig) (idx : Nat) (pat : Pattern) (es : List Event) (sub : Nat) :
    hears ((new c idx pat).after es).detectors sub =
      (pat ≠ .events || decide (sub < subscribers c)) := by
  rw [detectors_after]
  cases pat <;> simp [detectorsOf, hears]

/-- **The corrupted deliveries** that a worker has counted are those of the
measurement. -/
theorem corrupted_after (c : RunnableConfig) (idx : Nat) (pat : Pattern) (es : List Event) :
    ((new c idx pat).after es).base.corrupted = (measured es).countP (Event.corrupts c pat) := by
  induction es using List.reverseRecOn with
  | nil => cases pat <;> rfl
  | append_singleton es e ih =>
    have hkeep (he : e ≠ .resetAfterWarmup)
        (h : (((new c idx pat).after es).step e).base.corrupted =
          ((new c idx pat).after es).base.corrupted + (e.corrupts c pat).toNat) :
        ((new c idx pat).after (es ++ [e])).base.corrupted =
          (measured (es ++ [e])).countP (Event.corrupts c pat) := by
      rw [after_snoc, h, ih, measured_snoc, if_neg he, List.countP_append, List.countP_singleton]
      cases e.corrupts c pat <;> rfl
    cases e with
    | resetAfterWarmup =>
      rw [after_snoc, measured_snoc, if_pos rfl]
      rfl
    | deliver sub seq crcMismatch latency =>
      refine hkeep (by simp) ?_
      rw [step, handle_corrupted, hears_after]
      rfl
    | untracked sub => exact hkeep (by simp) (handle_corrupted_none _ sub)
    | send o => exact hkeep (by simp) (by cases o <;> rfl)
    | _ => exact hkeep (by simp) rfl

end Worker

theorem captured_corrupted_ne_zero (hist : Histogram) {c : RunnableConfig} {pat : Pattern}
    (runs : List (ChannelRun c pat.name)) (hlen : (runs.map (·.events.length)).sum < 2 ^ 64)
    {r : ChannelRun c pat.name} (hr : r ∈ runs) {e : Worker.Event}
    (he : e ∈ Worker.measured (AnyWorker.plains r.events)) (hc : e.corrupts c pat = true) :
    (captured hist runs).corrupted ≠ 0 := by
  have hcount (r : ChannelRun c pat.name) : r.worker.base.corrupted =
      (Worker.measured (AnyWorker.plains r.events)).countP (Worker.Event.corrupts c pat) := by
    rw [r.worker_plain]
    exact Worker.corrupted_after c r.idx pat _
  have hle (r : ChannelRun c pat.name) : r.worker.base.corrupted ≤ r.events.length := by
    rw [hcount]
    exact (List.countP_le_length.trans (List.rtakeWhile_suffix _ _).length_le).trans
      (List.length_filterMap_le _ _)
  have hlt : (runs.map (·.worker.base.corrupted)).sum < 2 ^ 64 :=
    Nat.lt_of_le_of_lt (List.sum_le_sum fun r _ => hle r) hlen
  have hpos : 0 < (runs.map (·.worker.base.corrupted)).sum := by
    refine Nat.lt_of_lt_of_le ?_ (List.single_le_sum (by simp) _ (List.mem_map_of_mem hr))
    rw [hcount]
    exact List.countP_pos_iff.mpr ⟨e, he, hc⟩
  rw [captured_counter (f := (·.corrupted)) (g := (·.corrupted)) rfl (fun _ _ => rfl) fun _ _ => rfl]
  intro h
  have h := congrArg UInt64.toNat h
  rw [UInt64.toNat_ofNat_of_lt' hlt] at h
  exact absurd h (Nat.ne_of_gt hpos)

theorem channel_ne_empty (name : WorkerName) (idx : Nat) : channel name idx ≠ "" := by
  intro h
  have hlen : ("amqp10.burnin." ++ name.text ++ "." ++ "".pushn '0' (4 - (toString idx).length)
      ++ toString idx).length = 0 := congrArg String.length h
  have htag : "amqp10.burnin.".length = 14 := rfl
  simp only [String.length_append, htag] at hlen
  omega

/-- **One corrupted body fails the run.** When a message that was built for one
body is delivered with another that differs in a burst, to any of the channels
of a group and anywhere in the measurement window, the verdict of the engine
fails, and so does the report that is reconciled with it. -/
theorem burst_fails_run (hist : Histogram) {c : RunnableConfig} {pat : Pattern}
    (runs : List (ChannelRun c pat.name)) (hlen : (runs.map (·.events.length)).sum < 2 ^ 64)
    {snaps : Snapshots} (hsnap : snaps.lookup pat.name = .some (captured hist runs))
    {r : ChannelRun c pat.name} (hr : r ∈ runs) {amqp : AmqpData} {seq : UInt64}
    {m : AmqpMessage amqp} (hm : BurstMessage amqp (channel pat.name r.idx) seq m) {now : Int}
    {sub : Nat} (hsub : pat = .events → sub < Worker.subscribers c)
    (hdeliver : ∀ env ∈ m.delivered now, .deliver sub env.seq env.crcMismatch env.latency ∈
      Worker.measured (AnyWorker.plains r.events))
    (measurementDuration : Int) (baseline peak : UInt64) (range : Range snaps) (v : Verdict) :
    (computeVerdict c.cfg measurementDuration baseline peak range.entries).passed = false ∧
      (reconcile v
        (.some (computeVerdict c.cfg measurementDuration baseline peak range.entries))).result =
          .failed := by
  obtain ⟨latency, henv⟩ := hm.delivered (channel_ne_empty pat.name r.idx) now
  have hmem := hdeliver _ henv
  have hcorrupts : (Worker.Event.deliver sub seq true latency).corrupts c pat = true := by
    cases pat with
    | events => simp [Worker.Event.corrupts, hsub rfl]
    | _ => rfl
  have hne := captured_corrupted_ne_zero hist runs hlen hr hmem hcorrupts
  have hfailed : (computeVerdict c.cfg measurementDuration baseline peak range.entries).passed =
      false := by
    refine Bool.eq_false_iff.mpr fun hpassed => hne ?_
    have hentry := range.perm.mem_iff.mpr (AList.mem_lookup_iff.mp hsnap)
    exact (computeVerdict_passed.mp hpassed _ hentry).corrupted
  exact ⟨hfailed, (reconcile_failing hfailed).2⟩

/-- The first message of a queues worker, with three bytes overwritten. -/
def overwrittenMessage : AmqpMessage .sections :=
  { buildMessage .sections (channel .queues 1) 1 [1, 2, 3, 4, 5] (crcHex [1, 2, 3, 4, 5]) 5 with
    data := [[1, 0xff, 0, 0x80, 5]] }

theorem overwritten_fails_run :
    ∃ (latency : Option Int) (snaps : Snapshots) (range : Range snaps),
      snaps.lookup .queues =
          .some (captured countOnly
            [.ofPlain smallWindow .queues 1 [.resetAfterWarmup, .deliver 0 1 true latency]]) ∧
        (computeVerdict smallWindow.cfg 0 0 0 range.entries).passed = false := by
  have hm : BurstMessage .sections (channel .queues 1) 1 overwrittenMessage :=
    { body := [1, 2, 3, 4, 5], now := 5, properties := rfl, burst := burst_overwritten }
  obtain ⟨latency, henv⟩ := hm.delivered (channel_ne_empty .queues 1) 7
  let run : ChannelRun smallWindow Pattern.queues.name :=
    .ofPlain smallWindow .queues 1 [.resetAfterWarmup, .deliver 0 1 true latency]
  let snaps : Snapshots := .insert .queues (captured countOnly [run]) ∅
  have hsnap : snaps.lookup .queues = .some (captured countOnly [run]) := AList.lookup_insert _
  have hmeasured : Worker.measured (AnyWorker.plains run.events) = [.deliver 0 1 true latency] := by
    have hplain : AnyWorker.plains run.events = [.resetAfterWarmup] ++ [.deliver 0 1 true latency] :=
      AnyWorker.plains_map _
    rw [hplain]
    exact Worker.measured_append_of_fresh (by simp) rfl
  have hdeliver : ∀ env ∈ overwrittenMessage.delivered 7,
      .deliver 0 env.seq env.crcMismatch env.latency ∈ Worker.measured
        (AnyWorker.plains run.events) := by
    intro env henv'
    obtain rfl := Option.some.inj (henv.symm.trans henv')
    rw [hmeasured]
    exact List.mem_singleton_self _
  have hlen : ([run].map (·.events.length)).sum < 2 ^ 64 := by
    have hevents : run.events.length = 2 := rfl
    rw [List.map_singleton, List.sum_singleton, hevents]
    decide
  refine ⟨latency, snaps, .stored snaps, hsnap, ?_⟩
  exact (burst_fails_run countOnly [run] hlen hsnap (List.mem_singleton_self _) hm
    (fun h => by cases h) hdeliver
    0 0 0 (.stored snaps) {}).1

end Burnin
