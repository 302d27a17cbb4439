/-
The envelope on the messages themselves (`burnin/worker/props.go`), and the
parts of `rpc.go` that read and copy it.

A property of a message is a value of any dynamic type (`Value`). What the
handlers find in a message is the `Envelope` of the other modules
(`delivered`), and a reply that a responder builds from a request of `doOne` is,
as `accountReply` reads it, the `Reply` of theirs (`asReply_buildReply`).

`envelope_round_trip`: a message's envelope is read back as it was written, and
survives the responder. `rejects_iff`: a message without a usable sequence is
turned away exactly when it also has no worker-id.
-/
import Mathlib.Data.List.AList
import Burnin.Payload
import Burnin.Rpc

namespace Burnin

/-! ## Messages -/

/-- A value of type `any`. -/
inductive Value where
  | nil
  | str (s : String)
  | bytes (b : List UInt8)
  | uint64 (n : UInt64)
  | int64 (n : Int64)
  | int (n : Int64)
  | bool (b : Bool)
  /-- of another type, with that type's name -/
  | other (type : String)
  deriving DecidableEq

/-- A `map[string]any`. -/
abbrev PropertyMap := AList fun _ : String => Value

/-- `ap[key]`. -/
def propertyAt (ap : PropertyMap) (key : String) : Value := (ap.lookup key).getD .nil

structure MessageProperties where
  toAddress : Option String := .none
  replyTo : Option String := .none
  messageID : Value := .nil
  correlationID : Value := .nil

/-- How go-amqp keeps the body of a message. -/
structure AmqpData where
  Data : Type
  newMessage : List UInt8 → Data
  getData : Data → List UInt8
  getData_newMessage : ∀ body, getData (newMessage body) = body

/-- The sections of the body in a list, of which the first is read. -/
def AmqpData.sections : AmqpData where
  Data := List (List UInt8)
  newMessage body := [body]
  getData sections := sections.headD []
  getData_newMessage _ := rfl

structure AmqpMessage (amqp : AmqpData) where
  data : amqp.Data
  properties : Option MessageProperties := .none
  applicationProperties : Option PropertyMap := .none

variable {amqp : AmqpData}

/-- `GetData`. -/
def AmqpMessage.getData (m : AmqpMessage amqp) : List UInt8 := amqp.getData m.data

/-- A map of the four properties of the envelope. -/
def envelopeProperties (workerID sequence contentHash timestampNS : Value) : PropertyMap :=
  ((((∅ : PropertyMap).insert propWorkerID workerID).insert propSequence sequence).insert propContentHash
    contentHash).insert propTimestampNS timestampNS

/-- `buildMessage`, at the time `now` of `UnixNano`. -/
def buildMessage (amqp : AmqpData) (producerID : String) (seq : UInt64) (body : List UInt8)
    (crcHex : String) (now : Int64) : AmqpMessage amqp where
  data := amqp.newMessage body
  applicationProperties := .some
    (envelopeProperties (.str producerID) (.str (Text.formatUint seq)) (.str crcHex)
      (.str (Text.formatInt now.toInt)))

def asString : Value → String
  | .str s => s
  | .bytes b => Text.ofBytes b
  | _ => ""

def asUint64 : Value → UInt64
  | .str s => (Text.parseUint s).getD 0
  | .uint64 n => n
  | .int64 n => if 0 ≤ n then n.toUInt64 else 0
  | .int n => if 0 ≤ n then n.toUInt64 else 0
  | _ => 0

def asInt64 : Value → Int64
  | .str s => .ofInt ((Text.parseInt s).getD 0)
  | .int64 n => n
  | .uint64 n => n.toInt64
  | .int n => n
  | _ => 0

/-- The results of `extractMeta`. The zero time is none. -/
structure Extracted where
  producerID : String := ""
  seq : UInt64 := 0
  crcHex : String := ""
  sentAt : Option Int64 := .none
  ok : Bool := false
  deriving DecidableEq

/-- `extractMeta`, on the application-properties of the message, none when
there is no message. -/
def extractMeta : Option PropertyMap → Extracted
  | .none => {}
  | .some ap =>
    let producerID := asString (propertyAt ap propWorkerID)
    let ns := asInt64 (propertyAt ap propTimestampNS)
    { producerID
      seq := asUint64 (propertyAt ap propSequence)
      crcHex := asString (propertyAt ap propContentHash)
      sentAt := if 0 < ns then .some ns else .none
      ok := producerID != "" }

namespace AmqpMessage

def extracted (m : AmqpMessage amqp) : Extracted := extractMeta m.applicationProperties

/-- What a handler goes on with, so long after the message was sent. -/
def envelope (m : AmqpMessage amqp) (latency : Option Int) : Option Envelope :=
  if m.extracted.ok then
    .some
      { producerID := m.extracted.producerID
        seq := m.extracted.seq
        crcMismatch := m.extracted.crcHex != "" && !verifyCRC m.getData m.extracted.crcHex
        latency }
  else .none

/-- The envelope in `handleDelivery`, `drainSub` and `handleStoreDelivery`, at
the time `now`. -/
def delivered (m : AmqpMessage amqp) (now : Int) : Option Envelope :=
  m.envelope (m.extracted.sentAt.map fun t => now - t.toInt)

end AmqpMessage

/-! ## Replies -/

def propExecuted : String := "x-opt-kubemq-executed"
def propError : String := "x-opt-kubemq-error"

/-- What `buildReply` copies of the application-properties of a request. -/
def copiedProperties : Option PropertyMap → PropertyMap
  | .none => ∅
  | .some ap =>
    envelopeProperties (propertyAt ap propWorkerID) (propertyAt ap propSequence)
      (propertyAt ap propContentHash)
      (propertyAt ap propTimestampNS)

/-- The outcome of a command on its reply. -/
def stampOutcome (withOutcome : Bool) (ap : PropertyMap) : PropertyMap :=
  if withOutcome then (ap.insert propExecuted (.bool true)).insert propError (.str "") else ap

namespace AmqpMessage

/-- `buildReply`. It is called on a request with a reply-to only. -/
def buildReply (withOutcome : Bool) (req : AmqpMessage amqp) : Option (AmqpMessage amqp) :=
  match req.properties with
  | .none => .none
  | .some ps => ps.replyTo.map fun replyTo =>
    { data := amqp.newMessage req.getData
      properties := .some
        { toAddress := .some replyTo
          correlationID := if ps.correlationID ≠ .nil then ps.correlationID else ps.messageID }
      applicationProperties :=
        .some (stampOutcome withOutcome (copiedProperties req.applicationProperties)) }

def correlationString (m : AmqpMessage amqp) : String :=
  match m.properties with
  | .none => ""
  | .some ps => asString ps.correlationID

def commandExecuted (m : AmqpMessage amqp) : Bool × String :=
  match m.applicationProperties with
  | .none => (false, "")
  | .some ap =>
    (match propertyAt ap propExecuted with
      | .bool executed => executed
      | _ => false,
    match propertyAt ap propError with
      | .str errText => errText
      | _ => "")

/-- A reply as `accountReply` reads it, without the time it was sent. -/
def asReply (m : AmqpMessage amqp) : Reply where
  correlation := m.correlationString
  executed := m.commandExecuted.1
  envelope := m.envelope .none

end AmqpMessage

/-- The message of `doOne`. -/
def RpcRequester.requestMessage (amqp : AmqpData) (rq : RpcRequester) (channelName replyTo : String)
    (body : List UInt8 × String) (now : Int64) : AmqpMessage amqp :=
  { buildMessage amqp channelName (rq.seq + 1) body.1 body.2 now with
    properties := .some
      { replyTo := .some replyTo
        correlationID := .str (channelName ++ "-" ++ Text.formatUint (rq.corr + 1)) } }

/-! ## The envelope is read back -/

theorem propertyAt_insert (ap : PropertyMap) (key : String) (v : Value) :
    propertyAt (ap.insert key v) key = v := by
  rw [propertyAt, AList.lookup_insert, Option.getD_some]

theorem propertyAt_insert_ne {key key' : String} (ap : PropertyMap) (v : Value) (h : key' ≠ key) :
    propertyAt (ap.insert key v) key' = propertyAt ap key' := by
  rw [propertyAt, AList.lookup_insert_ne h, propertyAt]

theorem extractMeta_envelopeProperties (workerID sequence contentHash timestampNS : Value) :
    extractMeta (.some (envelopeProperties workerID sequence contentHash timestampNS)) =
      { producerID := asString workerID
        seq := asUint64 sequence
        crcHex := asString contentHash
        sentAt := if 0 < asInt64 timestampNS then .some (asInt64 timestampNS) else .none
        ok := asString workerID != "" } := by
  have h1 : propWorkerID ≠ propSequence := by decide
  have h2 : propWorkerID ≠ propContentHash := by decide
  have h3 : propWorkerID ≠ propTimestampNS := by decide
  have h4 : propSequence ≠ propContentHash := by decide
  have h5 : propSequence ≠ propTimestampNS := by decide
  have h6 : propContentHash ≠ propTimestampNS := by decide
  simp only [extractMeta, envelopeProperties, propertyAt_insert, propertyAt_insert_ne _ _ h1,
    propertyAt_insert_ne _ _ h2, propertyAt_insert_ne _ _ h3, propertyAt_insert_ne _ _ h4,
    propertyAt_insert_ne _ _ h5, propertyAt_insert_ne _ _ h6]

theorem asUint64_formatUint (n : UInt64) : asUint64 (.str (Text.formatUint n)) = n := by
  rw [asUint64, Text.parseUint_formatUint, Option.getD_some]

theorem asInt64_formatInt (n : Int64) : asInt64 (.str (Text.formatInt n.toInt)) = n := by
  rw [asInt64, Text.parseInt_formatInt n.le_toInt n.toInt_lt, Option.getD_some, Int64.ofInt_toInt]

variable (amqp) in
theorem extracted_buildMessage (producerID : String) (seq : UInt64) (body : List UInt8) (crcHex : String)
    (now : Int64) :
    (buildMessage amqp producerID seq body crcHex now).extracted =
      { producerID, seq, crcHex, sentAt := if 0 < now then .some now else .none,
        ok := producerID != "" } := by
  rw [AmqpMessage.extracted, buildMessage, extractMeta_envelopeProperties, asUint64_formatUint,
    asInt64_formatInt]
  rfl

/-! ## A reply carries it -/

/-- The responder copies what `extractMeta` reads, of any request. -/
theorem extractMeta_copiedProperties (ap : Option PropertyMap) :
    extractMeta (.some (copiedProperties ap)) = extractMeta ap := by
  cases ap with
  | none => rfl
  | some ap =>
    rw [copiedProperties, extractMeta_envelopeProperties]
    rfl

theorem extractMeta_stampOutcome (withOutcome : Bool) (ap : PropertyMap) :
    extractMeta (.some (stampOutcome withOutcome ap)) = extractMeta (.some ap) := by
  have hother : ∀ key, key ≠ propExecuted → key ≠ propError →
      propertyAt (stampOutcome withOutcome ap) key = propertyAt ap key := by
    intro key hexecuted herror
    rw [stampOutcome]
    split
    · rw [propertyAt_insert_ne _ _ herror, propertyAt_insert_ne _ _ hexecuted]
    · rfl
  rw [extractMeta, hother propWorkerID (by decide) (by decide),
    hother propSequence (by decide) (by decide), hother propContentHash (by decide) (by decide),
    hother propTimestampNS (by decide) (by decide)]
  rfl

theorem propertyAt_copiedProperties {key : String}
    (h : key ∉ [propWorkerID, propSequence, propContentHash, propTimestampNS])
    (ap : Option PropertyMap) : propertyAt (copiedProperties ap) key = .nil := by
  simp only [List.mem_cons, List.not_mem_nil, or_false, not_or] at h
  obtain ⟨h1, h2, h3, h4⟩ := h
  cases ap with
  | none => rfl
  | some ap =>
    rw [copiedProperties, envelopeProperties, propertyAt_insert_ne _ _ h4, propertyAt_insert_ne _ _ h3,
      propertyAt_insert_ne _ _ h2, propertyAt_insert_ne _ _ h1]
    rfl

namespace AmqpMessage

/-- What a reply has of its request. -/
structure Answers (withOutcome : Bool) (req reply : AmqpMessage amqp) (ps : MessageProperties)
    (replyTo : String) : Prop where
  toAddress : ∃ ps', reply.properties = .some ps' ∧ ps'.toAddress = .some replyTo
  getData : reply.getData = req.getData
  extracted : reply.extracted = req.extracted
  correlationString : reply.correlationString =
    asString (if ps.correlationID ≠ .nil then ps.correlationID else ps.messageID)
  commandExecuted : reply.commandExecuted = (withOutcome, "")

theorem buildReply_answers (withOutcome : Bool) {req : AmqpMessage amqp} {ps : MessageProperties}
    {replyTo : String} (hps : req.properties = .some ps) (hreply : ps.replyTo = .some replyTo) :
    ∃ reply, req.buildReply withOutcome = .some reply ∧ Answers withOutcome req reply ps replyTo := by
  rw [buildReply, hps]
  simp only [hreply, Option.map_some]
  refine ⟨_, rfl, ⟨⟨_, rfl, rfl⟩, amqp.getData_newMessage _, ?_, rfl, ?_⟩⟩
  · rw [AmqpMessage.extracted, extractMeta_stampOutcome, extractMeta_copiedProperties,
      AmqpMessage.extracted]
  · have hexecuted : propExecuted ≠ propError := by decide
    cases withOutcome with
    | true =>
      simp only [AmqpMessage.commandExecuted, stampOutcome, if_true, propertyAt_insert,
        propertyAt_insert_ne _ _ hexecuted]
    | false =>
      have hnil : ∀ key ∈ [propExecuted, propError],
          propertyAt (copiedProperties req.applicationProperties) key = .nil :=
        fun key hkey => propertyAt_copiedProperties (by revert key; decide) _
      simp only [AmqpMessage.commandExecuted, stampOutcome, Bool.false_eq_true, if_false,
        hnil propExecuted (by decide), hnil propError (by decide)]

end AmqpMessage

section
variable (amqp)

/-- **The envelope round trip.** A message's envelope is read back as it was
written, and the reply to a request carries the same one, with a body that
passes its tag, the request's correlation-id and the outcome of a command. -/
theorem envelope_round_trip (producerID : String) (seq : UInt64) (body : List UInt8) (t : Int64)
    (hproducer : producerID ≠ "") (ht : 0 < t) :
    (buildMessage amqp producerID seq body (crcHex body) t).extracted =
        { producerID, seq, crcHex := crcHex body, sentAt := .some t, ok := true } ∧
      ∀ (withOutcome : Bool) (ps : MessageProperties) (replyTo id : String), ps.replyTo = .some replyTo →
        ps.correlationID = .str id ∨ ps.correlationID = .nil ∧ ps.messageID = .str id →
        ∃ reply,
          AmqpMessage.buildReply withOutcome
              { buildMessage amqp producerID seq body (crcHex body) t with
                properties := .some ps } = .some reply ∧
            reply.extracted = (buildMessage amqp producerID seq body (crcHex body) t).extracted ∧
            verifyCRC reply.getData reply.extracted.crcHex = true ∧
            reply.correlationString = id ∧
            (reply.commandExecuted.1 = true ↔ withOutcome = true) := by
  have hread : (buildMessage amqp producerID seq body (crcHex body) t).extracted =
      { producerID, seq, crcHex := crcHex body, sentAt := .some t, ok := true } := by
    rw [extracted_buildMessage amqp, if_pos ht, bne_iff_ne.mpr hproducer]
  refine ⟨hread, fun withOutcome ps replyTo id hreplyTo hid => ?_⟩
  let req : AmqpMessage amqp :=
    { buildMessage amqp producerID seq body (crcHex body) t with properties := .some ps }
  have hreq : req.properties = .some ps := rfl
  obtain ⟨reply, hreply, ha⟩ := AmqpMessage.buildReply_answers withOutcome hreq hreplyTo
  have hbody : req.getData = body := amqp.getData_newMessage body
  refine ⟨reply, hreply, ha.extracted, ?_, ?_, ?_⟩
  · have htag : reply.extracted.crcHex = crcHex body := by
      rw [ha.extracted]
      exact congrArg Extracted.crcHex hread
    rw [ha.getData, hbody, htag]
    exact verifyCRC_crcHex body
  · rw [ha.correlationString]
    rcases hid with hc | ⟨hc, hm⟩
    · rw [hc]
      rfl
    · rw [hc, hm]
      rfl
  · rw [ha.commandExecuted]

end

/-- The last sequence at the last time, and a query that has a message-id only. -/
theorem envelope_round_trip_last :
    (buildMessage .sections "p" (-1) [97] (crcHex [97]) Int64.maxValue).extracted.ok = true ∧
      ∃ reply,
        AmqpMessage.buildReply false
            { buildMessage .sections "p" (-1) [97] (crcHex [97]) Int64.maxValue with
              properties := .some { replyTo := .some "r", messageID := .str "m" } } = .some reply ∧
          reply.extracted.seq = -1 ∧ reply.correlationString = "m" := by
  obtain ⟨hread, hreply⟩ :=
    envelope_round_trip .sections "p" (-1) [97] Int64.maxValue (by decide) (by decide)
  obtain ⟨reply, hbuild, hextracted, -, hcorr, -⟩ := hreply false
    { replyTo := .some "r", messageID := .str "m" } "r" "m" rfl (.inr ⟨rfl, rfl⟩)
  refine ⟨congrArg Extracted.ok hread, reply, hbuild, ?_, hcorr⟩
  rw [hextracted, hread]

/-- **What an RPC worker exchanges**: the reply to the message of `doOne` is, as
`accountReply` reads it, the reply to the request that it stands for. -/
theorem asReply_buildReply (withOutcome : Bool) (rq : RpcRequester) {channelName : String}
    (hname : channelName ≠ "") (replyTo : String) (uint64 : Nat → UInt64) (size : Int) (now : Int64) :
    ((rq.requestMessage amqp channelName replyTo (build uint64 size) now).buildReply withOutcome).map
        AmqpMessage.asReply = .some (buildReply withOutcome (rq.nextRequest channelName)) := by
  let req := rq.requestMessage amqp channelName replyTo (build uint64 size) now
  let id := channelName ++ "-" ++ Text.formatUint (rq.corr + 1)
  have hps : req.properties = .some { replyTo := .some replyTo, correlationID := .str id } := rfl
  have hread : req.extracted = _ :=
    extracted_buildMessage amqp channelName (rq.seq + 1) (build uint64 size).1 (build uint64 size).2 now
  have hbody : req.getData = (build uint64 size).1 := amqp.getData_newMessage _
  obtain ⟨reply, hreply, ha⟩ := AmqpMessage.buildReply_answers withOutcome hps rfl
  have htag : verifyCRC reply.getData reply.extracted.crcHex = true := by
    rw [ha.getData, hbody, ha.extracted, hread, (build_spec uint64 size).2]
    exact verifyCRC_crcHex _
  have henvelope : reply.envelope .none = .some { producerID := channelName, seq := rq.seq + 1 } := by
    rw [AmqpMessage.envelope, htag, ha.extracted, hread, bne_iff_ne.mpr hname, if_pos rfl,
      Bool.not_true, Bool.and_false]
  have hasReply : reply.asReply = buildReply withOutcome (rq.nextRequest channelName) := by
    rw [AmqpMessage.asReply, ha.correlationString, ha.commandExecuted, henvelope]
    rfl
  rw [hreply, Option.map_some, hasReply]

/-! ## Garbled envelopes -/

/-- A worker-id: a non-empty string or a non-empty sequence of bytes. -/
def NamesProducer : Value → Prop
  | .str s => s ≠ ""
  | .bytes b => b ≠ []
  | _ => False

/-- The sequence that a value denotes: a decimal text in range, or a number that
is not negative of one of the accepted types. -/
def Denotes (n : UInt64) : Value → Prop
  | .str s => Text.parseUint s = .some n
  | .uint64 m => m = n
  | .int64 m => m.toInt = n.toNat
  | .int m => m.toInt = n.toNat
  | _ => False

/-- The properties of a message that can be tracked. -/
structure Usable (ap : PropertyMap) : Prop where
  workerID : NamesProducer (propertyAt ap propWorkerID)
  sequence : ∃ n, Denotes n (propertyAt ap propSequence)

/-- **A garbled envelope is rejected**: only a usable one is ok, and a message
without one reaches no tracker, neither a worker's nor a subscriber's. -/
structure Rejects (m : AmqpMessage amqp) : Prop where
  usable : m.extracted.ok = true → ∃ ap, m.applicationProperties = .some ap ∧ Usable ap
  untracked : (¬ ∃ ap, m.applicationProperties = .some ap ∧ Usable ap) →
    ∀ (b : BaseWorker) (st : SubTracker) (now : Int),
      (b.handleDelivery (m.delivered now)).trk = b.trk ∧
        (b.drainSub st (m.delivered now)).2 = st ∧
        (b.handleStoreDelivery st (m.delivered now)).1.trk = b.trk ∧
        (b.handleStoreDelivery st (m.delivered now)).2 = st ∧
        (b.recordEnvelope (m.envelope .none)).trk = b.trk

theorem asString_ne_empty (v : Value) : asString v ≠ "" ↔ NamesProducer v := by
  cases v with
  | str s => rfl
  | bytes b =>
    show String.ofList (b.map fun x => Char.ofNat x.toNat) ≠ "" ↔ b ≠ []
    rw [Ne, Ne, String.ofList_eq_empty_iff, List.map_eq_nil_iff]
  | nil => simp [asString, NamesProducer]
  | uint64 n => simp [asString, NamesProducer]
  | int64 n => simp [asString, NamesProducer]
  | int n => simp [asString, NamesProducer]
  | bool b => simp [asString, NamesProducer]
  | other type => simp [asString, NamesProducer]

theorem extracted_ok (m : AmqpMessage amqp) :
    m.extracted.ok = true ↔
      ∃ ap, m.applicationProperties = .some ap ∧ NamesProducer (propertyAt ap propWorkerID) := by
  rw [AmqpMessage.extracted]
  cases m.applicationProperties with
  | none => simp [extractMeta]
  | some ap => simp only [extractMeta, bne_iff_ne, asString_ne_empty, Option.some.injEq, exists_eq_left']

/-- **When garbled envelopes are rejected**: a message that names a producer
must have a sequence. -/
theorem rejects_iff (m : AmqpMessage amqp) :
    Rejects m ↔
      ∀ ap, m.applicationProperties = .some ap → NamesProducer (propertyAt ap propWorkerID) →
        ∃ n, Denotes n (propertyAt ap propSequence) := by
  constructor
  · intro h ap hap hname
    obtain ⟨ap', hap', hu⟩ := h.usable ((extracted_ok m).mpr ⟨ap, hap, hname⟩)
    rw [hap, Option.some.injEq] at hap'
    rw [hap']
    exact hu.sequence
  · intro h
    have hok : m.extracted.ok = true → ∃ ap, m.applicationProperties = .some ap ∧ Usable ap := by
      intro hok
      obtain ⟨ap, hap, hname⟩ := (extracted_ok m).mp hok
      exact ⟨ap, hap, hname, h ap hap hname⟩
    refine ⟨hok, fun hnot b st now => ?_⟩
    -- Without a usable envelope the handlers find none, and count the receipt only.
    have hnone : ∀ latency, m.envelope latency = .none := fun latency => if_neg fun h => hnot (hok h)
    rw [AmqpMessage.delivered, hnone, hnone]
    exact ⟨rfl, rfl, rfl, rfl, rfl⟩

/-- A message with a worker-id and no sequence is ok, and its producer is
tracked from sequence 0 on. -/
theorem garbled_tracked :
    let m : AmqpMessage .sections :=
      { data := [], applicationProperties := .some ((∅ : PropertyMap).insert propWorkerID (.str "p")) }
    let b : BaseWorker := { channelName := "c", trk := .new ⟨64, by decide, by decide⟩ }
    m.extracted = { producerID := "p", ok := true } ∧ ¬ Rejects m ∧
      ((b.handleDelivery (m.delivered 0)).trk.producers.lookup "p").map (·.lastSeen) = .some 0 := by
  refine ⟨by decide, fun h => ?_, by decide +kernel⟩
  obtain ⟨ap, hap, hu⟩ := h.usable (by decide)
  obtain ⟨n, hn⟩ := hu.sequence
  rw [← Option.some.inj hap] at hn
  exact hn

end Burnin
