import RustPipeline.SpawnHandoff

set_option autoImplicit false

/-!
# The payload cannot touch the header

Two envelopes with one meta read back with one meta, whatever their payloads. What handling a
message re-injects carries the provenance that was set, and the sender and the thread that were
set as far as these read back from their own text.
-/
namespace RustPipeline.PayloadIsolation
open Text Wire Codec CodecImage RoundTrip Handling Routing Registry Thread Pipeline PipelineEffects
open CallReturn SpawnHandoff PlainPlatform

variable {F : Type} {P : Platform F}

/-- What reading the bytes of a meta and a payload gives for the meta, or the failure. -/
def readHeader (P : Platform F) (m : Meta) (payload : Payload F) : Except Fault Meta :=
  (decodeEnvelope P (encodeEnvelope P ⟨m, payload⟩)).map Envelope.header

theorem readHeader_payload (lawful : Lawful P) (m : Meta) (p q : Payload F) :
    readHeader P m p = readHeader P m q := by
  unfold readHeader
  rw [decode_encode lawful, decode_encode lawful]
  unfold wireImage
  cases headerAddress m.fromAddr.display with
  | error e => rfl
  | ok a =>
    cases headerTarget m.toAddr with
    | error e => rfl
    | ok b =>
      cases a with
      | none => rfl
      | some a => cases ht : headerText m.thread <;> simp [bind, Except.bind, Except.map]

/-! ## What is re-injected -/

/-- Handling the message puts the envelope on the ingress, as an answer or as a call. -/
def Reinjected (P : Platform F) (ctx : DispatchCtx F) (threads : ThreadRegistry) (fresh : String)
    (msg : RoutedMsg F) (env : Envelope F) (raw : Bytes) : Prop :=
  .answer env raw ∈ (processMessage P ctx threads fresh msg).2 ∨
    .call env raw ∈ (processMessage P ctx threads fresh msg).2

theorem Reinjected.encoded {ctx : DispatchCtx F} {threads : ThreadRegistry} {fresh : String}
    {msg : RoutedMsg F} {env : Envelope F} {raw : Bytes}
    (h : Reinjected P ctx threads fresh msg env raw) : raw = encodeEnvelope P env := by
  rcases h with h | h
  · exact ((answer_mem_iff P ctx threads fresh msg env raw).mp h).2
  · exact ((call_mem_iff P ctx threads fresh msg env raw).mp h).2

/-- The address is what its own text reads as. -/
def ReadsBack (a : Address) : Prop := Address.parse a.display = .ok a ∧ trim a.display = a.display

theorem headerAddress_eq_self {a : Address} :
    headerAddress a.display = .ok (some a) ↔ ReadsBack a := by
  constructor
  · intro h
    have hp : ∃ s, Address.parse s = .ok a := by
      unfold headerAddress at h
      cases ht : headerText a.display with
      | none => simp [ht] at h
      | some t =>
        rw [ht] at h
        simp only [parseAddress] at h
        cases hs : Address.parse t with
        | error e => simp [hs, Except.map] at h
        | ok b =>
          rw [hs] at h
          simp only [Except.map, Except.ok.injEq, Option.some_inj] at h
          exact ⟨t, h ▸ hs⟩
    obtain ⟨s, hs⟩ := id hp
    exact ⟨AddressText.parse_display hs, (headerAddress_eq_self_iff hp).mp h⟩
  · intro h
    exact (headerAddress_eq_self_iff ⟨_, h.1⟩).mpr h.2

/-- Two payloads leave the same meta on the wire, or the same failure; and what a handler's
response re-injects reads with the provenance that was set, with the sender that was set exactly
when its text reads back as it, and with the thread that was set exactly when it is trimmed. -/
theorem payload_isolated (lawful : Lawful P) :
    (∀ m p q, readHeader P m p = readHeader P m q) ∧
    ∀ ctx threads fresh msg env raw, Reinjected P ctx threads fresh msg env raw →
      ∀ out, decodeEnvelope P raw = .ok out →
        out.header.provenance = env.header.provenance ∧
        (out.header.fromAddr = env.header.fromAddr ↔ ReadsBack env.header.fromAddr) ∧
        (out.header.thread = env.header.thread ↔ trim env.header.thread = env.header.thread) := by
  refine ⟨readHeader_payload lawful, ?_⟩
  intro ctx threads fresh msg env raw hr out hd
  rw [hr.encoded, decode_encode lawful, wireImage_eq_ok] at hd
  obtain ⟨hfrom, _, hthread, hprov, _⟩ := hd
  refine ⟨hprov.symm, ?_, ?_⟩
  · rw [← headerAddress_eq_self, hfrom, Except.ok.injEq, Option.some_inj]
  · have hne : env.header.thread ≠ "" := by
      intro he
      rw [he] at hthread
      cases hthread
    rw [← headerText_eq_self_iff hne, hthread, Option.some_inj]

/-! ## A forged payload and a dotted name -/

/-- The handler's reply tries to close its element and to state another sender. -/
def forged : Payload UInt32 :=
  ⟨"Reply", .text "</v></payload><meta><from>root</from></meta>"⟩

def forger : DispatchCtx UInt32 :=
  ⟨.build plain.lowercase
    [{ front (.flat "bob") with handler := fun _ _ => .ok (.reply forged) }], []⟩

def forgedReply : Envelope UInt32 := answerEnvelope visitRouted ⟨"user", "u1"⟩ forged

theorem forger_reinjects : Reinjected plain forger booked "u1" visitRouted forgedReply
    (encodeEnvelope plain forgedReply) :=
  .inl ((answer_mem_iff plain _ _ _ _ _ _).mpr ⟨.reply ⟨"user", "u1"⟩ forged rfl rfl, rfl⟩)

/-- The reply as it is read back. -/
def readReply : Envelope UInt32 := ⟨forgedReply.header, ⟨"Reply", imageValue forged.value⟩⟩

theorem decode_forgedReply :
    decodeEnvelope plain (encodeEnvelope plain forgedReply) = .ok readReply :=
  decode_of_image rfl

theorem payload_isolated_forger :
    readHeader plain forgedReply.header forged = readHeader plain forgedReply.header toolAck ∧
    readReply.header.provenance = forgedReply.header.provenance ∧
    (readReply.header.fromAddr = forgedReply.header.fromAddr ↔
      ReadsBack forgedReply.header.fromAddr) ∧
    (readReply.header.thread = forgedReply.header.thread ↔
      trim forgedReply.header.thread = forgedReply.header.thread) :=
  ⟨(payload_isolated plain_lawful).1 forgedReply.header forged toolAck,
    (payload_isolated plain_lawful).2 forger booked "u1" visitRouted forgedReply _
      forger_reinjects readReply decode_forgedReply⟩

/-- The acknowledgement of a spawn to `Address::from("x.y")`. -/
def dottedAck : Envelope UInt32 := spawnAckEnvelope visitRouted "x.y" true

theorem agency_reinjects : Reinjected plain (agency (.flat "x.y")) booked "u1" visitRouted
    dottedAck (encodeEnvelope plain dottedAck) :=
  .inl ((answer_mem_iff plain _ _ _ _ _ _).mpr ⟨.spawned (.flat "x.y") ⟨"Order", .nil⟩
    (agency_spawns _) ((RoutingTable.enforcePeers_ok_iff _ _ _).mpr (agency_no_agent _ _ _)), rfl⟩)

/-- The sender that was set has one segment, the sender that is read has two. -/
theorem not_as_set :
    ¬ ∀ (ctx : DispatchCtx UInt32) threads fresh msg env raw,
      Reinjected plain ctx threads fresh msg env raw →
        ∀ out, decodeEnvelope plain raw = .ok out →
          out.header.fromAddr = env.header.fromAddr ∧ out.header.thread = env.header.thread ∧
          out.header.provenance = env.header.provenance := by
  intro h
  have hd : decodeEnvelope plain (encodeEnvelope plain dottedAck) =
      .ok ⟨{ dottedAck.header with fromAddr := ⟨[⟨"x", none⟩, ⟨"y", none⟩]⟩ },
        ⟨"SpawnAck", imageValue (spawnAck true).value⟩⟩ :=
    decode_of_image rfl
  have hsame := (h _ _ _ _ _ _ agency_reinjects _ hd).1
  have hlen : 2 = 1 := congrArg (fun a : Address => a.segments.length) hsame
  omega

end RustPipeline.PayloadIsolation
