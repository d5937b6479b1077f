import RustPipeline.FederationAgreement

set_option autoImplicit false

/-!
# Nodes of both languages on one link

What either node sends to an agent of the other arrives there as it was sent, from the sender's node
and with the mark of its edge.
-/
namespace RustPipeline.MixedNodes
open Text Wire Markup ElementTree Federation FederationGate Sealing TwoNodes SealOpen CodecAgreement
open PythonAddress PythonNumerals PythonWriting PythonReading PythonFederation FederationAgreement

variable {F : Type} {P : Codec.Platform F} {py : PythonCodec.Python F} {cipher : Cipher}
  {nacl : Bindings}

/-- The two nodes registered each other, as `r` and `s`, with one key. -/
structure Linked (R : FederationServer F) (S : PyServer F) (r : PyPeer) (s : Peer) : Prop where
  rust : R.directory.get S.node = some s
  python : S.directory.get R.node = some r
  sameKey : r.key = s.key.toList

/-! ## From Rust to Python -/

theorem openFrame_of_decrypt {d : PyDirectory} {sender : String} {p : PyPeer}
    {nonce ct plaintext : Bytes} (hsender : (utf8 sender).length < 2 ^ 16)
    (hpeer : d.get sender = some p) (hnonce : nonce.length = nonceLen)
    (hopen : nacl.decrypt ct (Federation.encodeHeader sender) nonce p.key = some plaintext) :
    PythonFederation.openFrame py nacl (Federation.encodeHeader sender ++ (nonce ++ ct)) d =
      (PythonCodec.decodeEnvelope py plaintext).map fun env => (env, sender) := by
  have hbody : ¬ (nonce ++ ct).length < nonce.length := by
    rw [List.length_append]
    omega
  rw [openFrame_of_header d (parseHeader_encodeHeader hsender _), List.drop_left]
  unfold openBody
  simp only [hpeer, ← hnonce, hbody, ↓reduceIte, List.take_left, List.drop_left, hopen]

theorem node_under {node : String} {rest : List Segment} {env : Envelope F}
    (hto : env.header.toAddr = some (under node rest)) :
    env.header.toAddr.bind Address.node = some node := by
  rw [hto]
  rfl

theorem openFrame_of_rust {R : FederationServer F} {S : PyServer F} {r : PyPeer} {s : Peer}
    (linked : Linked R S r s) (same : SameCipher cipher nacl) (correct : Correct cipher)
    (hlen : (utf8 R.node).length < 2 ^ 16) {env : Envelope F} {nonce : Option Nonce}
    {frame : Bytes} (hnode : env.header.toAddr.bind Address.node = some S.node)
    (hs : TwoNodes.send P cipher R nonce env = .ok frame) :
    PythonFederation.openFrame py nacl frame S.directory =
      (PythonCodec.decodeEnvelope py (Codec.encodeEnvelope P env)).map
        fun env => (env, R.node) := by
  rw [TwoNodes.send_of_peer nonce hnode linked.rust] at hs
  obtain ⟨n, ct, _, hct, rfl⟩ :=
    (Sealing.sealFrame_ok_iff P cipher nonce env R.node s.key frame).mp hs
  apply openFrame_of_decrypt hlen linked.python n.property
  rw [linked.sameKey, same.decrypt]
  exact correct _ _ _ _ _ hct

/-- The address at the node, from behind the node's own segment. -/
theorem strip_under {node : String} {rest : List Segment} (hr : rest ≠ []) :
    PythonFederation.stripNode node (under node rest) = ⟨rest⟩ := by
  rw [stripNode_eq, stripNode_under hr]

theorem crossEdge_allowed {S : PyServer F} {env : PythonCodec.PyEnvelope F} {toAddr : Address}
    (hto : env.header.toAddr = some toAddr) (h : Allows S env.header.fromAddr toAddr) :
    (PythonFederation.crossEdge S env).1 = [PyCall.authorize env.header.fromAddr toAddr,
      .deliver { env with header := { env.header with
        toAddr := some (PythonFederation.stripNode S.node toAddr) } }].filter (heard S) := by
  have hlocal : (PythonFederation.deliverLocally S env).1 =
      [PyCall.deliver { env with header := { env.header with
        toAddr := some (PythonFederation.stripNode S.node toAddr) } }] := by
    unfold PythonFederation.deliverLocally
    rw [hto]
    rfl
  cases hs : S.authorize with
  | none =>
    rw [PythonFederation.crossEdge_of_open (Or.inl hs), hlocal,
      List.filter_cons_of_neg (by simp [hs])]
    rfl
  | some authorize =>
    rw [PythonFederation.crossEdge_of_allowed hs hto (h authorize hs), hlocal,
      List.filter_cons_of_pos (by simp [hs])]
    rfl

/-- What the Rust node sends to an agent of the Python node is delivered there once, from the
    sending node and with the mark of its edge, after the host was asked. -/
theorem rust_to_python {R : FederationServer F} {S : PyServer F} {r : PyPeer} {s : Peer}
    (linked : Linked R S r s) (same : SameCipher cipher nacl) (correct : Correct cipher)
    (hlen : (utf8 R.node).length < 2 ^ 16) (lawful : PythonNumerals.Lawful py) {env : Envelope F}
    (hx : Exchanged env) (ha : Alike env)
    (hparse : ParsesWritten py.fromstring P.xml (Codec.envelopeTokens P env))
    {rest : List Segment} (hrest : rest ≠ []) (hto : env.header.toAddr = some (under S.node rest))
    {nonce : Option Nonce} {frame : Bytes} (hs : TwoNodes.send P cipher R nonce env = .ok frame)
    (hallow : Allows S (Federation.rerootOrigin env.header.fromAddr R.node) (under S.node rest)) :
    (PythonFederation.receive py nacl S frame).1 =
      [PyCall.authorize (Federation.rerootOrigin env.header.fromAddr R.node) (under S.node rest),
        .deliver ⟨⟨Federation.rerootOrigin env.header.fromAddr R.node, some ⟨rest⟩,
          env.header.thread, (number env.header.provenance).lor r.inboundProvenance⟩,
          (mirror env).payload⟩].filter (heard S) := by
  have hopen : PythonFederation.openFrame py nacl frame S.directory =
      .ok (mirror env, R.node) := by
    rw [openFrame_of_rust linked same correct hlen (node_under hto) hs,
      decode_alike lawful hx ha hparse]
    rfl
  have hstamp : PythonFederation.stamp S.directory (mirror env) R.node =
      ⟨⟨Federation.rerootOrigin env.header.fromAddr R.node, env.header.toAddr, env.header.thread,
        (number env.header.provenance).lor r.inboundProvenance⟩, (mirror env).payload⟩ := by
    rw [← edgeProvenance_of_peer linked.python]
    rfl
  rw [PythonFederation.receive_of_open hopen, hstamp, crossEdge_allowed hto hallow,
    strip_under hrest]

theorem hub_linked : Linked hub pyHome ⟨"ringhub", "ringhub:7000", ringhub.key.toList, 1⟩
    ⟨"agentos", ringhub.key, .empty⟩ := ⟨rfl, rfl, rfl⟩

theorem hub_sends : TwoNodes.send PlainPlatform.plain tagged hub (some hubNonce) coffees =
    .ok coffeesFrame := rfl

theorem coffees_readsMarkup : ReadsMarkup PlainPlatform.plain.xml
    (Codec.envelopeTokens PlainPlatform.plain coffees) :=
  order_readsMarkup (by decide)

def alicesConcierge : List Segment := [⟨"concierge", some "alice"⟩]

theorem rust_to_python_coffees :
    (PythonFederation.receive waiter (bindings tagged) pyHome coffeesFrame).1 =
      [PyCall.authorize (Federation.rerootOrigin bob "ringhub") (under "agentos" alicesConcierge),
        .deliver ⟨⟨Federation.rerootOrigin bob "ringhub", some ⟨alicesConcierge⟩, "t-interop",
          (number ⟨8, 0⟩).lor 1⟩, (mirror coffees).payload⟩].filter (heard pyHome) := by
  apply rust_to_python hub_linked (bindings_same tagged) tagged_correct (by decide)
    (reading_lawful _ _) (order_exchanged (by decide)) (order_alike (by decide))
    (reading_parses _ _) (by decide) rfl hub_sends
  intro f hf
  rw [← Option.some_inj.mp hf]

/-! ## From Python to Rust -/

theorem openFrame_of_python {R : FederationServer F} {S : PyServer F} {r : PyPeer} {s : Peer}
    (linked : Linked R S r s) (haead : R.aead = cipher.toAead) (same : SameCipher cipher nacl)
    (correct : Correct cipher) {env e : Envelope F} {nonce : Option Nonce} {frame : Bytes}
    (hv : PortableValue XmlText env.payload.value)
    (hdecode : Codec.decodeEnvelope P (utf8 (render (Codec.envelopeTokens P env))) = .ok e)
    (hs : PythonFederation.sealFrame py nacl nonce (mirror env) S.node r.key = .ok frame) :
    Federation.openFrame P R.aead frame R.directory = .ok (e, S.node) := by
  obtain ⟨_, hlen, n, raw, ct, _, hraw, hct, rfl⟩ :=
    (PythonFederation.sealFrame_ok_iff py nacl nonce _ S.node r.key frame).mp hs
  rw [encodeEnvelope_mirror (P := P) env hv, Except.ok.injEq] at hraw
  rw [linked.sameKey, same.encrypt, ← hraw] at hct
  rw [haead]
  exact Federation.openFrame_of_decrypt P hlen linked.rust n.property (correct _ _ _ _ _ hct)
    hdecode

/-- What the Python node sends to an agent of the Rust node goes to its endpoint and is delivered
    there once, from the sending node and with the mark of its edge, after the host was asked. -/
theorem python_to_rust {R : FederationServer F} {S : PyServer F} {r : PyPeer} {s : Peer}
    (linked : Linked R S r s) (haead : R.aead = cipher.toAead) (same : SameCipher cipher nacl)
    (correct : Correct cipher) (lawful : CodecImage.Lawful P) {env : Envelope F}
    (hx : Exchanged env) (ha : Alike env)
    (hread : ReadsMarkup P.xml (Codec.envelopeTokens P env)) {rest : List Segment}
    (hrest : rest ≠ []) (hto : env.header.toAddr = some (under R.node rest))
    {nonce : Option Nonce} {endpoint : String} {frame : Bytes}
    (hs : PythonFederation.send py nacl S nonce (mirror env) = .ok (endpoint, frame))
    (haccept : R.authorizer (Federation.rerootOrigin env.header.fromAddr S.node)
      (under R.node rest) = .ok ()) :
    endpoint = r.endpoint ∧ (Federation.receive P R frame).1 =
      [.authorize (Federation.rerootOrigin env.header.fromAddr S.node) (under R.node rest),
        .deliver ⟨⟨Federation.rerootOrigin env.header.fromAddr S.node, some ⟨rest⟩,
          env.header.thread, env.header.provenance.union s.inboundProvenance⟩, env.payload⟩] := by
  have hhead : ((mirror env).header.toAddr.bind fun a => a.segments.head?) =
      some ⟨R.node, none⟩ := by
    change (env.header.toAddr.bind fun a => a.segments.head?) = _
    rw [hto]
    rfl
  rw [PythonFederation.send_of_peer nonce hhead linked.python] at hs
  cases hseal : PythonFederation.sealFrame py nacl nonce (mirror env) S.node r.key with
  | error e =>
    rw [hseal] at hs
    cases hs
  | ok sealed =>
    rw [hseal] at hs
    change Except.ok (r.endpoint, sealed) = Except.ok (endpoint, frame) at hs
    simp only [Except.ok.injEq, Prod.mk.injEq] at hs
    obtain ⟨rfl, rfl⟩ := hs
    have hopen := openFrame_of_python linked haead same correct hx.portable.value
      (decode_rendered lawful hx ha hread) hseal
    have hstamp : Federation.stamp R.directory env S.node =
        ⟨⟨Federation.rerootOrigin env.header.fromAddr S.node, env.header.toAddr, env.header.thread,
          env.header.provenance.union s.inboundProvenance⟩, env.payload⟩ := by
      unfold Federation.stamp
      rw [linked.rust]
      rfl
    refine ⟨rfl, ?_⟩
    rw [Federation.receive_of_open hopen, hstamp, hto, crossEdge_of_ok rfl haccept]
    dsimp only
    rw [deliverLocally_calls, Option.map_some, stripNode_under hrest]

def pyHub : PyServer UInt32 where
  node := "ringhub"
  directory := PyDirectory.new.register ⟨"agentos", "agentos:7000", ringhub.key.toList, 0⟩
  authorize := none
  deliver _ := .ok ()

theorem home_linked : Linked home pyHub ⟨"agentos", "agentos:7000", ringhub.key.toList, 0⟩
    { ringhub with inboundProvenance := ⟨1, 0⟩ } := ⟨rfl, rfl, rfl⟩

/-- The frame with the order as the mirror writes it. -/
def pyCoffeesFrame : Bytes :=
  Federation.encodeHeader "ringhub" ++ (hubNonce.val ++
    (utf8 (render (Codec.envelopeTokens PlainPlatform.plain coffees)) ++
      (ringhub.key.toList ++ hubNonce.val ++ Federation.encodeHeader "ringhub")))

theorem pyHub_sends : PythonFederation.send waiter (bindings tagged) pyHub (some hubNonce)
    (mirror coffees) = .ok ("agentos:7000", pyCoffeesFrame) := by
  have hseal : PythonFederation.sealFrame waiter (bindings tagged) (some hubNonce) (mirror coffees)
      "ringhub" ringhub.key.toList = .ok pyCoffeesFrame := by
    rw [PythonFederation.sealFrame_ok_iff]
    refine ⟨ringhub.key.length_toList, by decide, hubNonce, _, _, rfl,
      encodeEnvelope_mirror (P := PlainPlatform.plain) coffees
        (order_exchanged (by decide)).portable.value, ?_, rfl⟩
    exact (bindings_same tagged).encrypt ringhub.key hubNonce _ _
  have hhead : ((mirror coffees).header.toAddr.bind fun a => a.segments.head?) =
      some ⟨home.node, none⟩ := rfl
  rw [PythonFederation.send_of_peer (some hubNonce) hhead home_linked.python]
  change (PythonFederation.sealFrame waiter (bindings tagged) (some hubNonce) (mirror coffees)
    "ringhub" ringhub.key.toList).map _ = _
  rw [hseal]
  rfl

theorem python_to_rust_coffees :
    "agentos:7000" = "agentos:7000" ∧
      (Federation.receive PlainPlatform.plain home pyCoffeesFrame).1 =
        [.authorize (Federation.rerootOrigin bob "ringhub") (under "agentos" alicesConcierge),
          .deliver ⟨⟨Federation.rerootOrigin bob "ringhub", some ⟨alicesConcierge⟩, "t-interop",
            Provenance.union ⟨8, 0⟩ ⟨1, 0⟩⟩, coffees.payload⟩] :=
  python_to_rust home_linked rfl (bindings_same tagged) tagged_correct PlainPlatform.plain_lawful
    (order_exchanged (by decide)) (order_alike (by decide)) coffees_readsMarkup (by decide) rfl
    pyHub_sends rfl

end RustPipeline.MixedNodes
