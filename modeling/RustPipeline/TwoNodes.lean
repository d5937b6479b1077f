import RustPipeline.Sealing

set_option autoImplicit false

/-!
# Delivery between two nodes

What one node's federation server transmits, the other one's opens, stamps, authorizes and
delivers once, with the envelope changed at the seam only.
-/
namespace RustPipeline.TwoNodes
open Text Wire Codec CodecImage Federation FederationGate Sealing PlainPlatform

variable {F : Type} (P : Platform F) (cipher : Cipher)

/-- `FederationServer::send`: the frame that is handed to the transport. -/
def send (s : FederationServer F) (nonce : Option Nonce) (env : Envelope F) :
    Except FederationError Bytes :=
  match env.header.toAddr.bind Address.node with
  | none => .error .noDestination
  | some node =>
    match s.directory.get node with
    | none => .error (.notRemote node)
    | some peer => sealFrame P cipher nonce env s.node peer.key

/-- What was encrypted decrypts under the same key, nonce and associated data. -/
def Correct (cipher : Cipher) : Prop :=
  ∀ key nonce plaintext aad ct, cipher.encrypt key nonce plaintext aad = some ct →
    cipher.decrypt key nonce ct aad = some plaintext

/-- The two nodes registered each other, as `a` and `b`, with one key. -/
structure Peered (A B : FederationServer F) (a b : Peer) : Prop where
  outbound : A.directory.get B.node = some b
  inbound : B.directory.get A.node = some a
  sameKey : a.key = b.key

/-- An agent's address at the node. -/
def agentOf (node h : String) : Address := ⟨[⟨node, none⟩, ⟨h, none⟩]⟩

/-- An address behind the node's own segment. -/
def under (node : String) (rest : List Segment) : Address := ⟨⟨node, none⟩ :: rest⟩

variable {P cipher}

theorem send_of_peer {s : FederationServer F} {env : Envelope F} {node : String} {peer : Peer}
    (nonce : Option Nonce) (hnode : env.header.toAddr.bind Address.node = some node)
    (hpeer : s.directory.get node = some peer) :
    send P cipher s nonce env = sealFrame P cipher nonce env s.node peer.key := by
  unfold send
  rw [hnode]
  dsimp only
  rw [hpeer]

theorem openFrame_of_send {A B : FederationServer F} {a b : Peer} (hp : Peered A B a b)
    (haead : B.aead = cipher.toAead) (hc : Correct cipher) (hlen : (utf8 A.node).length < 2 ^ 16)
    {env : Envelope F} {nonce : Option Nonce} {frame : Bytes}
    (hnode : env.header.toAddr.bind Address.node = some B.node)
    (hread : decodeEnvelope P (encodeEnvelope P env) = .ok env)
    (hs : send P cipher A nonce env = .ok frame) :
    openFrame P B.aead frame B.directory = .ok (env, A.node) := by
  rw [send_of_peer nonce hnode hp.outbound] at hs
  obtain ⟨n, ct, _, hct, rfl⟩ := (sealFrame_ok_iff P cipher nonce env A.node b.key frame).mp hs
  have hdec : B.aead.decrypt a.key n.val ct (encodeHeader A.node) =
      some (encodeEnvelope P env) := by
    rw [haead, hp.sameKey]
    exact hc _ _ _ _ _ hct
  exact openFrame_of_decrypt P hlen hp.inbound n.property hdec hread

theorem stamp_flat {directory : PeerDirectory} {env : Envelope F} {h sender : String} {a : Peer}
    (hfrom : env.header.fromAddr = .flat h) (ha : directory.get sender = some a) :
    stamp directory env sender = { env with header := { env.header with
      fromAddr := agentOf sender h
      provenance := env.header.provenance.union a.inboundProvenance } } := by
  unfold stamp rerootOrigin
  rw [hfrom, ha]
  rfl

theorem stripNode_under {node : String} {rest : List Segment} (hr : rest ≠ []) :
    stripNode node (under node rest) = ⟨rest⟩ := by
  have hlen : 1 < (under node rest).segments.length := by
    have := List.length_pos_iff.mpr hr
    change 1 < rest.length + 1
    omega
  unfold stripNode
  rw [if_pos ⟨hlen, rfl⟩]
  rfl

/-- What A sends to `B.rest` from its agent `h` is delivered by B exactly once, from `A.h` to
`rest`, after the authorizer was asked about `A.h` and `B.rest`. -/
theorem two_node_delivery {A B : FederationServer F} {a b : Peer} (hp : Peered A B a b)
    (haead : B.aead = cipher.toAead) (hc : Correct cipher) (hlen : (utf8 A.node).length < 2 ^ 16)
    {env : Envelope F} {h : String} {rest : List Segment} (hrest : rest ≠ [])
    (hfrom : env.header.fromAddr = .flat h) (hto : env.header.toAddr = some (under B.node rest))
    (hread : decodeEnvelope P (encodeEnvelope P env) = .ok env)
    {nonce : Option Nonce} {frame : Bytes} (hs : send P cipher A nonce env = .ok frame)
    (haccept : B.authorizer (agentOf A.node h) (under B.node rest) = .ok ()) :
    (receive P B frame).1 = [.authorize (agentOf A.node h) (under B.node rest),
      .deliver ⟨⟨agentOf A.node h, some ⟨rest⟩, env.header.thread,
        env.header.provenance.union a.inboundProvenance⟩, env.payload⟩] := by
  have hnode : env.header.toAddr.bind Address.node = some B.node := by
    rw [hto]
    rfl
  rw [receive_of_open (openFrame_of_send hp haead hc hlen hnode hread hs),
    stamp_flat hfrom hp.inbound]
  unfold crossEdge
  dsimp only
  rw [hto]
  dsimp only
  rw [haccept]
  dsimp only
  rw [deliverLocally_calls]
  simp only [Option.map_some, stripNode_under hrest]

/-! ## An order to a composed buffer -/

/-- A cipher whose tag repeats the key, the nonce and the associated data. -/
def tagged : Cipher where
  decrypt key nonce ct aad :=
    let tag := key.toList ++ nonce ++ aad
    if tag <:+ ct then some (ct.take (ct.length - tag.length)) else none
  encrypt key nonce plaintext aad := some (plaintext ++ (key.toList ++ nonce ++ aad))

theorem tagged_correct : Correct tagged := by
  intro key nonce plaintext aad ct h
  obtain rfl := Option.some_inj.mp h
  change (if _ then _ else _) = _
  rw [if_pos (List.suffix_append _ _), List.length_append, Nat.add_sub_cancel, List.take_left]

def hub : FederationServer UInt32 where
  node := "ringhub"
  directory := PeerDirectory.new.register ⟨"agentos", ringhub.key, .empty⟩
  aead := tagged.toAead
  authorizer _ _ := .ok ()
  deliver _ := .ok ()

def home : FederationServer UInt32 where
  node := "agentos"
  directory := PeerDirectory.new.register { ringhub with inboundProvenance := ⟨1, 0⟩ }
  aead := tagged.toAead
  authorizer _ _ := .ok ()
  deliver _ := .ok ()

def bobBuffers : List Segment := [⟨"bob", some "main+alice"⟩, ⟨"dm", none⟩]

def dinner : Envelope UInt32 :=
  ⟨⟨.flat "concierge", some (under "agentos" bobBuffers), "t1", ⟨2, 0⟩⟩, ⟨"Order", .nil⟩⟩

def dinnerFrame : Bytes :=
  encodeHeader "ringhub" ++ (hubNonce.val ++ (encodeEnvelope plain dinner ++
    (ringhub.key.toList ++ hubNonce.val ++ encodeHeader "ringhub")))

theorem send_dinner : send plain tagged hub (some hubNonce) dinner = .ok dinnerFrame := rfl

theorem decode_dinner : decodeEnvelope plain (encodeEnvelope plain dinner) = .ok dinner :=
  decode_of_image rfl

theorem peered_home : Peered hub home { ringhub with inboundProvenance := ⟨1, 0⟩ }
    ⟨"agentos", ringhub.key, .empty⟩ :=
  ⟨rfl, rfl, rfl⟩

theorem two_node_delivery_dinner :
    (receive plain home dinnerFrame).1 =
      [.authorize (agentOf "ringhub" "concierge") (under "agentos" bobBuffers),
        .deliver ⟨⟨agentOf "ringhub" "concierge", some ⟨bobBuffers⟩, "t1",
          dinner.header.provenance.union ⟨1, 0⟩⟩, dinner.payload⟩] :=
  two_node_delivery peered_home rfl tagged_correct (by decide) (by decide) rfl rfl decode_dinner
    send_dinner rfl

end RustPipeline.TwoNodes
