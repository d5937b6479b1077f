import RustPipeline.Codec

set_option autoImplicit false

/-!
# Federation

The peer directory, the frames peers exchange, and the inbound path of the federation server. The
authenticated encryption is a parameter.
-/
namespace RustPipeline.Federation
open Text Wire Codec

variable {F : Type}

abbrev PeerKey := Vector UInt8 32

/-- `XChaCha20Poly1305`: key, nonce, message, associated data. -/
structure Aead where
  decrypt : PeerKey → Bytes → Bytes → Bytes → Option Bytes

inductive FederationError where
  | unknownPeer (namespaceName : String)
  | malformedFrame
  | unsupportedVersion (version : UInt8)
  | unsupportedAuth (authMethod : UInt8)
  | openFailed
  | nonce
  | noDestination
  | notRemote (namespaceName : String)
  | delivery (m : String)
  | unauthorized (m : String)
  /-- An error of the codec, or the panic that passes through. -/
  | codec (fault : Fault)

structure Peer where
  namespaceName : String
  key : PeerKey
  inboundProvenance : Provenance

structure PeerDirectory where
  peers : String → Option Peer

namespace PeerDirectory

def new : PeerDirectory := ⟨fun _ => none⟩

def register (d : PeerDirectory) (peer : Peer) : PeerDirectory :=
  ⟨Function.update d.peers peer.namespaceName (some peer)⟩

def get (d : PeerDirectory) (namespaceName : String) : Option Peer := d.peers namespaceName

def isRemote (d : PeerDirectory) (namespaceName : String) : Bool := (d.peers namespaceName).isSome

end PeerDirectory

/-- Put the authenticated namespace in front: in place of the claimed one when there is one. -/
def rerootOrigin (fromAddr : Address) (namespaceName : String) : Address :=
  ⟨⟨namespaceName, none⟩ ::
    if 2 ≤ fromAddr.segments.length then fromAddr.segments.drop 1 else fromAddr.segments⟩

def nonceLen : ℕ := 24

/-- The sender's length is cut to sixteen bits. -/
def encodeHeader (sender : String) : Bytes :=
  let s := utf8 sender
  1 :: 0 :: UInt8.ofNat (s.length / 256) :: UInt8.ofNat s.length :: s

/-- The header bytes, the sender they claim, and where the body begins. -/
def parseHeader (frame : Bytes) : Except FederationError (Bytes × String × ℕ) :=
  match frame with
  | version :: authMethod :: hi :: lo :: _ =>
    if version ≠ 1 then .error (.unsupportedVersion version)
    else if authMethod ≠ 0 then .error (.unsupportedAuth authMethod)
    else
      let stop := 4 + (256 * hi.toNat + lo.toNat)
      if frame.length < stop then .error .malformedFrame
      else
        match fromUtf8 ((frame.take stop).drop 4) with
        | some sender => .ok (frame.take stop, sender, stop)
        | none => .error .malformedFrame
  | _ => .error .malformedFrame

/-- `open`: the envelope of a frame and its authenticated sender. -/
def openFrame (P : Platform F) (aead : Aead) (frame : Bytes) (directory : PeerDirectory) :
    Except FederationError (Envelope F × String) :=
  match parseHeader frame with
  | .error e => .error e
  | .ok (header, sender, bodyOff) =>
    match directory.get sender with
    | none => .error (.unknownPeer sender)
    | some peer =>
      let body := frame.drop bodyOff
      if body.length < nonceLen then .error .malformedFrame
      else
        match aead.decrypt peer.key (body.take nonceLen) (body.drop nonceLen) header with
        | none => .error .openFailed
        | some plaintext =>
          match decodeEnvelope P plaintext with
          | .ok env => .ok (env, sender)
          | .error fault => .error (.codec fault)

theorem parseHeader_encodeHeader {sender : String} (h : (utf8 sender).length < 2 ^ 16)
    (body : Bytes) : parseHeader (encodeHeader sender ++ body) =
      .ok (encodeHeader sender, sender, (encodeHeader sender).length) := by
  have hlen : 256 * (UInt8.ofNat ((utf8 sender).length / 256)).toNat +
      (UInt8.ofNat (utf8 sender).length).toNat = (utf8 sender).length := by
    rw [UInt8.toNat_ofNat', UInt8.toNat_ofNat']
    omega
  have hstop : 4 + (utf8 sender).length = (encodeHeader sender).length := by
    simp only [encodeHeader, List.length_cons]
    omega
  have hfits : ¬ (encodeHeader sender ++ body).length < (encodeHeader sender).length := by
    rw [List.length_append]
    omega
  have hdrop : (encodeHeader sender).drop 4 = utf8 sender := rfl
  unfold encodeHeader at *
  simp only [List.cons_append, parseHeader, ne_eq, not_true_eq_false, ↓reduceIte, hlen] at *
  rw [hstop, if_neg hfits]
  simp only [← List.cons_append, List.take_left', hdrop, fromUtf8_utf8]

theorem openFrame_of_decrypt (P : Platform F) {aead : Aead} {directory : PeerDirectory}
    {sender : String} {peer : Peer} {nonce ct plaintext : Bytes} {env : Envelope F}
    (hsender : (utf8 sender).length < 2 ^ 16) (hpeer : directory.get sender = some peer)
    (hnonce : nonce.length = nonceLen)
    (hopen : aead.decrypt peer.key nonce ct (encodeHeader sender) = some plaintext)
    (henv : decodeEnvelope P plaintext = .ok env) :
    openFrame P aead (encodeHeader sender ++ (nonce ++ ct)) directory = .ok (env, sender) := by
  have hbody : ¬ (nonce ++ ct).length < nonce.length := by
    rw [List.length_append]
    omega
  unfold openFrame
  rw [parseHeader_encodeHeader hsender]
  simp only [hpeer, List.drop_left, hbody, ↓reduceIte, ← hnonce, List.take_left, hopen, henv]

structure FederationServer (F : Type) where
  node : String
  directory : PeerDirectory
  aead : Aead
  authorizer : Address → Address → Except String Unit
  deliver : Envelope F → Except String Unit

/-- What `receive` calls, in the order of the calls. -/
inductive Call (F : Type) where
  | authorize (fromAddr toAddr : Address)
  | deliver (env : Envelope F)

/-- The envelope after the origin and provenance stamps. -/
def stamp (directory : PeerDirectory) (env : Envelope F) (sender : String) : Envelope F :=
  let edge := ((directory.get sender).map Peer.inboundProvenance).getD .empty
  { env with header := { env.header with
      fromAddr := rerootOrigin env.header.fromAddr sender
      provenance := env.header.provenance.union edge } }

def stripNode (node : String) (a : Address) : Address :=
  if 1 < a.segments.length ∧ a.node = some node then ⟨a.segments.drop 1⟩ else a

def deliverLocally (s : FederationServer F) (env : Envelope F) :
    List (Call F) × Except FederationError Unit :=
  let env := { env with header := { env.header with
    toAddr := env.header.toAddr.map (stripNode s.node) } }
  match s.deliver env with
  | .ok () => ([.deliver env], .ok ())
  | .error m => ([.deliver env], .error (.delivery m))

/-- The inbound path behind the stamps. -/
def crossEdge (s : FederationServer F) (env : Envelope F) : List (Call F) × Except FederationError Unit :=
  match env.header.toAddr with
  | none => deliverLocally s env
  | some toAddr =>
    match s.authorizer env.header.fromAddr toAddr with
    | .error m => ([.authorize env.header.fromAddr toAddr], .error (.unauthorized m))
    | .ok () =>
      let (calls, result) := deliverLocally s env
      (.authorize env.header.fromAddr toAddr :: calls, result)

def receive (P : Platform F) (s : FederationServer F) (frame : Bytes) :
    List (Call F) × Except FederationError Unit :=
  match openFrame P s.aead frame s.directory with
  | .error e => ([], .error e)
  | .ok (env, sender) => crossEdge s (stamp s.directory env sender)

/-! ## What is delivered -/

theorem receive_of_open {P : Platform F} {s : FederationServer F} {frame : Bytes}
    {env : Envelope F} {sender : String}
    (h : openFrame P s.aead frame s.directory = .ok (env, sender)) :
    receive P s frame = crossEdge s (stamp s.directory env sender) := by
  unfold receive
  rw [h]

theorem deliver_mem_crossEdge {s : FederationServer F} {env out : Envelope F}
    (h : .deliver out ∈ (crossEdge s env).1) : out = { env with header := { env.header with
      toAddr := env.header.toAddr.map (stripNode s.node) } } := by
  have hlocal : ∀ e : Envelope F, .deliver out ∈ (deliverLocally s e).1 →
      out = { e with header := { e.header with
        toAddr := e.header.toAddr.map (stripNode s.node) } } := by
    intro e he
    unfold deliverLocally at he
    dsimp only at he
    split at he
    · exact Call.deliver.inj (List.mem_singleton.mp he)
    · exact Call.deliver.inj (List.mem_singleton.mp he)
  unfold crossEdge at h
  cases hto : env.header.toAddr with
  | none =>
    simp only [hto] at h
    rw [hlocal env h, hto]
  | some toAddr =>
    simp only [hto] at h
    split at h
    · simp at h
    · rcases List.mem_cons.mp h with h | h
      · cases h
      · rw [hlocal env h, hto]

theorem authorized_of_deliver {s : FederationServer F} {env out : Envelope F} {toAddr : Address}
    (h : .deliver out ∈ (crossEdge s env).1) (hto : env.header.toAddr = some toAddr) :
    s.authorizer env.header.fromAddr toAddr = .ok () := by
  unfold crossEdge at h
  simp only [hto] at h
  split at h
  · simp at h
  · next hok => exact hok

theorem delivered_eq {P : Platform F} {s : FederationServer F} {frame : Bytes} {out : Envelope F}
    (h : .deliver out ∈ (receive P s frame).1) :
    ∃ env sender, openFrame P s.aead frame s.directory = .ok (env, sender) ∧
      out = { stamp s.directory env sender with header :=
        { (stamp s.directory env sender).header with
          toAddr := env.header.toAddr.map (stripNode s.node) } } ∧
      ∀ toAddr, env.header.toAddr = some toAddr →
        s.authorizer (rerootOrigin env.header.fromAddr sender) toAddr = .ok () := by
  unfold receive at h
  cases hopen : openFrame P s.aead frame s.directory with
  | error e => simp [hopen] at h
  | ok p =>
    obtain ⟨env, sender⟩ := p
    simp only [hopen] at h
    exact ⟨env, sender, rfl, deliver_mem_crossEdge h, fun _ hto => authorized_of_deliver h hto⟩

theorem deliver_mem_receive {P : Platform F} {s : FederationServer F} {frame : Bytes}
    {out : Envelope F} (h : .deliver out ∈ (receive P s frame).1) :
    ∃ env sender, openFrame P s.aead frame s.directory = .ok (env, sender) ∧
      out.header.fromAddr = rerootOrigin env.header.fromAddr sender ∧
      out.header.toAddr = env.header.toAddr.map (stripNode s.node) ∧
      out.header.thread = env.header.thread ∧
      out.header.provenance = env.header.provenance.union
        (((s.directory.get sender).map Peer.inboundProvenance).getD .empty) ∧
      out.payload = env.payload := by
  obtain ⟨env, sender, hopen, rfl, _⟩ := delivered_eq h
  exact ⟨env, sender, hopen, rfl, rfl, rfl, rfl, rfl⟩

end RustPipeline.Federation
