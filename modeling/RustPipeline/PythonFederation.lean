import RustPipeline.Sealing
import RustPipeline.PythonCodec

set_option autoImplicit false

/-!
# The federation server of the Python mirror

Sealed frames, the peer directory and `FederationServer` of `rust_pipeline_federation`. The bindings
of libsodium are a parameter.
-/
namespace RustPipeline.PythonFederation
open Text Wire Federation Sealing PythonAddress PythonCodec

variable {F : Type}

/-- `crypto_aead_xchacha20poly1305_ietf_encrypt` and `_decrypt`: message, associated data, nonce,
    key. They raise on a key that does not have 32 bytes. -/
structure Bindings where
  encrypt : Bytes → Bytes → Bytes → Bytes → Option Bytes
  decrypt : Bytes → Bytes → Bytes → Bytes → Option Bytes

structure PyPeer where
  namespaceName : String
  endpoint : String
  key : Bytes
  inboundProvenance : ℤ

structure PyDirectory where
  peers : String → Option PyPeer

namespace PyDirectory

def new : PyDirectory := ⟨fun _ => none⟩

def register (d : PyDirectory) (peer : PyPeer) : PyDirectory :=
  ⟨Function.update d.peers peer.namespaceName (some peer)⟩

def get (d : PyDirectory) (namespaceName : String) : Option PyPeer := d.peers namespaceName

def isRemote (d : PyDirectory) (namespaceName : String) : Bool := (d.peers namespaceName).isSome

end PyDirectory

/-! ## Frames -/

/-- `struct.pack` fails when the length does not fit sixteen bits. -/
def encodeHeader (sender : String) : Except PyError Bytes :=
  let s := utf8 sender
  if s.length < 2 ^ 16 then
    .ok (1 :: 0 :: UInt8.ofNat (s.length / 256) :: UInt8.ofNat s.length :: s)
  else .error .library

/-- `seal`; a key of another length is refused. -/
def sealFrame (py : Python F) (nacl : Bindings) (nonce : Option Nonce) (envelope : PyEnvelope F)
    (sender : String) (key : Bytes) : Except PyError Bytes := do
  if key.length ≠ 32 then throw (.value "key must be 32 bytes")
  let header ← encodeHeader sender
  let n ← orRaise nonce
  let raw ← encodeEnvelope py envelope
  let ct ← orRaise (nacl.encrypt raw header n.val key)
  return header ++ n.val ++ ct

/-- The part of `open_frame` behind the header. -/
def openBody (py : Python F) (nacl : Bindings) (directory : PyDirectory) (header : Bytes)
    (sender : String) (body : Bytes) : Except PyError (PyEnvelope F × String) :=
  match directory.get sender with
  | none => .error (.value ("unknown peer: " ++ sender))
  | some peer =>
    if body.length < nonceLen then .error (.value "malformed frame")
    else
      match nacl.decrypt (body.drop nonceLen) header (body.take nonceLen) peer.key with
      | none => .error (.value "decrypt/authentication failed")
      | some plaintext => (decodeEnvelope py plaintext).map fun env => (env, sender)

/-- `open_frame`: the envelope of a frame and its authenticated sender. -/
def openFrame (py : Python F) (nacl : Bindings) (frame : Bytes) (directory : PyDirectory) :
    Except PyError (PyEnvelope F × String) :=
  match frame with
  | version :: auth :: hi :: lo :: _ =>
    if version ≠ 1 then
      .error (.value ("unsupported protocol version: " ++ toString version.toNat))
    else if auth ≠ 0 then
      .error (.value ("unsupported auth method: " ++ toString auth.toNat))
    else
      let stop := 4 + (256 * hi.toNat + lo.toNat)
      if frame.length < stop then .error (.value "malformed frame")
      else
        match fromUtf8 ((frame.take stop).drop 4) with
        | none => .error .library
        | some sender => openBody py nacl directory (frame.take stop) sender (frame.drop stop)
  | _ => .error (.value "malformed frame")

/-! ## The server -/

/-- Put the authenticated namespace in front: in place of the claimed one when there is one. -/
def rerootOrigin (fromAddr : Address) (namespaceName : String) : Address :=
  let head : Segment := ⟨namespaceName, none⟩
  let rest := if 2 ≤ fromAddr.segments.length then fromAddr.segments.drop 1 else fromAddr.segments
  ⟨head :: rest⟩

/-- Without a callable every crossing is allowed. -/
structure PyServer (F : Type) where
  node : String
  directory : PyDirectory
  authorize : Option (Address → Address → Except PyError Bool)
  deliver : PyEnvelope F → Except PyError Unit

/-- The endpoint and the frame that are handed to the transport. -/
def send (py : Python F) (nacl : Bindings) (s : PyServer F) (nonce : Option Nonce)
    (envelope : PyEnvelope F) : Except PyError (String × Bytes) :=
  match envelope.header.toAddr.bind fun a => a.segments.head? with
  | none => .error (.value "envelope has no destination address")
  | some head =>
    match s.directory.get head.name with
    | none => .error (.value ("not a remote node: " ++ head.name))
    | some peer =>
      (sealFrame py nacl nonce envelope s.node peer.key).map fun frame => (peer.endpoint, frame)

/-- What `receive` calls, in the order of the calls. -/
inductive PyCall (F : Type) where
  | authorize (fromAddr toAddr : Address)
  | deliver (env : PyEnvelope F)

/-- The provenance stamp of the peer, when it has one. -/
def edgeProvenance (directory : PyDirectory) (sender : String) (provenance : ℤ) : ℤ :=
  match directory.get sender with
  | some peer =>
    if peer.inboundProvenance ≠ 0 then provenance.lor peer.inboundProvenance else provenance
  | none => provenance

def stamp (directory : PyDirectory) (env : PyEnvelope F) (sender : String) : PyEnvelope F :=
  { env with header := { env.header with
      fromAddr := rerootOrigin env.header.fromAddr sender
      provenance := edgeProvenance directory sender env.header.provenance } }

def stripNode (node : String) (a : Address) : Address :=
  match a.segments with
  | first :: second :: rest => if first.name = node then ⟨second :: rest⟩ else a
  | _ => a

def deliverLocally (s : PyServer F) (env : PyEnvelope F) : List (PyCall F) × Except PyError Unit :=
  let env := { env with header := { env.header with
    toAddr := env.header.toAddr.map (stripNode s.node) } }
  ([.deliver env], s.deliver env)

/-- The inbound path behind the stamps. -/
def crossEdge (s : PyServer F) (env : PyEnvelope F) : List (PyCall F) × Except PyError Unit :=
  match s.authorize, env.header.toAddr with
  | some authorize, some toAddr =>
    match authorize env.header.fromAddr toAddr with
    | .error e => ([.authorize env.header.fromAddr toAddr], .error e)
    | .ok false => ([.authorize env.header.fromAddr toAddr],
        .error (.value ("unauthorized: " ++ str env.header.fromAddr ++ " -> " ++ str toAddr)))
    | .ok true =>
      let (calls, result) := deliverLocally s env
      (.authorize env.header.fromAddr toAddr :: calls, result)
  | _, _ => deliverLocally s env

def receive (py : Python F) (nacl : Bindings) (s : PyServer F) (frame : Bytes) :
    List (PyCall F) × Except PyError Unit :=
  match openFrame py nacl frame s.directory with
  | .error e => ([], .error e)
  | .ok (env, sender) => crossEdge s (stamp s.directory env sender)

/-! ## What goes out -/

theorem encodeHeader_ok_iff (sender : String) (header : Bytes) :
    encodeHeader sender = .ok header ↔
      (utf8 sender).length < 2 ^ 16 ∧ Federation.encodeHeader sender = header := by
  unfold encodeHeader
  dsimp only
  by_cases h : (utf8 sender).length < 2 ^ 16
  · rw [if_pos h, Except.ok.injEq]
    exact ⟨fun he => ⟨h, he⟩, fun he => he.2⟩
  · rw [if_neg h]
    exact ⟨nofun, fun he => absurd he.1 h⟩

/-- A key of another length and a sender that does not fit the header are refused. -/
theorem sealFrame_ok_iff (py : Python F) (nacl : Bindings) (nonce : Option Nonce)
    (envelope : PyEnvelope F) (sender : String) (key frame : Bytes) :
    sealFrame py nacl nonce envelope sender key = .ok frame ↔
      key.length = 32 ∧ (utf8 sender).length < 2 ^ 16 ∧ ∃ n raw ct, nonce = some n ∧
        encodeEnvelope py envelope = .ok raw ∧
        nacl.encrypt raw (Federation.encodeHeader sender) n.val key = some ct ∧
        frame = Federation.encodeHeader sender ++ (n.val ++ ct) := by
  unfold sealFrame
  by_cases hk : key.length = 32
  · cases hh : encodeHeader sender with
    | error e =>
      refine iff_of_false (by simp [hk, bind, Except.bind]) fun h => ?_
      rw [(encodeHeader_ok_iff sender _).mpr ⟨h.2.1, rfl⟩] at hh
      cases hh
    | ok header =>
      obtain ⟨hlen, rfl⟩ := (encodeHeader_ok_iff sender header).mp hh
      cases nonce with
      | none => simp [hk, bind, Except.bind, orRaise]
      | some n =>
        cases hraw : encodeEnvelope py envelope with
        | error e => simp [hk, bind, Except.bind, orRaise]
        | ok raw =>
          cases hct : nacl.encrypt raw (Federation.encodeHeader sender) n.val key with
          | none => simp [hk, bind, Except.bind, orRaise, hct]
          | some ct =>
            have hfits : (utf8 sender).length < 65536 := hlen
            simp [hk, hfits, bind, Except.bind, orRaise, hct, pure, Except.pure, eq_comm]
  · simp [hk, bind, Except.bind, throw, throwThe, MonadExceptOf.throw]

theorem send_of_peer {py : Python F} {nacl : Bindings} {s : PyServer F} {env : PyEnvelope F}
    {peer : PyPeer} {head : Segment} (nonce : Option Nonce)
    (hhead : (env.header.toAddr.bind fun a => a.segments.head?) = some head)
    (hpeer : s.directory.get head.name = some peer) : send py nacl s nonce env =
      (sealFrame py nacl nonce env s.node peer.key).map fun frame => (peer.endpoint, frame) := by
  unfold send
  rw [hhead]
  dsimp only
  rw [hpeer]

theorem receive_of_open {py : Python F} {nacl : Bindings} {s : PyServer F} {frame : Bytes}
    {env : PyEnvelope F} {sender : String}
    (h : openFrame py nacl frame s.directory = .ok (env, sender)) :
    receive py nacl s frame = crossEdge s (stamp s.directory env sender) := by
  unfold receive
  rw [h]

/-! ## The gate -/

theorem crossEdge_of_open {s : PyServer F} {env : PyEnvelope F}
    (h : s.authorize = none ∨ env.header.toAddr = none) : crossEdge s env = deliverLocally s env := by
  unfold crossEdge
  rcases h with h | h
  · rw [h]
  · rw [h]
    cases s.authorize <;> rfl

theorem crossEdge_of_allowed {s : PyServer F} {env : PyEnvelope F} {toAddr : Address}
    {authorize : Address → Address → Except PyError Bool} (hs : s.authorize = some authorize)
    (hto : env.header.toAddr = some toAddr)
    (h : authorize env.header.fromAddr toAddr = .ok true) : crossEdge s env =
      (.authorize env.header.fromAddr toAddr :: (deliverLocally s env).1,
        (deliverLocally s env).2) := by
  unfold crossEdge
  rw [hs, hto]
  dsimp only
  rw [h]

/-- A callable that raises refuses as well. -/
theorem crossEdge_of_refused {s : PyServer F} {env : PyEnvelope F} {toAddr : Address}
    {authorize : Address → Address → Except PyError Bool} (hs : s.authorize = some authorize)
    (hto : env.header.toAddr = some toAddr)
    (h : authorize env.header.fromAddr toAddr ≠ .ok true) : ∃ e, crossEdge s env =
      ([.authorize env.header.fromAddr toAddr], .error e) := by
  unfold crossEdge
  rw [hs, hto]
  dsimp only
  cases ha : authorize env.header.fromAddr toAddr with
  | error e => exact ⟨e, rfl⟩
  | ok answer =>
    cases answer with
    | true => exact absurd ha h
    | false => exact ⟨_, rfl⟩

end RustPipeline.PythonFederation
