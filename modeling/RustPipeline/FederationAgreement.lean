import RustPipeline.CodecAgreement
import RustPipeline.ProvenanceSet
import RustPipeline.PythonFederation
import RustPipeline.SealOpen

set_option autoImplicit false

/-!
# Where the two federation servers agree

Over the same directory and the same cipher both sides refuse the same frames for the same cause and
decode the same plaintexts, and a node of either language can stand at either end of a link.
-/
namespace RustPipeline.FederationAgreement
open Text Wire Markup ElementTree Federation FederationGate Sealing TwoNodes CodecAgreement
open PythonAddress PythonNumerals PythonWriting PythonReading PythonFederation

variable {F : Type} {P : Codec.Platform F} {py : PythonCodec.Python F} {cipher : Cipher}
  {nacl : Bindings}

/-! ## One configuration on both sides -/

structure SamePeer (r : Peer) (p : PyPeer) : Prop where
  namespaceName : p.namespaceName = r.namespaceName
  key : p.key = r.key.toList
  inboundProvenance : p.inboundProvenance = number r.inboundProvenance

def SameDirectory (D : PeerDirectory) (d : PyDirectory) : Prop :=
  ∀ n, Option.Rel SamePeer (D.get n) (d.get n)

/-- Both libraries compute one cipher on keys and nonces of the right lengths. -/
structure SameCipher (cipher : Cipher) (nacl : Bindings) : Prop where
  encrypt (key : PeerKey) (n : Nonce) (m aad : Bytes) :
    nacl.encrypt m aad n.val key.toList = cipher.encrypt key n.val m aad
  decrypt (key : PeerKey) (n : Nonce) (ct aad : Bytes) :
    nacl.decrypt ct aad n.val key.toList = cipher.decrypt key n.val ct aad

theorem sameDirectory_new : SameDirectory .new .new := fun _ => .none

theorem SameDirectory.register {D : PeerDirectory} {d : PyDirectory} (h : SameDirectory D d)
    {r : Peer} {p : PyPeer} (hp : SamePeer r p) : SameDirectory (D.register r) (d.register p) := by
  intro n
  unfold PeerDirectory.register PeerDirectory.get PyDirectory.register PyDirectory.get
  dsimp only
  rw [hp.namespaceName]
  by_cases hn : n = r.namespaceName
  · rw [hn, Function.update_self, Function.update_self]
    exact .some hp
  · rw [Function.update_of_ne hn, Function.update_of_ne hn]
    exact h n

theorem SameDirectory.isRemote {D : PeerDirectory} {d : PyDirectory} (h : SameDirectory D d)
    (n : String) : d.isRemote n = D.isRemote n := by
  have hn := h n
  change (d.get n).isSome = (D.get n).isSome
  generalize D.get n = r at hn ⊢
  generalize d.get n = p at hn ⊢
  cases hn <;> rfl

/-! ## Opening -/

/-- The bindings that compute a cipher. -/
def bindings (cipher : Cipher) : Bindings where
  encrypt m aad nonce key :=
    if h : key.length = 32 then cipher.encrypt ⟨key.toArray, h⟩ nonce m aad else none
  decrypt ct aad nonce key :=
    if h : key.length = 32 then cipher.decrypt ⟨key.toArray, h⟩ nonce ct aad else none

theorem bindings_same (cipher : Cipher) : SameCipher cipher (bindings cipher) where
  encrypt key _ _ _ := dif_pos key.length_toList
  decrypt key _ _ _ := dif_pos key.length_toList

/-- The error of one side and that of the other for the same cause. -/
inductive SameCause : FederationError → PyError → Prop where
  | unknownPeer (n : String) : SameCause (.unknownPeer n) (.value ("unknown peer: " ++ n))
  | malformedFrame : SameCause .malformedFrame (.value "malformed frame")
  /-- The sender is not UTF-8. -/
  | sender : SameCause .malformedFrame .library
  | unsupportedVersion (v : UInt8) : SameCause (.unsupportedVersion v)
      (.value ("unsupported protocol version: " ++ toString v.toNat))
  | unsupportedAuth (v : UInt8) : SameCause (.unsupportedAuth v)
      (.value ("unsupported auth method: " ++ toString v.toNat))
  | openFailed : SameCause .openFailed (.value "decrypt/authentication failed")

/-- The frame decrypts to the plaintext under the key of its sender. -/
def Unsealed (aead : Aead) (D : PeerDirectory) (frame plaintext : Bytes) (sender : String) : Prop :=
  ∃ header bodyOff peer, parseHeader frame = .ok (header, sender, bodyOff) ∧
    D.get sender = some peer ∧ nonceLen ≤ (frame.drop bodyOff).length ∧
    aead.decrypt peer.key ((frame.drop bodyOff).take nonceLen)
      ((frame.drop bodyOff).drop nonceLen) header = some plaintext

theorem unsealed_frame_iff {aead : Aead} {D : PeerDirectory} {sender : String}
    (hlen : (utf8 sender).length < 2 ^ 16) (n : Nonce) (ct plaintext : Bytes) (t : String) :
    Unsealed aead D (Federation.encodeHeader sender ++ (n.val ++ ct)) plaintext t ↔
      t = sender ∧ ∃ peer, D.get sender = some peer ∧
        aead.decrypt peer.key n.val ct (Federation.encodeHeader sender) = some plaintext := by
  have hp := parseHeader_encodeHeader hlen (n.val ++ ct)
  have hbody : (n.val ++ ct).take nonceLen = n.val := List.take_left' n.property
  have hrest : (n.val ++ ct).drop nonceLen = ct := List.drop_left' n.property
  have hnonce : nonceLen ≤ (n.val ++ ct).length := by
    rw [List.length_append, n.property]
    omega
  constructor
  · rintro ⟨header, bodyOff, peer, hheader, hpeer, _, hdec⟩
    rw [hp] at hheader
    simp only [Except.ok.injEq, Prod.mk.injEq] at hheader
    obtain ⟨rfl, rfl, rfl⟩ := hheader
    rw [List.drop_left, hbody, hrest] at hdec
    exact ⟨rfl, peer, hpeer, hdec⟩
  · rintro ⟨rfl, peer, hpeer, hdec⟩
    refine ⟨_, _, peer, hp, hpeer, ?_, ?_⟩
    · rw [List.drop_left]
      exact hnonce
    · rw [List.drop_left, hbody, hrest]
      exact hdec

theorem openFrame_of_badHeader {frame : Bytes} {e : FederationError} (d : PyDirectory)
    (h : parseHeader frame = .error e) :
    ∃ f, SameCause e f ∧ PythonFederation.openFrame py nacl frame d = .error f := by
  have hshort : parseHeader frame = .error .malformedFrame →
      PythonFederation.openFrame py nacl frame d = .error (.value "malformed frame") →
        ∃ f, SameCause e f ∧ PythonFederation.openFrame py nacl frame d = .error f := by
    intro hr hp
    rw [hr] at h
    cases h
    exact ⟨_, .malformedFrame, hp⟩
  rcases frame with _ | ⟨version, _ | ⟨auth, _ | ⟨hi, _ | ⟨lo, rest⟩⟩⟩⟩
  · exact hshort rfl rfl
  · exact hshort rfl rfl
  · exact hshort rfl rfl
  · exact hshort rfl rfl
  · simp only [parseHeader] at h
    simp only [PythonFederation.openFrame]
    split_ifs at h ⊢
    · cases h
      exact ⟨_, .unsupportedVersion _, rfl⟩
    · cases h
      exact ⟨_, .unsupportedAuth _, rfl⟩
    · cases h
      exact ⟨_, .malformedFrame, rfl⟩
    · cases hs : fromUtf8 (((version :: auth :: hi :: lo :: rest).take
          (4 + (256 * hi.toNat + lo.toNat))).drop 4) with
      | some sender =>
        rw [hs] at h
        cases h
      | none =>
        rw [hs] at h
        cases h
        exact ⟨_, .sender, rfl⟩

theorem openFrame_of_header {frame header : Bytes} {sender : String} {bodyOff : ℕ}
    (d : PyDirectory) (h : parseHeader frame = .ok (header, sender, bodyOff)) :
    PythonFederation.openFrame py nacl frame d =
      openBody py nacl d header sender (frame.drop bodyOff) := by
  rcases frame with _ | ⟨version, _ | ⟨auth, _ | ⟨hi, _ | ⟨lo, rest⟩⟩⟩⟩
  · cases h
  · cases h
  · cases h
  · cases h
  · simp only [parseHeader] at h
    simp only [PythonFederation.openFrame]
    split_ifs at h ⊢
    cases hs : fromUtf8 (((version :: auth :: hi :: lo :: rest).take
        (4 + (256 * hi.toNat + lo.toNat))).drop 4) with
    | none =>
      rw [hs] at h
      cases h
    | some s =>
      rw [hs] at h
      simp only [Except.ok.injEq, Prod.mk.injEq] at h
      obtain ⟨rfl, rfl, rfl⟩ := h
      rfl

section
variable {D : PeerDirectory} {d : PyDirectory}

theorem decrypt_body (same : SameCipher cipher nacl) {r : Peer} {p : PyPeer} (hp : SamePeer r p)
    {body : Bytes} (hlen : nonceLen ≤ body.length) (header : Bytes) :
    nacl.decrypt (body.drop nonceLen) header (body.take nonceLen) p.key =
      cipher.decrypt r.key (body.take nonceLen) (body.drop nonceLen) header := by
  have hn : (body.take nonceLen).length = nonceLen := by
    rw [List.length_take]
    omega
  rw [hp.key]
  exact same.decrypt r.key ⟨_, hn⟩ _ _

/-- What decrypts is handed to the decoders. -/
theorem open_of_unsealed (same : SameCipher cipher nacl) (hd : SameDirectory D d)
    {frame plaintext : Bytes} {sender : String} (h : Unsealed cipher.toAead D frame plaintext sender) :
    Federation.openFrame P cipher.toAead frame D =
        ((Codec.decodeEnvelope P plaintext).mapError .codec).map (fun env => (env, sender)) ∧
      PythonFederation.openFrame py nacl frame d =
        (PythonCodec.decodeEnvelope py plaintext).map fun env => (env, sender) := by
  obtain ⟨header, bodyOff, peer, hp, hpeer, hlen, hdec⟩ := h
  have hshort : ¬ (frame.drop bodyOff).length < nonceLen := by omega
  have hrel := hd sender
  rw [hpeer] at hrel
  constructor
  · unfold Federation.openFrame
    simp only [hp, hpeer, hshort, ↓reduceIte, hdec]
    cases Codec.decodeEnvelope P plaintext <;> rfl
  · rw [openFrame_of_header d hp]
    unfold openBody
    cases hpy : d.get sender with
    | none =>
      rw [hpy] at hrel
      cases hrel
    | some p =>
      rw [hpy] at hrel
      cases hrel with
      | some hsame =>
        simp only [hshort, ↓reduceIte, decrypt_body same hsame hlen, hdec]

/-- What does not decrypt is refused by both sides for one cause. -/
theorem refused_of_sealed (same : SameCipher cipher nacl) (hd : SameDirectory D d) {frame : Bytes}
    (h : ∀ plaintext sender, ¬ Unsealed cipher.toAead D frame plaintext sender) :
    ∃ e f, SameCause e f ∧ Federation.openFrame P cipher.toAead frame D = .error e ∧
      PythonFederation.openFrame py nacl frame d = .error f := by
  cases hp : parseHeader frame with
  | error e =>
    have hbad : ∃ f, SameCause e f ∧ PythonFederation.openFrame py nacl frame d = .error f :=
      openFrame_of_badHeader d hp
    obtain ⟨f, hf, hpy⟩ := hbad
    refine ⟨e, f, hf, ?_, hpy⟩
    simp only [Federation.openFrame, hp]
  | ok parsed =>
    obtain ⟨header, sender, bodyOff⟩ := parsed
    have hrel := hd sender
    rw [openFrame_of_header d hp]
    simp only [Federation.openFrame, openBody, hp]
    cases hpeer : D.get sender with
    | none =>
      cases hpy : d.get sender with
      | none => exact ⟨_, _, .unknownPeer sender, rfl, rfl⟩
      | some p =>
        rw [hpeer, hpy] at hrel
        cases hrel
    | some peer =>
      cases hpy : d.get sender with
      | none =>
        rw [hpeer, hpy] at hrel
        cases hrel
      | some p =>
        rw [hpeer, hpy] at hrel
        cases hrel with
        | some hsame =>
          by_cases hlen : (frame.drop bodyOff).length < nonceLen
          · simp only [hlen, ↓reduceIte]
            exact ⟨_, _, .malformedFrame, rfl, rfl⟩
          · have hle : nonceLen ≤ (frame.drop bodyOff).length := by omega
            simp only [hlen, ↓reduceIte, decrypt_body same hsame hle]
            cases hdec : cipher.decrypt peer.key ((frame.drop bodyOff).take nonceLen)
                ((frame.drop bodyOff).drop nonceLen) header with
            | none => exact ⟨_, _, .openFailed, rfl, rfl⟩
            | some plaintext =>
              exact absurd ⟨header, bodyOff, peer, hp, hpeer, hle, hdec⟩ (h plaintext sender)

/-- Every frame is refused by both sides for one cause, or handed to both decoders as one plaintext
    of one sender. -/
theorem open_agree (same : SameCipher cipher nacl) (hd : SameDirectory D d) (frame : Bytes) :
    (∃ e f, SameCause e f ∧ Federation.openFrame P cipher.toAead frame D = .error e ∧
      PythonFederation.openFrame py nacl frame d = .error f) ∨
    ∃ plaintext sender, Unsealed cipher.toAead D frame plaintext sender ∧
      Federation.openFrame P cipher.toAead frame D =
        ((Codec.decodeEnvelope P plaintext).mapError .codec).map (fun env => (env, sender)) ∧
      PythonFederation.openFrame py nacl frame d =
        (PythonCodec.decodeEnvelope py plaintext).map fun env => (env, sender) := by
  by_cases h : ∃ plaintext sender, Unsealed cipher.toAead D frame plaintext sender
  · obtain ⟨plaintext, sender, hu⟩ := h
    exact Or.inr ⟨plaintext, sender, hu, open_of_unsealed same hd hu⟩
  · left
    apply refused_of_sealed same hd
    intro plaintext sender hu
    exact h ⟨plaintext, sender, hu⟩

end

def coffees : Envelope UInt32 := CodecAgreement.order "two coffees"

def coffeesFrame : Bytes :=
  Federation.encodeHeader "ringhub" ++ (hubNonce.val ++
    (Codec.encodeEnvelope PlainPlatform.plain coffees ++
      (ringhub.key.toList ++ hubNonce.val ++ Federation.encodeHeader "ringhub")))

/-- The mirror's parser of the order. -/
def waiter : PythonCodec.Python UInt32 :=
  CodecAgreement.reading PlainPlatform.plain.xml (Codec.envelopeTokens PlainPlatform.plain coffees)

def homeDirectory : PyDirectory :=
  PyDirectory.new.register ⟨"ringhub", "ringhub:7000", ringhub.key.toList, 1⟩

theorem home_same : SameDirectory home.directory homeDirectory :=
  sameDirectory_new.register ⟨rfl, rfl, by decide⟩

theorem open_agree_coffees :
    (∃ e f, SameCause e f ∧
      Federation.openFrame PlainPlatform.plain tagged.toAead coffeesFrame home.directory =
        .error e ∧
      PythonFederation.openFrame waiter (bindings tagged) coffeesFrame homeDirectory =
        .error f) ∨
    ∃ plaintext sender, Unsealed tagged.toAead home.directory coffeesFrame plaintext sender ∧
      Federation.openFrame PlainPlatform.plain tagged.toAead coffeesFrame home.directory =
        ((Codec.decodeEnvelope PlainPlatform.plain plaintext).mapError .codec).map
          (fun env => (env, sender)) ∧
      PythonFederation.openFrame waiter (bindings tagged) coffeesFrame homeDirectory =
        (PythonCodec.decodeEnvelope waiter plaintext).map fun env => (env, sender) :=
  open_agree (bindings_same tagged) home_same coffeesFrame

/-! ## The inbound path -/

theorem number_eq_toNat (p : Provenance) : number p = ((ProvenanceSet.bits p).toNat : ℤ) := by
  unfold number ProvenanceSet.bits
  rw [BitVec.toNat_append, UInt64.toNat_toBitVec, UInt64.toNat_toBitVec,
    ← Nat.shiftLeft_add_eq_or_of_lt p.bitsLo.toNat_lt, Nat.shiftLeft_eq]

theorem number_union (p q : Provenance) : number (p.union q) = (number p).lor (number q) := by
  rw [number_eq_toNat, number_eq_toNat, number_eq_toNat, ProvenanceSet.bits_union, BitVec.toNat_or]
  rfl

section
variable {D : PeerDirectory} {d : PyDirectory}

theorem edgeProvenance_of_peer {sender : String} {r : PyPeer} (h : d.get sender = some r)
    (p : Provenance) : edgeProvenance d sender (number p) =
      (number p).lor r.inboundProvenance := by
  unfold edgeProvenance
  rw [h]
  dsimp only
  by_cases hz : r.inboundProvenance = 0
  · have hzero : (0 : ℤ) = number .empty := rfl
    rw [if_neg (fun hne => hne hz), hz, hzero, ← number_union, Provenance.union_empty]
  · rw [if_pos hz]

theorem edgeProvenance_number (hd : SameDirectory D d) (sender : String) (p : Provenance) :
    edgeProvenance d sender (number p) =
      number (p.union (((D.get sender).map Peer.inboundProvenance).getD .empty)) := by
  have hn := hd sender
  cases hpy : d.get sender with
  | none =>
    rw [hpy] at hn
    unfold edgeProvenance
    rw [hpy]
    generalize D.get sender = r at hn ⊢
    cases hn
    rw [Option.map_none, Option.getD_none, Provenance.union_empty]
  | some peer =>
    rw [edgeProvenance_of_peer hpy]
    rw [hpy] at hn
    generalize D.get sender = r at hn ⊢
    cases hn with
    | some hp => rw [Option.map_some, Option.getD_some, number_union, hp.inboundProvenance]

theorem stamp_mirror (hd : SameDirectory D d) (env : Envelope F) (sender : String) :
    PythonFederation.stamp d (mirror env) sender = mirror (Federation.stamp D env sender) := by
  have hp := edgeProvenance_number hd sender env.header.provenance
  unfold PythonFederation.stamp Federation.stamp mirror mirrorMeta
  dsimp only
  rw [hp]
  rfl

end

theorem stripNode_eq (node : String) (a : Address) :
    PythonFederation.stripNode node a = Federation.stripNode node a := by
  obtain ⟨segments⟩ := a
  unfold PythonFederation.stripNode Federation.stripNode Address.node
  cases segments with
  | nil => rfl
  | cons first rest =>
    cases rest with
    | nil => rfl
    | cons second rest => simp

/-- Nobody objects to the crossing. -/
def Allows (s : PyServer F) (fromAddr toAddr : Address) : Prop :=
  ∀ authorize ∈ s.authorize, authorize fromAddr toAddr = .ok true

/-- One configuration, with hosts that decide alike. -/
structure SameServer (R : FederationServer F) (S : PyServer F) : Prop where
  node : S.node = R.node
  directory : SameDirectory R.directory S.directory
  authorize (a b : Address) : Allows S a b ↔ R.authorizer a b = .ok ()
  deliver (env : Envelope F) : S.deliver (mirror env) = .ok () ↔ R.deliver env = .ok ()

def mirrorCall : Federation.Call F → PyCall F
  | .authorize a b => .authorize a b
  | .deliver env => .deliver (mirror env)

/-- Without a callable nobody is asked. -/
def heard (S : PyServer F) : PyCall F → Bool
  | .authorize _ _ => S.authorize.isSome
  | .deliver _ => true

@[simp]
theorem heard_authorize (S : PyServer F) (a b : Address) :
    heard S (.authorize a b) = S.authorize.isSome := rfl

@[simp]
theorem heard_deliver (S : PyServer F) (env : PythonCodec.PyEnvelope F) :
    heard S (.deliver env) = true := rfl

/-- The server makes the same calls, and succeeds with them. -/
structure SameOutcome (S : PyServer F) (rust : List (Federation.Call F) × Except FederationError Unit)
    (python : List (PyCall F) × Except PyError Unit) : Prop where
  calls : python.1 = (rust.1.map mirrorCall).filter (heard S)
  success : python.2 = .ok () ↔ rust.2 = .ok ()

theorem deliverLocally_mirror {R : FederationServer F} {S : PyServer F} (h : SameServer R S)
    (env : Envelope F) : SameOutcome S (Federation.deliverLocally R env)
      (PythonFederation.deliverLocally S (mirror env)) := by
  have hstrip : PythonFederation.stripNode S.node = Federation.stripNode R.node := by
    rw [h.node]
    funext a
    exact stripNode_eq R.node a
  have hd := h.deliver { env with header := { env.header with
    toAddr := env.header.toAddr.map (Federation.stripNode R.node) } }
  unfold Federation.deliverLocally PythonFederation.deliverLocally
  dsimp only
  have henv : ({ mirror env with header := { (mirror env).header with
      toAddr := (mirror env).header.toAddr.map (PythonFederation.stripNode S.node) } } :
      PythonCodec.PyEnvelope F) = mirror { env with header := { env.header with
        toAddr := env.header.toAddr.map (Federation.stripNode R.node) } } := by
    rw [hstrip]
    rfl
  rw [henv]
  cases hr : R.deliver { env with header := { env.header with
      toAddr := env.header.toAddr.map (Federation.stripNode R.node) } } with
  | ok u => exact ⟨rfl, iff_of_true (hd.mpr hr) rfl⟩
  | error m =>
    refine ⟨rfl, iff_of_false (fun hp => ?_) nofun⟩
    rw [hd.mp hp] at hr
    cases hr

theorem crossEdge_of_ok {R : FederationServer F} {env : Envelope F} {toAddr : Address}
    (hto : env.header.toAddr = some toAddr)
    (h : R.authorizer env.header.fromAddr toAddr = .ok ()) : Federation.crossEdge R env =
      (.authorize env.header.fromAddr toAddr :: (Federation.deliverLocally R env).1,
        (Federation.deliverLocally R env).2) := by
  unfold Federation.crossEdge
  rw [hto]
  dsimp only
  rw [h]

theorem crossEdge_of_error {R : FederationServer F} {env : Envelope F} {toAddr : Address}
    (hto : env.header.toAddr = some toAddr)
    (h : R.authorizer env.header.fromAddr toAddr ≠ .ok ()) : ∃ e, Federation.crossEdge R env =
      ([.authorize env.header.fromAddr toAddr], .error e) := by
  unfold Federation.crossEdge
  rw [hto]
  dsimp only
  cases ha : R.authorizer env.header.fromAddr toAddr with
  | error m => exact ⟨_, rfl⟩
  | ok u => exact absurd ha h

theorem crossEdge_mirror {R : FederationServer F} {S : PyServer F} (h : SameServer R S)
    (env : Envelope F) : SameOutcome S (Federation.crossEdge R env)
      (PythonFederation.crossEdge S (mirror env)) := by
  have hlocal := deliverLocally_mirror h env
  cases hto : env.header.toAddr with
  | none =>
    have hpy : (mirror env).header.toAddr = none := hto
    rw [PythonFederation.crossEdge_of_open (Or.inr hpy)]
    unfold Federation.crossEdge
    rw [hto]
    exact hlocal
  | some toAddr =>
    have hpy : (mirror env).header.toAddr = some toAddr := hto
    have hallow := h.authorize env.header.fromAddr toAddr
    unfold Allows at hallow
    cases hs : S.authorize with
    | none =>
      rw [hs] at hallow
      rw [PythonFederation.crossEdge_of_open (Or.inl hs), crossEdge_of_ok hto (hallow.mp nofun)]
      refine ⟨?_, hlocal.success⟩
      rw [hlocal.calls, List.map_cons, List.filter_cons_of_neg]
      rw [mirrorCall, heard_authorize, hs]
      simp
    | some authorize =>
      have heard_ask : heard S (mirrorCall (.authorize env.header.fromAddr toAddr)) = true := by
        rw [mirrorCall, heard_authorize, hs]
        rfl
      by_cases hok : authorize env.header.fromAddr toAddr = .ok true
      · have hrust : R.authorizer env.header.fromAddr toAddr = .ok () := by
          rw [← hallow, hs]
          intro f hf
          rw [← Option.some_inj.mp hf]
          exact hok
        rw [PythonFederation.crossEdge_of_allowed hs hpy hok, crossEdge_of_ok hto hrust]
        refine ⟨?_, hlocal.success⟩
        rw [hlocal.calls, List.map_cons, List.filter_cons_of_pos heard_ask]
        rfl
      · have hrust : R.authorizer env.header.fromAddr toAddr ≠ .ok () := by
          rw [ne_eq, ← hallow, hs]
          intro hall
          exact hok (hall authorize rfl)
        obtain ⟨e, he⟩ := crossEdge_of_error hto hrust
        obtain ⟨f, hf⟩ := PythonFederation.crossEdge_of_refused hs hpy hok
        rw [he, hf]
        refine ⟨?_, iff_of_false nofun nofun⟩
        rw [List.map_singleton, List.filter_singleton, heard_ask]
        rfl

/-! ## A node of either language -/

/-- Both decoders refuse the plaintext, or read one envelope. -/
def DecodedAlike (P : Codec.Platform F) (py : PythonCodec.Python F) (raw : Bytes) : Prop :=
  (∃ fault f, Codec.decodeEnvelope P raw = .error fault ∧
    PythonCodec.decodeEnvelope py raw = .error f) ∨
  ∃ env, Codec.decodeEnvelope P raw = .ok env ∧ PythonCodec.decodeEnvelope py raw = .ok (mirror env)

/-- The mirror reads back what both sides write alike. -/
theorem decode_alike (lawful : PythonNumerals.Lawful py) {env : Envelope F} (hx : Exchanged env)
    (ha : Alike env) (hparse : ParsesWritten py.fromstring P.xml (Codec.envelopeTokens P env)) :
    PythonCodec.decodeEnvelope py (Codec.encodeEnvelope P env) = .ok (mirror env) := by
  have hw := EnvelopeTokens.wellformed_envelope (P := P) hx.portable
  have hread : PythonCodec.decodeEnvelope py (Codec.encodeEnvelope P env) = seen env := by
    rw [PythonCodec.decodeEnvelope, Codec.encodeEnvelope, hparse hw, infoset_envelope,
      bind_orRaise_some]
    exact decodeRoot_envelope lawful hx.texts hx.portable.value
  rw [hread, seen_iff]
  refine ⟨(alikeAddress_iff hx.fromAddr hx.portable.fromAddr).mpr ha.fromAddr,
    (seenTarget_iff hx.toAddr hx.portable.toAddr).mpr ha.toAddr, normalize_of_plain ha.tag, ?_⟩
  exact mirrorValue_of_plain _ ha.value

/-- The reader reads back what the mirror wrote of an envelope that is alike on both sides. -/
theorem decode_rendered (lawful : CodecImage.Lawful P) {env : Envelope F} (hx : Exchanged env)
    (ha : Alike env) (hread : ReadsMarkup P.xml (Codec.envelopeTokens P env)) :
    Codec.decodeEnvelope P (utf8 (render (Codec.envelopeTokens P env))) = .ok env := by
  have hw := EnvelopeTokens.wellformed_envelope (P := P) hx.portable
  rw [decode_render lawful hx.portable hw hread, renamed_image_iff]
  refine ⟨?_, ?_, ?_, ?_, ?_⟩
  · exact (RoundTrip.headerAddress_eq_self_iff hx.fromAddr).mpr ha.fromAddr.trimmed
  · exact (RoundTrip.headerTarget_eq_self_iff hx.toAddr).mpr fun a hm => (ha.toAddr a hm).trimmed
  · exact (RoundTrip.headerText_eq_self_iff hx.thread).mpr ha.thread
  · exact (attrRaw_eq_self_iff _).mpr ha.tag
  · exact (rename_image_eq_self_iff _).mpr ha.value

/-- A node of the mirror in the place of a node receives like it: on every frame whose plaintext
    both read alike it asks, delivers and succeeds with the same. -/
theorem receive_agree (same : SameCipher cipher nacl) {R : FederationServer F} {S : PyServer F}
    (haead : R.aead = cipher.toAead) (h : SameServer R S) (frame : Bytes)
    (halike : ∀ plaintext sender, Unsealed cipher.toAead R.directory frame plaintext sender →
      DecodedAlike P py plaintext) :
    SameOutcome S (Federation.receive P R frame) (PythonFederation.receive py nacl S frame) := by
  have hnone : ∀ e f, SameOutcome S ([], .error e) ([], .error f) := fun e f =>
    ⟨rfl, iff_of_false nofun nofun⟩
  unfold Federation.receive PythonFederation.receive
  rw [haead]
  by_cases hex : ∃ plaintext sender, Unsealed cipher.toAead R.directory frame plaintext sender
  · obtain ⟨plaintext, sender, hu⟩ := hex
    obtain ⟨hrust, hpy⟩ := open_of_unsealed same h.directory hu
    rw [hrust, hpy]
    rcases halike plaintext sender hu with ⟨fault, f, hr, hp⟩ | ⟨env, hr, hp⟩
    · rw [hr, hp]
      exact hnone _ _
    · rw [hr, hp]
      change SameOutcome S (Federation.crossEdge R (Federation.stamp R.directory env sender))
        (PythonFederation.crossEdge S (PythonFederation.stamp S.directory (mirror env) sender))
      rw [stamp_mirror h.directory]
      exact crossEdge_mirror h _
  · obtain ⟨e, f, _, hrust, hpy⟩ := refused_of_sealed same h.directory
      fun plaintext sender hu => hex ⟨plaintext, sender, hu⟩
    rw [hrust, hpy]
    exact hnone e f

def pyHome : PyServer UInt32 where
  node := "agentos"
  directory := homeDirectory
  authorize := some fun _ _ => .ok true
  deliver _ := .ok ()

theorem pyHome_same : SameServer home pyHome where
  node := rfl
  directory := home_same
  authorize a b := by
    refine iff_of_true ?_ rfl
    intro f hf
    rw [← Option.some_inj.mp hf]
  deliver _ := iff_of_true rfl rfl

theorem coffees_read :
    Codec.decodeEnvelope PlainPlatform.plain (Codec.encodeEnvelope PlainPlatform.plain coffees) =
        .ok coffees ∧
      PythonCodec.decodeEnvelope waiter (Codec.encodeEnvelope PlainPlatform.plain coffees) =
        .ok (mirror coffees) :=
  ⟨PlainPlatform.decode_of_image rfl, decode_alike (CodecAgreement.reading_lawful _ _)
    (CodecAgreement.order_exchanged (by decide)) (CodecAgreement.order_alike (by decide))
    (CodecAgreement.reading_parses _ _)⟩

theorem receive_agree_coffees :
    SameOutcome pyHome (Federation.receive PlainPlatform.plain home coffeesFrame)
      (PythonFederation.receive waiter (bindings tagged) pyHome coffeesFrame) := by
  apply receive_agree (bindings_same tagged) rfl pyHome_same
  intro plaintext sender h
  unfold coffeesFrame at h
  rw [unsealed_frame_iff (by decide)] at h
  obtain ⟨_, peer, hpeer, hdec⟩ := h
  have hkey : peer.key = ringhub.key := by
    rw [← Option.some_inj.mp hpeer]
  have hct := tagged_correct ringhub.key hubNonce.val
    (Codec.encodeEnvelope PlainPlatform.plain coffees) (Federation.encodeHeader "ringhub") _ rfl
  rw [hkey, hct] at hdec
  rw [← Option.some_inj.mp hdec]
  exact Or.inr ⟨coffees, coffees_read⟩

end RustPipeline.FederationAgreement
