import RustPipeline.FederationGate

set_option autoImplicit false

/-!
# Sealed frames

The outbound half of the wire protocol, and what an opened frame says about the calls of `seal`
that came before it when the cipher is ideal.
-/
namespace RustPipeline.Sealing
open Text Wire Codec CodecImage Federation PlainPlatform

variable {F : Type}

/-! ## Sealing -/

abbrev Nonce := { n : Bytes // n.length = nonceLen }

/-- Encryption fails on a message that is too long. -/
structure Cipher extends Aead where
  encrypt : PeerKey → Bytes → Bytes → Bytes → Option Bytes

/-- `seal`; there is no nonce when the system has no randomness to give. -/
def sealFrame (P : Platform F) (cipher : Cipher) (nonce : Option Nonce) (envelope : Envelope F)
    (sender : String) (key : PeerKey) : Except FederationError Bytes :=
  match nonce with
  | none => .error .nonce
  | some n =>
    match cipher.encrypt key n.val (encodeEnvelope P envelope) (encodeHeader sender) with
    | none => .error .openFailed
    | some ct => .ok (encodeHeader sender ++ (n.val ++ ct))

theorem sealFrame_ok_iff (P : Platform F) (cipher : Cipher) (nonce : Option Nonce)
    (envelope : Envelope F) (sender : String) (key : PeerKey) (frame : Bytes) :
    sealFrame P cipher nonce envelope sender key = .ok frame ↔ ∃ n ct, nonce = some n ∧
      cipher.encrypt key n.val (encodeEnvelope P envelope) (encodeHeader sender) = some ct ∧
      frame = encodeHeader sender ++ (n.val ++ ct) := by
  unfold sealFrame
  constructor
  · intro h
    cases nonce with
    | none => cases h
    | some n =>
      dsimp only at h
      cases hc : cipher.encrypt key n.val (encodeEnvelope P envelope) (encodeHeader sender) with
      | none => simp [hc] at h
      | some ct =>
        simp only [hc, Except.ok.injEq] at h
        exact ⟨n, ct, rfl, hc, h.symm⟩
  · rintro ⟨n, ct, rfl, hc, rfl⟩
    simp only [hc]

/-! ## The framing -/

theorem encodeHeader_drop (sender : String) : (encodeHeader sender).drop 4 = utf8 sender := rfl

theorem encodeHeader_inj {s t : String} : encodeHeader s = encodeHeader t ↔ s = t := by
  constructor
  · intro h
    have hd := congrArg (List.drop 4) h
    rw [encodeHeader_drop, encodeHeader_drop] at hd
    exact utf8_inj.mp hd
  · intro h
    rw [h]

/-- What the header of a frame says is what its bytes spell, and the body is the rest. -/
theorem parseHeader_ok {frame header : Bytes} {sender : String} {bodyOff : ℕ}
    (h : parseHeader frame = .ok (header, sender, bodyOff)) :
    frame = header ++ frame.drop bodyOff ∧ fromUtf8 (header.drop 4) = some sender := by
  unfold parseHeader at h
  split at h
  · dsimp only at h
    split_ifs at h
    split at h
    · next s hs =>
      simp only [Except.ok.injEq, Prod.mk.injEq] at h
      obtain ⟨rfl, rfl, rfl⟩ := h
      exact ⟨(List.take_append_drop _ _).symm, hs⟩
    · cases h
  · cases h

/-- A frame whose header bytes are those of a sender claims that sender. -/
theorem parseHeader_sender {frame : Bytes} {s sender : String} {bodyOff : ℕ}
    (h : parseHeader frame = .ok (encodeHeader s, sender, bodyOff)) : s = sender := by
  have hs := (parseHeader_ok h).2
  rw [encodeHeader_drop, fromUtf8_utf8, Option.some_inj] at hs
  exact hs

theorem openFrame_ok {P : Platform F} {aead : Aead} {frame : Bytes} {directory : PeerDirectory}
    {env : Envelope F} {sender : String}
    (h : openFrame P aead frame directory = .ok (env, sender)) :
    ∃ header bodyOff peer nonce ct plaintext,
      parseHeader frame = .ok (header, sender, bodyOff) ∧ directory.get sender = some peer ∧
      frame = header ++ (nonce ++ ct) ∧ aead.decrypt peer.key nonce ct header = some plaintext ∧
      decodeEnvelope P plaintext = .ok env := by
  unfold openFrame at h
  cases hp : parseHeader frame with
  | error e => simp [hp] at h
  | ok p =>
    obtain ⟨header, s, bodyOff⟩ := p
    simp only [hp] at h
    cases hd : directory.get s with
    | none => simp [hd] at h
    | some peer =>
      simp only [hd] at h
      split_ifs at h
      split at h
      · cases h
      · next plaintext hplain =>
        cases henv : decodeEnvelope P plaintext with
        | error fault => simp [henv] at h
        | ok e =>
          simp only [henv, Except.ok.injEq, Prod.mk.injEq] at h
          obtain ⟨rfl, rfl⟩ := h
          refine ⟨header, bodyOff, peer, _, _, plaintext, rfl, hd, ?_, hplain, henv⟩
          rw [List.take_append_drop]
          exact (parseHeader_ok hp).1

/-! ## Ideal ciphers -/

/-- One call of `seal`, with the nonce it drew. -/
structure SealCall (F : Type) where
  envelope : Envelope F
  sender : String
  key : PeerKey
  nonce : Option Nonce

def SealCall.frame (P : Platform F) (cipher : Cipher) (c : SealCall F) :
    Except FederationError Bytes :=
  sealFrame P cipher c.nonce c.envelope c.sender c.key

/-- The call encrypted the message under the key, the nonce and the associated data. -/
structure SealCall.Encrypted (P : Platform F) (cipher : Cipher) (c : SealCall F) (key : PeerKey)
    (nonce plaintext aad ct : Bytes) : Prop where
  sameKey : c.key = key
  sameNonce : c.nonce.map Subtype.val = some nonce
  encoded : encodeEnvelope P c.envelope = plaintext
  bound : encodeHeader c.sender = aad
  encrypted : cipher.encrypt key nonce plaintext aad = some ct

/-- Decryption succeeds only on what a call of the history encrypted, and returns its message. -/
def Ideal (P : Platform F) (cipher : Cipher) (history : List (SealCall F)) : Prop :=
  ∀ key nonce ct aad plaintext, cipher.decrypt key nonce ct aad = some plaintext →
    ∃ c ∈ history, c.Encrypted P cipher key nonce plaintext aad ct

theorem SealCall.Encrypted.frame {P : Platform F} {cipher : Cipher} {c : SealCall F}
    {key : PeerKey} {nonce plaintext aad ct : Bytes}
    (h : c.Encrypted P cipher key nonce plaintext aad ct) :
    c.frame P cipher = .ok (aad ++ (nonce ++ ct)) := by
  obtain ⟨n, hn, rfl⟩ := Option.map_eq_some_iff.mp h.sameNonce
  obtain ⟨rfl, _, rfl, rfl, hct⟩ := h
  exact (sealFrame_ok_iff P cipher _ _ _ _ _).mpr ⟨n, ct, hn, hct, rfl⟩

/-- What decrypts in the frame is what a call of the history encrypted. -/
def Genuine (P : Platform F) (cipher : Cipher) (history : List (SealCall F)) (frame : Bytes) :
    Prop :=
  ∀ key nonce ct aad plaintext, frame = aad ++ (nonce ++ ct) →
    cipher.decrypt key nonce ct aad = some plaintext →
      ∃ c ∈ history, c.Encrypted P cipher key nonce plaintext aad ct

theorem openFrame_genuine {P : Platform F} {cipher : Cipher} {history : List (SealCall F)}
    {frame : Bytes} (genuine : Genuine P cipher history frame) {directory : PeerDirectory}
    {env : Envelope F} {s : String}
    (h : openFrame P cipher.toAead frame directory = .ok (env, s)) :
    ∃ peer, directory.get s = some peer ∧ ∃ c ∈ history, c.key = peer.key ∧ c.sender = s ∧
      c.frame P cipher = .ok frame ∧
      decodeEnvelope P (encodeEnvelope P c.envelope) = .ok env := by
  obtain ⟨header, bodyOff, peer, nonce, ct, plaintext, hp, hd, hframe, hdec, henv⟩ := openFrame_ok h
  obtain ⟨c, hc, he⟩ := genuine peer.key nonce ct header plaintext hframe hdec
  have hs : c.sender = s := by
    rw [← he.bound] at hp
    exact parseHeader_sender hp
  refine ⟨peer, hd, c, hc, he.sameKey, hs, ?_, ?_⟩
  · rw [he.frame, hframe]
  · rw [he.encoded]
    exact henv

theorem openFrame_sealed {P : Platform F} {cipher : Cipher} {history : List (SealCall F)}
    (ideal : Ideal P cipher history) {frame : Bytes} {directory : PeerDirectory}
    {env : Envelope F} {s : String}
    (h : openFrame P cipher.toAead frame directory = .ok (env, s)) :
    ∃ peer, directory.get s = some peer ∧ ∃ c ∈ history, c.key = peer.key ∧ c.sender = s ∧
      c.frame P cipher = .ok frame ∧
      decodeEnvelope P (encodeEnvelope P c.envelope) = .ok env :=
  openFrame_genuine (fun key nonce ct aad plaintext _ => ideal key nonce ct aad plaintext) h

/-- An opened frame is, byte for byte, the output of a call of `seal` under the key of the
    registered sender it names, and its envelope is the decoding of what that call encoded. A frame
    that no call put out does not open. -/
theorem openFrame_authentic (P : Platform F) (cipher : Cipher) (history : List (SealCall F))
    (ideal : Ideal P cipher history) (frame : Bytes) (directory : PeerDirectory) :
    (∀ env s, openFrame P cipher.toAead frame directory = .ok (env, s) →
      ∃ peer, directory.get s = some peer ∧ ∃ c ∈ history, c.key = peer.key ∧ c.sender = s ∧
        c.frame P cipher = .ok frame ∧
        decodeEnvelope P (encodeEnvelope P c.envelope) = .ok env) ∧
    ((∀ c ∈ history, c.frame P cipher ≠ .ok frame) →
      ∃ e, openFrame P cipher.toAead frame directory = .error e) := by
  constructor
  · intro env s h
    exact openFrame_sealed ideal h
  · intro hnone
    cases h : openFrame P cipher.toAead frame directory with
    | error e => exact ⟨e, rfl⟩
    | ok p =>
      obtain ⟨peer, _, c, hc, _, _, hframe, _⟩ := openFrame_sealed ideal h
      exact absurd hframe (hnone c hc)

/-! ## One sealed order -/

/-- A cipher that appends a tag of zeros, and has sealed one message. -/
def taggedOnce (key : PeerKey) (nonce plaintext header : Bytes) : Cipher where
  toAead := FederationGate.sealedOnce key nonce plaintext header (plaintext ++ List.replicate 16 0)
  encrypt _ _ p _ := some (p ++ List.replicate 16 0)

/-- The cipher that has sealed the message of one call. -/
def SealCall.cipher (P : Platform F) (c : SealCall F) (n : Nonce) : Cipher :=
  taggedOnce c.key n.val (encodeEnvelope P c.envelope) (encodeHeader c.sender)

theorem SealCall.cipher_ideal (P : Platform F) (c : SealCall F) (n : Nonce)
    (hn : c.nonce = some n) : Ideal P (c.cipher P n) [c] := by
  intro key nonce ct aad plaintext h
  unfold SealCall.cipher taggedOnce FederationGate.sealedOnce at h
  dsimp only at h
  split_ifs at h with hcall
  obtain ⟨rfl, rfl, rfl, rfl⟩ := hcall
  cases h
  exact ⟨c, List.mem_singleton_self c, rfl, by rw [hn, Option.map_some], rfl, rfl, rfl⟩

theorem SealCall.cipher_frame (P : Platform F) (c : SealCall F) (n : Nonce)
    (hn : c.nonce = some n) : c.frame P (c.cipher P n) = .ok (encodeHeader c.sender ++
      (n.val ++ (encodeEnvelope P c.envelope ++ List.replicate 16 0))) :=
  (sealFrame_ok_iff P _ _ _ _ _ _).mpr ⟨n, _, hn, rfl, rfl⟩

def conciergeOrder : Envelope UInt32 := FederationGate.order (some (.flat "concierge"))

def hubNonce : Nonce := ⟨FederationGate.zeroNonce, rfl⟩

def hubCall : SealCall UInt32 :=
  ⟨conciergeOrder, "ringhub", FederationGate.ringhub.key, some hubNonce⟩

def hubDirectory : PeerDirectory := PeerDirectory.new.register FederationGate.ringhub

def hubFrame : Bytes :=
  encodeHeader "ringhub" ++ (hubNonce.val ++
    (encodeEnvelope plain conciergeOrder ++ List.replicate 16 0))

theorem openFrame_authentic_order :
    Ideal plain (hubCall.cipher plain hubNonce) [hubCall] ∧
      openFrame plain (hubCall.cipher plain hubNonce).toAead hubFrame hubDirectory =
        .ok (conciergeOrder, "ringhub") ∧
      ∃ peer, hubDirectory.get "ringhub" = some peer ∧ ∃ c ∈ [hubCall], c.key = peer.key ∧
        c.sender = "ringhub" ∧ c.frame plain (hubCall.cipher plain hubNonce) = .ok hubFrame ∧
        decodeEnvelope plain (encodeEnvelope plain c.envelope) = .ok conciergeOrder := by
  have hideal := hubCall.cipher_ideal plain hubNonce rfl
  have hopen : openFrame plain (hubCall.cipher plain hubNonce).toAead hubFrame hubDirectory =
      .ok (conciergeOrder, "ringhub") :=
    openFrame_of_decrypt plain (by decide) rfl hubNonce.property
      (FederationGate.sealedOnce_decrypt _ _ _ _ _) FederationGate.decode_order_concierge
  exact ⟨hideal, hopen,
    (openFrame_authentic plain _ [hubCall] hideal hubFrame hubDirectory).1 _ _ hopen⟩

end RustPipeline.Sealing
