import RustPipeline.SealOpen

set_option autoImplicit false

/-!
# The frames a server accepts

A frame is accepted when it is spelled as `seal` spells it, opens under the key of the peer it
names, and its envelope is authorized and taken by the host; nothing else is delivered.
-/
namespace RustPipeline.FrameFormat
open Text Wire Codec Federation Sealing SealOpen

variable {F : Type} {P : Platform F}

/-! ## The header -/

theorem byte_of_div (hi lo : UInt8) : UInt8.ofNat ((256 * hi.toNat + lo.toNat) / 256) = hi := by
  have hlo := lo.toNat_lt
  have hdiv : (256 * hi.toNat + lo.toNat) / 256 = hi.toNat := by omega
  rw [hdiv, UInt8.ofNat_toNat]

theorem byte_of_mod (hi lo : UInt8) : UInt8.ofNat (256 * hi.toNat + lo.toNat) = lo := by
  apply UInt8.toNat_inj.mp
  have hlo := lo.toNat_lt
  rw [UInt8.toNat_ofNat']
  omega

/-- The length field of a header spells the sender's length. -/
theorem encodeHeader_of_length {sender : String} {hi lo : UInt8}
    (h : (utf8 sender).length = 256 * hi.toNat + lo.toNat) :
    encodeHeader sender = 1 :: 0 :: hi :: lo :: utf8 sender := by
  unfold encodeHeader
  dsimp only
  rw [h, byte_of_div, byte_of_mod]

/-- A header is read only from the bytes that write it. -/
theorem parseHeader_ok_iff (frame header : Bytes) (sender : String) (bodyOff : ℕ) :
    parseHeader frame = .ok (header, sender, bodyOff) ↔ (utf8 sender).length < 2 ^ 16 ∧
      header = encodeHeader sender ∧ bodyOff = header.length ∧
        ∃ body, frame = encodeHeader sender ++ body := by
  constructor
  · intro h
    have hlen := parseHeader_length h
    unfold parseHeader at h
    rcases frame with _ | ⟨version, _ | ⟨authMethod, _ | ⟨hi, _ | ⟨lo, rest⟩⟩⟩⟩
    · cases h
    · cases h
    · cases h
    · cases h
    · dsimp only at h
      split_ifs at h with hv ha hl
      have htake : (version :: authMethod :: hi :: lo :: rest).take
          (4 + (256 * hi.toNat + lo.toNat)) =
            version :: authMethod :: hi :: lo :: rest.take (256 * hi.toNat + lo.toNat) := by
        rw [Nat.add_comm 4]
        rfl
      simp only [htake, List.drop_succ_cons, List.drop_zero] at h
      cases hs : fromUtf8 (rest.take (256 * hi.toNat + lo.toNat)) with
      | none =>
        rw [hs] at h
        cases h
      | some s =>
        rw [hs] at h
        simp only [Except.ok.injEq, Prod.mk.injEq] at h
        obtain ⟨rfl, rfl, rfl⟩ := h
        simp only [List.length_cons] at hl
        have hutf8 := utf8_of_fromUtf8 hs
        have hcount : (utf8 s).length = 256 * hi.toNat + lo.toNat := by
          rw [hutf8, List.length_take]
          omega
        have hheader : encodeHeader s = version :: authMethod :: hi :: lo ::
            rest.take (256 * hi.toNat + lo.toNat) := by
          rw [encodeHeader_of_length hcount, hutf8, not_not.mp hv, not_not.mp ha]
        refine ⟨hlen, hheader.symm, ?_, rest.drop (256 * hi.toNat + lo.toNat), ?_⟩
        · simp only [List.length_cons, List.length_take]
          omega
        · rw [hheader]
          simp only [List.cons_append, List.take_append_drop]
  · rintro ⟨hlen, rfl, rfl, body, rfl⟩
    exact parseHeader_encodeHeader hlen body

/-! ## The frame -/

/-- The frame is the header of a registered peer, a nonce and what the peer's key opens, with the
header as associated data, to the bytes of the envelope. -/
structure Framed (P : Platform F) (aead : Aead) (directory : PeerDirectory) (frame : Bytes)
    (env : Envelope F) (sender : String) (peer : Peer) (nonce ct plaintext : Bytes) : Prop where
  fits : (utf8 sender).length < 2 ^ 16
  known : directory.get sender = some peer
  drawn : nonce.length = nonceLen
  spelled : frame = encodeHeader sender ++ (nonce ++ ct)
  opened : aead.decrypt peer.key nonce ct (encodeHeader sender) = some plaintext
  decoded : decodeEnvelope P plaintext = .ok env

theorem openFrame_ok_iff (aead : Aead) (directory : PeerDirectory) (frame : Bytes)
    (env : Envelope F) (sender : String) :
    openFrame P aead frame directory = .ok (env, sender) ↔
      ∃ peer nonce ct plaintext, Framed P aead directory frame env sender peer nonce ct plaintext := by
  constructor
  · intro h
    unfold openFrame at h
    cases hp : parseHeader frame with
    | error e =>
      rw [hp] at h
      cases h
    | ok p =>
      obtain ⟨header, s, bodyOff⟩ := p
      obtain ⟨hlen, rfl, rfl, body, rfl⟩ := (parseHeader_ok_iff _ _ _ _).mp hp
      simp only [hp, List.drop_left] at h
      cases hd : directory.get s with
      | none =>
        rw [hd] at h
        cases h
      | some peer =>
        simp only [hd] at h
        split_ifs at h with hshort
        cases hplain : aead.decrypt peer.key (body.take nonceLen) (body.drop nonceLen)
            (encodeHeader s) with
        | none =>
          rw [hplain] at h
          cases h
        | some plaintext =>
          simp only [hplain] at h
          cases henv : decodeEnvelope P plaintext with
          | error fault =>
            rw [henv] at h
            cases h
          | ok e =>
            simp only [henv, Except.ok.injEq, Prod.mk.injEq] at h
            obtain ⟨rfl, rfl⟩ := h
            refine ⟨peer, body.take nonceLen, body.drop nonceLen, plaintext, hlen, hd, ?_, ?_, hplain,
              henv⟩
            · rw [List.length_take]
              omega
            · rw [List.take_append_drop]
  · rintro ⟨peer, nonce, ct, plaintext, h⟩
    rw [h.spelled]
    exact openFrame_of_decrypt P h.fits h.known h.drawn h.opened h.decoded

/-! ## The inbound path -/

/-- The envelope as the host gets it. -/
def inbound (s : FederationServer F) (env : Envelope F) (sender : String) : Envelope F :=
  let stamped := stamp s.directory env sender
  { stamped with header := { stamped.header with
    toAddr := stamped.header.toAddr.map (stripNode s.node) } }

/-- What is asked of the authorizer about an envelope. -/
def asked (env : Envelope F) : List (Call F) :=
  env.header.toAddr.toList.map (Call.authorize env.header.fromAddr)

theorem deliverLocally_ok_iff (s : FederationServer F) (env : Envelope F) (calls : List (Call F)) :
    deliverLocally s env = (calls, .ok ()) ↔
      s.deliver { env with header := { env.header with
        toAddr := env.header.toAddr.map (stripNode s.node) } } = .ok () ∧
      calls = [.deliver { env with header := { env.header with
        toAddr := env.header.toAddr.map (stripNode s.node) } }] := by
  unfold deliverLocally
  dsimp only
  cases hd : s.deliver { env with header := { env.header with
      toAddr := env.header.toAddr.map (stripNode s.node) } } with
  | error m => simp
  | ok u => simp [eq_comm]

theorem crossEdge_ok_iff (s : FederationServer F) (env : Envelope F) (calls : List (Call F)) :
    crossEdge s env = (calls, .ok ()) ↔
      (∀ toAddr ∈ env.header.toAddr, s.authorizer env.header.fromAddr toAddr = .ok ()) ∧
      ∃ rest, deliverLocally s env = (rest, .ok ()) ∧ calls = asked env ++ rest := by
  unfold crossEdge asked
  cases hto : env.header.toAddr with
  | none => simp
  | some toAddr =>
    cases ha : s.authorizer env.header.fromAddr toAddr with
    | error m => simp [ha]
    | ok u =>
      simp only [ha, Option.mem_some_iff, forall_eq', Option.toList_some, List.map_cons,
        List.map_nil, List.singleton_append, true_and, Prod.mk.injEq]
      constructor
      · rintro ⟨hcalls, hok⟩
        exact ⟨_, Prod.ext rfl hok, hcalls.symm⟩
      · rintro ⟨rest, hrest, rfl⟩
        rw [hrest]
        exact ⟨rfl, rfl⟩

/-- A server accepts exactly the frames that a registered peer's key opens in the one spelling of
that peer's header, whose envelope the authorizer and the host accept; it then asks about the
destination and delivers, once each. -/
theorem receive_ok_iff (s : FederationServer F) (frame : Bytes) (calls : List (Call F)) :
    receive P s frame = (calls, .ok ()) ↔ ∃ env sender peer nonce ct plaintext,
      Framed P s.aead s.directory frame env sender peer nonce ct plaintext ∧
      (∀ toAddr ∈ env.header.toAddr,
        s.authorizer (rerootOrigin env.header.fromAddr sender) toAddr = .ok ()) ∧
      s.deliver (inbound s env sender) = .ok () ∧
      calls = asked (stamp s.directory env sender) ++ [.deliver (inbound s env sender)] := by
  constructor
  · intro h
    unfold receive at h
    cases hopen : openFrame P s.aead frame s.directory with
    | error e =>
      rw [hopen] at h
      cases h
    | ok p =>
      obtain ⟨env, sender⟩ := p
      simp only [hopen] at h
      obtain ⟨peer, nonce, ct, plaintext, hframed⟩ := (openFrame_ok_iff _ _ _ _ _).mp hopen
      obtain ⟨hauth, rest, hlocal, rfl⟩ := (crossEdge_ok_iff _ _ _).mp h
      obtain ⟨hdeliver, rfl⟩ := (deliverLocally_ok_iff _ _ _).mp hlocal
      exact ⟨env, sender, peer, nonce, ct, plaintext, hframed, hauth, hdeliver, rfl⟩
  · rintro ⟨env, sender, peer, nonce, ct, plaintext, hframed, hauth, hdeliver, rfl⟩
    have hopen := (openFrame_ok_iff _ _ _ _ _).mpr ⟨peer, nonce, ct, plaintext, hframed⟩
    rw [receive_of_open hopen, crossEdge_ok_iff]
    exact ⟨hauth, _, (deliverLocally_ok_iff _ _ _).mpr ⟨hdeliver, rfl⟩, rfl⟩

end RustPipeline.FrameFormat
