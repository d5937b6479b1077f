import RustPipeline.TwoNodes

set_option autoImplicit false

/-!
# Opening what was sealed

A header names a sender of less than 2 ^ 16 bytes, whatever the sender it was written for.
-/
namespace RustPipeline.SealOpen
open Text Wire Codec Federation FederationGate Sealing TwoNodes PlainPlatform

variable {F : Type}

theorem utf8_of_fromUtf8 {bs : Bytes} {s : String} (h : fromUtf8 bs = some s) : utf8 s = bs := by
  unfold fromUtf8 at h
  split_ifs at h with hv
  rw [Option.some_inj] at h
  subst h
  change (ByteArray.mk bs.toArray).data.toList = bs
  rw [List.toList_toArray]

theorem parseHeader_length {frame header : Bytes} {sender : String} {bodyOff : ℕ}
    (h : parseHeader frame = .ok (header, sender, bodyOff)) :
    (utf8 sender).length < 2 ^ 16 := by
  unfold parseHeader at h
  split at h
  · next version authMethod hi lo rest =>
    dsimp only at h
    split_ifs at h
    split at h
    · next s hs =>
      simp only [Except.ok.injEq, Prod.mk.injEq] at h
      obtain ⟨_, rfl, _⟩ := h
      have hhi := hi.toNat_lt
      have hlo := lo.toNat_lt
      rw [utf8_of_fromUtf8 hs, List.length_drop, List.length_take]
      omega
    · cases h
  · cases h

/-- A sealed frame opens under the sender's key exactly when the sender fits the length field of
    the header. -/
theorem seal_open_iff {P : Platform F} {cipher : Cipher} (correct : Correct cipher)
    {nonce : Option Nonce} {env e : Envelope F} {sender : String} {key : PeerKey} {frame : Bytes}
    {directory : PeerDirectory} {peer : Peer}
    (decodes : decodeEnvelope P (encodeEnvelope P env) = .ok e)
    (known : directory.get sender = some peer) (sameKey : peer.key = key)
    (sealed : sealFrame P cipher nonce env sender key = .ok frame) :
    openFrame P cipher.toAead frame directory = .ok (e, sender) ↔
      (utf8 sender).length < 2 ^ 16 := by
  constructor
  · intro h
    obtain ⟨header, bodyOff, _, _, _, _, hp, _⟩ := openFrame_ok h
    exact parseHeader_length hp
  · intro hlen
    obtain ⟨n, ct, _, hct, rfl⟩ := (sealFrame_ok_iff P cipher nonce env sender key frame).mp sealed
    subst sameKey
    exact openFrame_of_decrypt P hlen known n.property (correct _ _ _ _ _ hct) decodes

theorem get_register (peer : Peer) :
    (PeerDirectory.new.register peer).get peer.namespaceName = some peer :=
  Function.update_self _ _ _

theorem seal_dinner :
    sealFrame plain tagged (some hubNonce) dinner "ringhub" ringhub.key = .ok dinnerFrame := rfl

theorem seal_open_dinner :
    openFrame plain tagged.toAead dinnerFrame (PeerDirectory.new.register ringhub) =
        .ok (dinner, "ringhub") ↔ (utf8 "ringhub").length < 2 ^ 16 :=
  seal_open_iff tagged_correct decode_dinner (get_register ringhub) rfl seal_dinner

/-! ## A long name -/

theorem utf8_length (s : String) : (utf8 s).length = s.utf8ByteSize := by
  rw [utf8, Array.length_toList]
  rfl

theorem utf8_replicate (n : ℕ) : (utf8 (String.ofList (List.replicate n 'a'))).length = n := by
  rw [utf8_length, String.utf8ByteSize_ofList]
  induction n with
  | zero => rfl
  | succ n ih =>
    rw [List.replicate_succ, String.utf8Len, ih]
    rfl

/-- The shortest name that does not fit. -/
def longName : String := String.ofList (List.replicate (2 ^ 16) 'a')

theorem longName_length : (utf8 longName).length = 2 ^ 16 := utf8_replicate _

/-- What is sealed for a name that does not fit does not open as that sender's. -/
theorem long_fails {sender : String} (h : ¬ (utf8 sender).length < 2 ^ 16) :
    ∃ directory frame, directory.get sender = some ⟨sender, ringhub.key, .empty⟩ ∧
      sealFrame plain tagged (some hubNonce) dinner sender ringhub.key = .ok frame ∧
      openFrame plain tagged.toAead frame directory ≠ .ok (dinner, sender) := by
  have hget := get_register ⟨sender, ringhub.key, .empty⟩
  have hseal := (sealFrame_ok_iff plain tagged (some hubNonce) dinner sender ringhub.key _).mpr
    ⟨hubNonce, _, rfl, rfl, rfl⟩
  refine ⟨_, _, hget, hseal, fun hopen => h ?_⟩
  exact (seal_open_iff tagged_correct decode_dinner hget rfl hseal).mp hopen

theorem longName_fails :
    ∃ directory frame, directory.get longName = some ⟨longName, ringhub.key, .empty⟩ ∧
      sealFrame plain tagged (some hubNonce) dinner longName ringhub.key = .ok frame ∧
      openFrame plain tagged.toAead frame directory ≠ .ok (dinner, longName) := by
  refine long_fails ?_
  rw [longName_length]
  exact lt_irrefl _

end RustPipeline.SealOpen
