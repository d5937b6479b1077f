import RustPipeline.CodecImage
import RustPipeline.PythonCodec

set_option autoImplicit false

/-!
# Numerals in Python

`int` and `bytes.fromhex` read the numerals that Rust writes, and the other way round the two
halves of a provenance set are written alike.
-/
namespace RustPipeline.PythonNumerals
open Text Wire Numerals PythonAddress PythonCodec

variable {F : Type} {py : Python F}

structure Lawful (py : Python F) : Prop where
  ascii (c : Char) (h : c.toNat < 128) : py.decimal c = digitValue 10 c

/-! ## Numerals -/

/-- A character of a numeral, as both sides write them. -/
structure Solid (c : Char) : Prop where
  visible : 32 < c.toNat
  ascii : c.toNat < 128
  plain : c ∉ ['_', '+', '-', 'x', 'X', '&', '<', '>', '"', '\'']

theorem Solid.isWhitespace {c : Char} (h : Solid c) : isWhitespace c = false := by
  obtain ⟨h1, h2, _⟩ := h
  simp only [Text.isWhitespace, Bool.or_eq_false_iff, Bool.and_eq_false_iff,
    decide_eq_false_iff_not]
  omega

theorem Solid.isSpaceChar {c : Char} (h : Solid c) : isSpaceChar c = false := by
  have h1 := h.visible
  simp only [PythonAddress.isSpaceChar, h.isWhitespace, Bool.false_or, Bool.and_eq_false_iff,
    decide_eq_false_iff_not]
  omega

theorem solid_hexFixed {w n : ℕ} {c : Char} (h : c ∈ hexFixed w n) : Solid c := by
  have hall : ∀ d < 16, 32 < (Nat.digitChar d).toNat ∧ (Nat.digitChar d).toNat < 128 ∧
      Nat.digitChar d ∉ ['_', '+', '-', 'x', 'X', '&', '<', '>', '"', '\''] := by decide
  obtain ⟨d, hd, rfl⟩ := hexFixed_mem h
  exact ⟨(hall d hd).1, (hall d hd).2.1, (hall d hd).2.2⟩

theorem solid_decimal {n : ℕ} {c : Char} (h : c ∈ (toString n).toList) : Solid c := by
  have hd := decimal_isDigit h
  simp only [Char.isDigit, Bool.and_eq_true, decide_eq_true_eq] at hd
  have h1 : 48 ≤ c.toNat := UInt32.le_iff_toNat_le.mp hd.1
  have h2 : c.toNat ≤ 57 := UInt32.le_iff_toNat_le.mp hd.2
  refine ⟨by omega, by omega, ?_⟩
  simp only [List.mem_cons, List.not_mem_nil, or_false, not_or]
  refine ⟨?_, ?_, ?_, ?_, ?_, ?_, ?_, ?_, ?_, ?_⟩ <;> rintro rfl <;> simp at h1 h2

theorem digit_ascii (lawful : Lawful py) {base : ℕ} (hb : 10 ≤ base) {c : Char}
    (h : c.toNat < 128) : digit py base c = digitValue base c := by
  rw [digit, lawful.ascii c h, digitValue, digitValue, letterValue]
  by_cases h1 : 48 ≤ c.toNat ∧ c.toNat ≤ 57
  · simp only [h1, and_self, ↓reduceIte]
    have h10 : c.toNat - 48 < 10 := by omega
    have hlt : c.toNat - 48 < base := by omega
    simp [h10, hlt, Option.filter]
  · rw [if_neg h1, if_neg h1]
    by_cases h2 : 97 ≤ c.toNat ∧ c.toNat ≤ 122
    · simp only [h2, and_self, ↓reduceIte]
      rw [if_neg (by omega)]
      simp [Option.filter]
    · rw [if_neg h2, if_neg h2, if_neg h2]
      by_cases h3 : 65 ≤ c.toNat ∧ c.toNat ≤ 90
      · simp only [h3, and_self, ↓reduceIte]
        rw [if_neg (by omega)]
        simp [Option.filter]
      · simp [h3]

theorem digits_of_solid (lawful : Lawful py) {base : ℕ} (hb : 10 ≤ base) {cs : List Char}
    (hs : ∀ c ∈ cs, Solid c) (acc : ℕ) (after : Bool) (hne : cs = [] → after = true) :
    digits py base acc after cs = digitsFrom base acc cs := by
  induction cs generalizing acc after with
  | nil => simp [digits, digitsFrom, hne rfl]
  | cons c cs ih =>
    have hc := hs c List.mem_cons_self
    have hu : c ≠ '_' := by
      rintro rfl
      exact hc.plain (by decide)
    rw [digits, if_neg hu, digit_ascii lawful hb hc.ascii, digitsFrom]
    refine congrArg _ (funext fun d => ?_)
    exact ih (fun d hd => hs d (List.mem_cons_of_mem c hd)) _ true fun _ => rfl

theorem dropPrefix_of_solid (base : ℕ) {cs : List Char} (hs : ∀ c ∈ cs, Solid c) :
    dropPrefix base cs = cs := by
  unfold dropPrefix
  split
  · next x cs =>
    have hx := (hs x (by simp)).plain
    rw [if_neg]
    rintro ⟨_, rfl | rfl⟩
    · exact hx (by decide)
    · exact hx (by decide)
  · rfl

theorem int_of_digits (lawful : Lawful py) {base n : ℕ} (hb : 10 ≤ base) {cs : List Char}
    (hs : ∀ c ∈ cs, Solid c) (hne : cs ≠ []) (hd : digitsFrom base 0 cs = some n) :
    int py base (String.ofList cs) = some (n : ℤ) := by
  have hdig := digits_of_solid lawful hb hs 0 false fun h => absurd h hne
  rw [hd] at hdig
  rw [int, String.toList_ofList, trimBy_eq_self_of_forall fun c hc => (hs c hc).isWhitespace]
  split
  · exact absurd (hs '-' (by simp)).plain (by decide)
  · exact absurd (hs '+' (by simp)).plain (by decide)
  · rw [dropPrefix_of_solid base hs, hdig]
    rfl

theorem int_of_minus (lawful : Lawful py) {base n : ℕ} (hb : 10 ≤ base) {cs : List Char}
    (hs : ∀ c ∈ cs, Solid c) (hne : cs ≠ []) (hd : digitsFrom base 0 cs = some n) :
    int py base (String.ofList ('-' :: cs)) = some (-(n : ℤ)) := by
  have hdig := digits_of_solid lawful hb hs 0 false fun h => absurd h hne
  rw [hd] at hdig
  have hsolid : ∀ c ∈ '-' :: cs, isWhitespace c = false := by
    intro c hc
    rcases List.mem_cons.mp hc with rfl | hc
    · decide
    · exact (hs c hc).isWhitespace
  rw [int, String.toList_ofList, trimBy_eq_self_of_forall hsolid]
  change (digits py base 0 false (dropPrefix base cs)).map _ = _
  rw [dropPrefix_of_solid base hs, hdig]
  rfl

theorem int_natText (lawful : Lawful py) (n : ℕ) : int py 10 (toString n) = some (n : ℤ) := by
  have h := int_of_digits lawful (Nat.le_refl 10) (fun c hc => solid_decimal hc) (decimal_ne_nil n)
    (digitsFrom_toString n)
  rwa [String.ofList_toList] at h

theorem int_intText (lawful : Lawful py) (z : ℤ) : int py 10 (toString z) = some z := by
  cases z with
  | ofNat n => exact int_natText lawful n
  | negSucc n =>
    have h := int_of_minus lawful (Nat.le_refl 10) (fun c hc => solid_decimal hc)
      (decimal_ne_nil (n + 1)) (digitsFrom_toString (n + 1))
    rw [← String.ofList_toList (s := toString (Int.negSucc n)), negSucc_text, h, Int.negSucc_eq]
    rfl

theorem int_hexFixed (lawful : Lawful py) {w n : ℕ} (hw : 0 < w) (hn : n < 16 ^ w) :
    int py 16 (String.ofList (hexFixed w n)) = some (n : ℤ) := by
  have hd := digitsFrom_hexFixed w n
  rw [Nat.mod_eq_of_lt hn] at hd
  refine int_of_digits lawful (by decide) (fun c hc => solid_hexFixed hc) ?_ hd
  intro h
  have hl := hexFixed_length w n
  rw [h, List.length_nil] at hl
  omega

/-! ## Hexadecimal -/

theorem digitChar_notBlank : ∀ d < 16, isBlank (Nat.digitChar d) = false := by decide

theorem fromhex_toHex (bytes : Bytes) : fromhex (Codec.toHex bytes).toList = some bytes := by
  rw [Codec.toHex, String.toList_ofList]
  induction bytes with
  | nil => rfl
  | cons b bytes ih =>
    have hb := b.toNat_lt
    have hhi : b.toNat / 16 % 16 < 16 := Nat.mod_lt _ (by decide)
    have hlo : b.toNat % 16 < 16 := Nat.mod_lt _ (by decide)
    have hsum : 16 * (b.toNat / 16 % 16) + b.toNat % 16 = b.toNat := by omega
    have htwo : hexFixed 2 b.toNat =
        [Nat.digitChar (b.toNat / 16 % 16), Nat.digitChar (b.toNat % 16)] := rfl
    rw [List.flatMap_cons, htwo, List.cons_append, List.cons_append, List.nil_append, fromhex,
      digitChar_notBlank _ hhi]
    simp only [Bool.false_eq_true, ↓reduceIte, hexDigit_value _ hhi, hexDigit_value _ hlo, ih,
      hsum, bind, Option.bind, pure, UInt8.ofNat_toNat]

theorem strip_of_solid {s : String} (hs : ∀ c ∈ s.toList, Solid c) : strip s = s := by
  rw [strip, trimBy_eq_self_of_forall fun c hc => (hs c hc).isSpaceChar, String.ofList_toList]

theorem solid_toHex {bytes : Bytes} {c : Char} (h : c ∈ (Codec.toHex bytes).toList) : Solid c := by
  rw [Codec.toHex, String.toList_ofList] at h
  obtain ⟨b, _, hb⟩ := List.mem_flatMap.mp h
  exact solid_hexFixed hb

theorem solid_provToHex {p : Provenance} {c : Char} (h : c ∈ (Codec.provToHex p).toList) :
    Solid c := by
  rw [Codec.provToHex, String.toList_ofList] at h
  rcases List.mem_append.mp h with h | h
  · exact solid_hexFixed h
  · exact solid_hexFixed h

theorem solid_intText {z : ℤ} {c : Char} (h : c ∈ (toString z).toList) : Solid c ∨ c = '-' := by
  cases z with
  | ofNat n => exact Or.inl (solid_decimal h)
  | negSucc n =>
    rw [negSucc_text, List.mem_cons] at h
    rcases h with h | h
    · exact Or.inr h
    · exact Or.inl (solid_decimal h)

/-- The set as one number, as the mirror holds it. -/
def number (p : Provenance) : ℤ := ((p.bitsHi.toNat * 2 ^ 64 + p.bitsLo.toNat : ℕ) : ℤ)

theorem number_eq_zero_iff (p : Provenance) : number p = 0 ↔ p.isEmpty = true := by
  have h : number p = 0 ↔ p.bitsHi.toNat = 0 ∧ p.bitsLo.toNat = 0 := by
    unfold number
    omega
  rw [h, Provenance.isEmpty, Bool.and_eq_true, decide_eq_true_eq, decide_eq_true_eq,
    ← UInt64.toNat_inj, ← UInt64.toNat_inj]
  exact and_comm

theorem provenanceHex_number (p : Provenance) :
    provenanceHex (number p) = Codec.provToHex p := by
  have hhi : p.bitsHi.toNat < 2 ^ 64 := p.bitsHi.toNat_lt
  have hlo : p.bitsLo.toNat < 2 ^ 64 := p.bitsLo.toNat_lt
  have h1 : (number p / 2 ^ 64 % 2 ^ 64).toNat = p.bitsHi.toNat := by
    unfold number
    omega
  have h2 : (number p % 2 ^ 64).toNat = p.bitsLo.toNat := by
    unfold number
    omega
  rw [provenanceHex, h1, h2]
  rfl

theorem readProvenance_provToHex (lawful : Lawful py) (p : Provenance) :
    readProvenance py (some (Codec.provToHex p)) = .ok (number p) := by
  have hhi : p.bitsHi.toNat < 2 ^ 64 := p.bitsHi.toNat_lt
  have hlo : p.bitsLo.toNat < 2 ^ 64 := p.bitsLo.toNat_lt
  have hl := hexFixed_length 16 p.bitsHi.toNat
  have htext : textOr (some (Codec.provToHex p)) "" = Codec.provToHex p := by
    by_cases he : Codec.provToHex p = ""
    · simp [textOr, he]
    · simp [textOr, he]
  have hor : ((p.bitsHi.toNat : ℤ) * 2 ^ 64).lor (p.bitsLo.toNat : ℤ) = number p := by
    have h := Nat.shiftLeft_add_eq_or_of_lt hlo p.bitsHi.toNat
    rw [Nat.shiftLeft_eq] at h
    have hcast : (p.bitsHi.toNat : ℤ) * 2 ^ 64 = ((p.bitsHi.toNat * 2 ^ 64 : ℕ) : ℤ) := by
      push_cast
      rfl
    rw [hcast, number, h]
    rfl
  rw [readProvenance, htext, strip_of_solid fun c hc => solid_provToHex hc, Codec.provToHex,
    String.toList_ofList, List.take_left' hl, List.drop_left' hl, int_hexFixed lawful (by decide) hhi,
    int_hexFixed lawful (by decide) hlo]
  exact congrArg Except.ok hor

end RustPipeline.PythonNumerals
