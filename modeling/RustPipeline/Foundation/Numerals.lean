import RustPipeline.Foundation.Text

set_option autoImplicit false

/-!
# Numerals

`from_str_radix` and `FromStr` of Rust's machine integers, and the numerals `Display` and the
zero-padded hexadecimal format write, with the proofs that reading undoes writing.
-/
namespace RustPipeline.Numerals

/-- `char::to_digit`. -/
def digitValue (radix : ℕ) (c : Char) : Option ℕ :=
  let n := c.toNat
  let v := if 48 ≤ n ∧ n ≤ 57 then n - 48
    else if 97 ≤ n ∧ n ≤ 122 then n - 87
    else if 65 ≤ n ∧ n ≤ 90 then n - 55
    else radix
  if v < radix then some v else none

def digitsFrom (radix : ℕ) : ℕ → List Char → Option ℕ
  | acc, [] => some acc
  | acc, c :: cs => (digitValue radix c).bind fun d => digitsFrom radix (radix * acc + d) cs

/-- A non-empty run of digits whose value stays below `bound`. -/
def digitRun (radix bound : ℕ) : List Char → Option ℕ
  | [] => none
  | c :: cs => (digitsFrom radix 0 (c :: cs)).bind fun n => if n < bound then some n else none

/-- `from_str_radix` of an unsigned type of `bits` bits: one leading `+` is accepted. -/
def fromStrRadix (radix bits : ℕ) (s : String) : Option ℕ :=
  match s.toList with
  | '+' :: cs => digitRun radix (2 ^ bits) cs
  | cs => digitRun radix (2 ^ bits) cs

/-- `FromStr` of a signed type of `bits + 1` bits. -/
def parseSigned (bits : ℕ) (s : String) : Option ℤ :=
  match s.toList with
  | '+' :: cs => (digitRun 10 (2 ^ bits) cs).map fun n => (n : ℤ)
  | '-' :: cs => (digitRun 10 (2 ^ bits + 1) cs).map fun n => -(n : ℤ)
  | cs => (digitRun 10 (2 ^ bits) cs).map fun n => (n : ℤ)

/-- The last `w` hexadecimal digits of a number, zero-padded: the format `{:0wx}`. -/
def hexFixed : ℕ → ℕ → List Char
  | 0, _ => []
  | w + 1, n => hexFixed w (n / 16) ++ [Nat.digitChar (n % 16)]

theorem digitsFrom_append (radix acc : ℕ) (xs ys : List Char) :
    digitsFrom radix acc (xs ++ ys) =
      (digitsFrom radix acc xs).bind fun n => digitsFrom radix n ys := by
  induction xs generalizing acc with
  | nil => rfl
  | cons c xs ih =>
    simp only [List.cons_append, digitsFrom]
    cases digitValue radix c with
    | none => rfl
    | some d => exact ih _

theorem digitRun_of_digits {radix bound n : ℕ} {cs : List Char} (hne : cs ≠ [])
    (h : digitsFrom radix 0 cs = some n) (hn : n < bound) : digitRun radix bound cs = some n := by
  cases cs with
  | nil => exact absurd rfl hne
  | cons c cs => simp [digitRun, h, hn]

/-- A text that begins with a digit is read without a sign. -/
theorem fromStrRadix_of_digits {radix bits n : ℕ} {cs : List Char} (hne : cs ≠ [])
    (hs : '+' ∉ cs) (h : digitsFrom radix 0 cs = some n) (hn : n < 2 ^ bits) :
    fromStrRadix radix bits (String.ofList cs) = some n := by
  have hr := digitRun_of_digits hne h hn
  rw [fromStrRadix, String.toList_ofList]
  split
  · simp at hs
  · exact hr

/-! ## Hexadecimal -/

theorem hexDigit_value : ∀ d < 16, digitValue 16 (Nat.digitChar d) = some d := by decide

theorem hexDigit_plain : ∀ d < 16, Nat.digitChar d ≠ '+' ∧
    Text.isWhitespace (Nat.digitChar d) = false ∧ (Nat.digitChar d).utf8Size = 1 := by decide

theorem hexFixed_length (w n : ℕ) : (hexFixed w n).length = w := by
  induction w generalizing n with
  | zero => rfl
  | succ w ih => simp [hexFixed, ih]

theorem hexFixed_mem {w n : ℕ} {c : Char} (h : c ∈ hexFixed w n) :
    ∃ d < 16, c = Nat.digitChar d := by
  induction w generalizing n with
  | zero => simp [hexFixed] at h
  | succ w ih =>
    simp only [hexFixed, List.mem_append, List.mem_singleton] at h
    rcases h with h | h
    · exact ih h
    · exact ⟨n % 16, Nat.mod_lt _ (by decide), h⟩

theorem digitsFrom_hexFixed (w n : ℕ) : digitsFrom 16 0 (hexFixed w n) = some (n % 16 ^ w) := by
  induction w generalizing n with
  | zero => simp [hexFixed, digitsFrom, Nat.mod_one]
  | succ w ih =>
    have hd := hexDigit_value (n % 16) (Nat.mod_lt _ (by decide))
    have hm : n % 16 ^ (w + 1) = n % 16 + 16 * (n / 16 % 16 ^ w) := by
      rw [pow_succ', Nat.mod_mul]
    rw [hexFixed, digitsFrom_append, ih]
    simp only [Option.bind_some, digitsFrom, hd, hm]
    rw [Nat.add_comm]

theorem hexFixed_noSign (w n : ℕ) : '+' ∉ hexFixed w n := by
  intro h
  obtain ⟨d, hd, he⟩ := hexFixed_mem h
  exact (hexDigit_plain d hd).1 he.symm

theorem hexFixed_utf8Len (w n : ℕ) : String.utf8Len (hexFixed w n) = w := by
  induction w generalizing n with
  | zero => rfl
  | succ w ih =>
    have h1 := (hexDigit_plain (n % 16) (Nat.mod_lt _ (by decide))).2.2
    rw [hexFixed, String.utf8Len_append, ih]
    simp only [String.utf8Len, h1]

theorem fromStrRadix_hexFixed {w bits n : ℕ} (hw : 0 < w) (hn : n < 16 ^ w) (hb : n < 2 ^ bits) :
    fromStrRadix 16 bits (String.ofList (hexFixed w n)) = some n := by
  have hne : hexFixed w n ≠ [] := by
    intro h
    have hl := hexFixed_length w n
    rw [h, List.length_nil] at hl
    exact absurd hl hw.ne
  have hd := digitsFrom_hexFixed w n
  rw [Nat.mod_eq_of_lt hn] at hd
  exact fromStrRadix_of_digits hne (hexFixed_noSign w n) hd hb

/-! ## Decimal -/

theorem digitValue_of_isDigit {c : Char} (h : c.isDigit = true) :
    digitValue 10 c = some (c.toNat - '0'.toNat) := by
  have hr : 48 ≤ c.toNat ∧ c.toNat ≤ 57 := by
    simp only [Char.isDigit, Bool.and_eq_true, decide_eq_true_eq] at h
    exact ⟨UInt32.le_iff_toNat_le.mp h.1, UInt32.le_iff_toNat_le.mp h.2⟩
  have hz : '0'.toNat = 48 := rfl
  simp only [digitValue, hr, and_self, ↓reduceIte, hz]
  rw [if_pos (by omega)]

theorem digitsFrom_decimal {cs : List Char} (h : ∀ c ∈ cs, c.isDigit = true) (acc : ℕ) :
    digitsFrom 10 acc cs = some (Nat.ofDigitChars 10 cs acc) := by
  induction cs generalizing acc with
  | nil => rfl
  | cons c cs ih =>
    rw [digitsFrom, digitValue_of_isDigit (h c (by simp))]
    exact ih (fun d hd => h d (by simp [hd])) _

theorem decimal_isDigit {n : ℕ} {c : Char} (h : c ∈ (toString n).toList) : c.isDigit = true := by
  rw [Nat.toString_eq_ofList_toDigits, String.toList_ofList] at h
  exact Nat.isDigit_of_mem_toDigits (by decide) (by decide) h

theorem decimal_ne_nil (n : ℕ) : (toString n).toList ≠ [] := by
  rw [Nat.toString_eq_ofList_toDigits, String.toList_ofList]
  exact Nat.toDigits_ne_nil

theorem digitsFrom_toString (n : ℕ) : digitsFrom 10 0 (toString n).toList = some n := by
  rw [digitsFrom_decimal (fun c hc => decimal_isDigit hc), Nat.toString_eq_ofList_toDigits,
    String.toList_ofList, Nat.ofDigitChars_ten_toDigits]

theorem fromStrRadix_toString {bits n : ℕ} (hn : n < 2 ^ bits) :
    fromStrRadix 10 bits (toString n) = some n := by
  have hs : '+' ∉ (toString n).toList := by
    intro h
    have := decimal_isDigit h
    simp [Char.isDigit] at this
  have := fromStrRadix_of_digits (decimal_ne_nil n) hs (digitsFrom_toString n) hn
  rwa [String.ofList_toList] at this

theorem negSucc_text (n : ℕ) :
    (toString (Int.negSucc n)).toList = '-' :: (toString (n + 1)).toList := by
  change ("-" ++ toString (n + 1)).toList = _
  rw [String.toList_append]
  rfl

theorem parseSigned_toString {bits : ℕ} (z : ℤ) (hl : -(2 ^ bits : ℤ) ≤ z) (hu : z < 2 ^ bits) :
    parseSigned bits (toString z) = some z := by
  cases z with
  | ofNat n =>
    have hn : n < 2 ^ bits := by
      have : (n : ℤ) < ((2 ^ bits : ℕ) : ℤ) := by simpa using hu
      exact_mod_cast this
    have hr := digitRun_of_digits (decimal_ne_nil n) (digitsFrom_toString n) hn
    change parseSigned bits (toString n) = _
    rw [parseSigned]
    split
    · next cs h => exact absurd (decimal_isDigit (h ▸ List.mem_cons_self)) (by decide)
    · next cs h => exact absurd (decimal_isDigit (h ▸ List.mem_cons_self)) (by decide)
    · rw [hr]
      rfl
  | negSucc n =>
    have hn : n + 1 < 2 ^ bits + 1 := by
      have : ((n + 1 : ℕ) : ℤ) ≤ ((2 ^ bits : ℕ) : ℤ) := by
        rw [Int.negSucc_eq] at hl
        push_cast
        omega
      have := Int.ofNat_le.mp this
      omega
    have hr := digitRun_of_digits (decimal_ne_nil (n + 1)) (digitsFrom_toString (n + 1)) hn
    rw [parseSigned, negSucc_text]
    simp only [hr, Int.negSucc_eq]
    rfl

end RustPipeline.Numerals
