import RustPipeline.Foundation.Numerals

set_option autoImplicit false

/-!
# What a numeral consists of

A numeral without a sign is made of digits, each of them one byte, so that byte offsets count them.
-/
namespace RustPipeline.HexDigits
open Text Numerals

def IsDigit (radix : ℕ) (c : Char) : Prop := (digitValue radix c).isSome = true

instance (radix : ℕ) (c : Char) : Decidable (IsDigit radix c) :=
  inferInstanceAs (Decidable ((digitValue radix c).isSome = true))

theorem isDigit_ascii {radix : ℕ} {c : Char} (h : IsDigit radix c) : c.toNat ≤ 122 := by
  unfold IsDigit digitValue at h
  dsimp only at h
  by_contra hc
  have h1 : ¬ (48 ≤ c.toNat ∧ c.toNat ≤ 57) := by omega
  have h2 : ¬ (97 ≤ c.toNat ∧ c.toNat ≤ 122) := by omega
  have h3 : ¬ (65 ≤ c.toNat ∧ c.toNat ≤ 90) := by omega
  rw [if_neg h1, if_neg h2, if_neg h3, if_neg (lt_irrefl radix)] at h
  cases h

theorem utf8Size_of_isDigit {radix : ℕ} {c : Char} (h : IsDigit radix c) : c.utf8Size = 1 := by
  have hc := isDigit_ascii h
  apply Char.utf8Size_eq_one_iff.mpr
  apply UInt32.le_iff_toNat_le.mpr
  change c.toNat ≤ 127
  omega

theorem utf8Len_of_digits {radix : ℕ} {cs : List Char} (h : ∀ c ∈ cs, IsDigit radix c) :
    String.utf8Len cs = cs.length := by
  induction cs with
  | nil => rfl
  | cons c cs ih =>
    rw [List.forall_mem_cons] at h
    have hc := utf8Size_of_isDigit h.1
    rw [String.utf8Len, ih h.2, hc, List.length_cons]

theorem not_isDigit_plus : ¬ IsDigit 16 '+' := by decide

theorem digits_of_digitsFrom {radix acc n : ℕ} {cs : List Char}
    (h : digitsFrom radix acc cs = some n) : ∀ c ∈ cs, IsDigit radix c := by
  induction cs generalizing acc with
  | nil => exact fun c hc => by cases hc
  | cons d cs ih =>
    rw [digitsFrom] at h
    obtain ⟨v, hv, hn⟩ := Option.bind_eq_some_iff.mp h
    rw [List.forall_mem_cons]
    exact ⟨by rw [IsDigit, hv]; rfl, ih hn⟩

theorem digits_of_digitRun {radix bound n : ℕ} {cs : List Char}
    (h : digitRun radix bound cs = some n) : ∀ c ∈ cs, IsDigit radix c := by
  cases cs with
  | nil => cases h
  | cons d cs =>
    rw [digitRun] at h
    obtain ⟨m, hm, _⟩ := Option.bind_eq_some_iff.mp h
    exact digits_of_digitsFrom hm

theorem digits_of_fromStrRadix {radix bits n : ℕ} {s : String}
    (h : fromStrRadix radix bits s = some n) (hs : '+' ∉ s.toList) :
    ∀ c ∈ s.toList, IsDigit radix c := by
  unfold fromStrRadix at h
  split at h
  · next cs hcs => exact absurd (by rw [hcs]; exact List.mem_cons_self) hs
  · exact digits_of_digitRun h

theorem slice_eq_some {lo hi : ℕ} {s t : String} (h : slice lo hi s = some t) :
    ∃ a b, s.toList = a ++ (t.toList ++ b) ∧ String.utf8Len a = lo ∧
      String.utf8Len t.toList = hi - lo := by
  simp only [slice, Option.bind_eq_bind, Option.bind_eq_some_iff, Prod.exists] at h
  obtain ⟨a, rest, ha, mid, post, hm, ht⟩ := h
  rw [splitAtByte_eq_some] at ha hm
  obtain rfl := Option.some.inj ht
  rw [String.toList_ofList]
  exact ⟨a, post, by rw [ha.1, hm.1], ha.2, hm.2⟩

end RustPipeline.HexDigits
