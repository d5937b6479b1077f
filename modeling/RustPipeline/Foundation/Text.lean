import Mathlib

set_option autoImplicit false

/-!
# UTF-8 text as Rust programs see it

A Rust `str` is a sequence of Unicode scalar values addressed by byte offsets, so it is a Lean
`String`; what Lean's library words differently is fixed here: byte offsets that must fall
between two characters, the white space `str::trim` removes, and the numerals of `from_str_radix`.
-/
namespace RustPipeline.Text

abbrev Bytes := List UInt8

/-- `str::as_bytes`. -/
def utf8 (s : String) : Bytes := s.toByteArray.data.toList

/-- `str::from_utf8`. -/
def fromUtf8 (bs : Bytes) : Option String :=
  if h : (ByteArray.mk bs.toArray).IsValidUTF8 then some (String.fromUTF8 _ h) else none

theorem fromUtf8_utf8 (s : String) : fromUtf8 (utf8 s) = some s := by
  have h : ByteArray.mk (utf8 s).toArray = s.toByteArray := by simp [utf8]
  have hv : (ByteArray.mk (utf8 s).toArray).IsValidUTF8 := h ▸ s.isValidUTF8
  rw [fromUtf8, dif_pos hv, Option.some_inj, ← String.toByteArray_inj]
  exact h

theorem utf8_inj {s t : String} : utf8 s = utf8 t ↔ s = t := by
  constructor
  · intro h
    have e : some s = some t := by rw [← fromUtf8_utf8 s, ← fromUtf8_utf8 t, h]
    exact Option.some_inj.mp e
  · rintro rfl
    rfl

/-! ## Byte offsets -/

/-- Cut a text at a byte offset, when the offset falls between two characters. -/
def splitAtByte : ℕ → List Char → Option (List Char × List Char)
  | 0, cs => some ([], cs)
  | _ + 1, [] => none
  | n + 1, c :: cs =>
    if c.utf8Size ≤ n + 1 then
      (splitAtByte (n + 1 - c.utf8Size) cs).map fun p => (c :: p.1, p.2)
    else none

/-- `str::is_char_boundary`. -/
def Boundary (n : ℕ) (s : String) : Prop := (splitAtByte n s.toList).isSome

instance (n : ℕ) (s : String) : Decidable (Boundary n s) :=
  inferInstanceAs (Decidable ((splitAtByte n s.toList).isSome = true))

theorem splitAtByte_append (a b : List Char) :
    splitAtByte (String.utf8Len a) (a ++ b) = some (a, b) := by
  induction a with
  | nil => cases b <;> rfl
  | cons c a ih =>
    have hc := c.utf8Size_pos
    obtain ⟨n, hn⟩ : ∃ n, String.utf8Len (c :: a) = n + 1 :=
      ⟨String.utf8Len (c :: a) - 1, by simp only [String.utf8Len]; omega⟩
    have hr : n + 1 - c.utf8Size = String.utf8Len a := by
      simp only [String.utf8Len] at hn
      omega
    have hle : c.utf8Size ≤ n + 1 := by
      simp only [String.utf8Len] at hn
      omega
    simp [hn, splitAtByte, hle, hr, ih]

theorem splitAtByte_sound {n : ℕ} {cs a b : List Char} (h : splitAtByte n cs = some (a, b)) :
    cs = a ++ b ∧ String.utf8Len a = n := by
  induction cs generalizing n a with
  | nil =>
    cases n with
    | zero =>
      cases h
      exact ⟨rfl, rfl⟩
    | succ n => cases h
  | cons c cs ih =>
    cases n with
    | zero =>
      cases h
      exact ⟨rfl, rfl⟩
    | succ n =>
      rw [splitAtByte] at h
      split_ifs at h with hle
      obtain ⟨⟨x, y⟩, hxy, he⟩ := Option.map_eq_some_iff.mp h
      cases he
      obtain ⟨rfl, hx⟩ := ih hxy
      refine ⟨rfl, ?_⟩
      simp only [String.utf8Len]
      omega

theorem splitAtByte_eq_some {n : ℕ} {cs a b : List Char} :
    splitAtByte n cs = some (a, b) ↔ cs = a ++ b ∧ String.utf8Len a = n := by
  refine ⟨splitAtByte_sound, ?_⟩
  rintro ⟨rfl, rfl⟩
  exact splitAtByte_append a b

theorem boundary_iff {n : ℕ} {s : String} :
    Boundary n s ↔ ∃ a b, s.toList = a ++ b ∧ String.utf8Len a = n := by
  simp only [Boundary, Option.isSome_iff_exists, Prod.exists, splitAtByte_eq_some]

/-- The offsets Rust accepts are the valid raw positions of the string. -/
theorem boundary_iff_isValid {n : ℕ} {s : String} :
    Boundary n s ↔ (⟨n⟩ : String.Pos.Raw).IsValid s := by
  rw [boundary_iff, String.Pos.Raw.isValid_iff_exists_append]
  constructor
  · rintro ⟨a, b, h, rfl⟩
    refine ⟨String.ofList a, String.ofList b, ?_, ?_⟩
    · rw [← String.ofList_append, ← h, String.ofList_toList]
    · simp
  · rintro ⟨a, b, rfl, h⟩
    refine ⟨a.toList, b.toList, String.toList_append, ?_⟩
    have hn : n = a.utf8ByteSize := congrArg String.Pos.Raw.byteIdx h
    rw [hn, ← String.utf8ByteSize_ofList, String.ofList_toList]

theorem boundary_zero (s : String) : Boundary 0 s :=
  boundary_iff.mpr ⟨[], s.toList, rfl, rfl⟩

/-- The slice `&s[lo..hi]`; `none` is the panic on an offset inside a character. -/
def slice (lo hi : ℕ) (s : String) : Option String := do
  let (_, rest) ← splitAtByte lo s.toList
  let (mid, _) ← splitAtByte (hi - lo) rest
  pure (String.ofList mid)

theorem slice_isSome {lo hi : ℕ} {s : String} (h : lo ≤ hi) :
    (slice lo hi s).isSome ↔ Boundary lo s ∧ Boundary hi s := by
  constructor
  · intro hs
    obtain ⟨t, ht⟩ := Option.isSome_iff_exists.mp hs
    simp only [slice, Option.bind_eq_bind, Option.bind_eq_some_iff, Prod.exists] at ht
    obtain ⟨a, rest, ha, mid, post, hm, _⟩ := ht
    rw [splitAtByte_eq_some] at ha hm
    refine ⟨boundary_iff.mpr ⟨a, rest, ha⟩, boundary_iff.mpr ⟨a ++ mid, post, ?_, ?_⟩⟩
    · rw [ha.1, hm.1, List.append_assoc]
    · rw [String.utf8Len_append, ha.2, hm.2]
      omega
  · rintro ⟨hl, hh⟩
    obtain ⟨a, b, hab, ha⟩ := boundary_iff.mp hl
    obtain ⟨c, d, hcd, hc⟩ := boundary_iff.mp hh
    have hsplit : ∃ mid post, b = mid ++ post ∧ String.utf8Len mid = hi - lo := by
      rw [hab, List.append_eq_append_iff] at hcd
      rcases hcd with ⟨m, rfl, rfl⟩ | ⟨m, rfl, rfl⟩
      · refine ⟨m, d, rfl, ?_⟩
        rw [String.utf8Len_append] at hc
        omega
      · refine ⟨[], b, rfl, ?_⟩
        rw [String.utf8Len_append] at ha
        change 0 = _
        omega
    obtain ⟨mid, post, hb, hm⟩ := hsplit
    have h1 : splitAtByte lo s.toList = some (a, b) := splitAtByte_eq_some.mpr ⟨hab, ha⟩
    have h2 : splitAtByte (hi - lo) b = some (mid, post) := splitAtByte_eq_some.mpr ⟨hb, hm⟩
    simp [slice, h1, h2]

theorem slice_append {a m b : List Char} {lo hi : ℕ} (hl : String.utf8Len a = lo)
    (hh : lo + String.utf8Len m = hi) :
    slice lo hi (String.ofList (a ++ (m ++ b))) = some (String.ofList m) := by
  have h : hi - lo = String.utf8Len m := by omega
  rw [slice, String.toList_ofList, ← hl, splitAtByte_append, hl, h]
  simp [splitAtByte_append]

/-! ## White space -/

/-- `char::is_whitespace`: the Unicode property `White_Space`. -/
def isWhitespace (c : Char) : Bool :=
  let n := c.toNat
  (9 ≤ n && n ≤ 13) || n = 32 || n = 0x85 || n = 0xA0 || n = 0x1680 ||
    (0x2000 ≤ n && n ≤ 0x200A) || n = 0x2028 || n = 0x2029 || n = 0x202F || n = 0x205F || n = 0x3000

def trimBy (p : Char → Bool) (cs : List Char) : List Char := (cs.dropWhile p).rdropWhile p

/-- `str::trim`. -/
def trim (s : String) : String := String.ofList (trimBy isWhitespace s.toList)

theorem trimBy_head (p : Char → Bool) (cs : List Char) (c : Char)
    (h : c ∈ (trimBy p cs).head?) : p c = false := by
  obtain ⟨post, hpost⟩ := List.rdropWhile_prefix p (cs.dropWhile p)
  have hd : (cs.dropWhile p).head? = some c := by
    rw [← hpost]
    change (trimBy p cs ++ post).head? = some c
    rw [List.head?_append, Option.mem_def.mp h]
    rfl
  have hne : cs.dropWhile p ≠ [] := by
    intro e
    simp [e] at hd
  have hc : (cs.dropWhile p).head hne = c := by
    rw [List.head?_eq_some_head hne] at hd
    exact Option.some_inj.mp hd
  have := List.head_dropWhile_not p hne
  rwa [hc] at this

theorem trimBy_last (p : Char → Bool) (cs : List Char) (c : Char)
    (h : c ∈ (trimBy p cs).getLast?) : p c = false := by
  have hne : trimBy p cs ≠ [] := by
    intro e
    simp [e] at h
  have hc : (trimBy p cs).getLast hne = c := by
    rw [List.getLast?_eq_some_getLast hne] at h
    exact Option.some_inj.mp h
  have := List.rdropWhile_last_not p (cs.dropWhile p) hne
  simpa [← hc, trimBy] using this

theorem trimBy_eq_self (p : Char → Bool) (cs : List Char)
    (hh : ∀ c ∈ cs.head?, p c = false) (hl : ∀ c ∈ cs.getLast?, p c = false) :
    trimBy p cs = cs := by
  have hd : cs.dropWhile p = cs := by
    cases cs with
    | nil => rfl
    | cons c cs => exact List.dropWhile_cons_of_neg (by simp [hh c (by simp)])
  rw [trimBy, hd, List.rdropWhile_eq_self_iff]
  intro hne
  have := hl (cs.getLast hne) (by simp [List.getLast?_eq_some_getLast hne])
  simp [this]

theorem trimBy_eq_self_iff (p : Char → Bool) (cs : List Char) : trimBy p cs = cs ↔
    (∀ c ∈ cs.head?, p c = false) ∧ ∀ c ∈ cs.getLast?, p c = false := by
  constructor
  · intro h
    refine ⟨fun c hc => trimBy_head p cs c ?_, fun c hc => trimBy_last p cs c ?_⟩
    · rwa [h]
    · rwa [h]
  · rintro ⟨hh, hl⟩
    exact trimBy_eq_self p cs hh hl

theorem trimBy_idem (p : Char → Bool) (cs : List Char) : trimBy p (trimBy p cs) = trimBy p cs :=
  trimBy_eq_self p _ (trimBy_head p cs) (trimBy_last p cs)

theorem trimBy_eq_self_of_imp {p q : Char → Bool} (h : ∀ c, q c = true → p c = true)
    {cs : List Char} (hp : trimBy p cs = cs) : trimBy q cs = cs := by
  have hq : ∀ c, p c = false → q c = false := by
    intro c hc
    cases e : q c with
    | false => rfl
    | true => simp [h c e] at hc
  rw [trimBy_eq_self_iff] at hp ⊢
  exact ⟨fun c hc => hq c (hp.1 c hc), fun c hc => hq c (hp.2 c hc)⟩

theorem trimBy_eq_self_of_forall {p : Char → Bool} {cs : List Char} (h : ∀ c ∈ cs, p c = false) :
    trimBy p cs = cs :=
  trimBy_eq_self p cs (fun c hc => h c (List.mem_of_mem_head? hc))
    (fun c hc => h c (List.mem_of_mem_getLast? hc))

theorem trim_idem (s : String) : trim (trim s) = trim s := by
  simp [trim, trimBy_idem]

theorem trim_eq_self_iff (s : String) : trim s = s ↔ trimBy isWhitespace s.toList = s.toList := by
  rw [← String.toList_inj, trim, String.toList_ofList]

/-! ## Characters replaced by texts -/

theorem length_le_flatMap {f : Char → List Char} (h : ∀ c, f c = [c] ∨ 2 ≤ (f c).length)
    (cs : List Char) : cs.length ≤ (cs.flatMap f).length := by
  induction cs with
  | nil => exact Nat.zero_le _
  | cons c cs ih =>
    simp only [List.flatMap_cons, List.length_append, List.length_cons]
    rcases h c with hc | hc
    · rw [hc, List.length_singleton]
      omega
    · omega

/-- A text stays as it is only when no character of it is replaced. -/
theorem flatMap_eq_self_iff {f : Char → List Char} (h : ∀ c, f c = [c] ∨ 2 ≤ (f c).length)
    (cs : List Char) : cs.flatMap f = cs ↔ ∀ c ∈ cs, f c = [c] := by
  induction cs with
  | nil => simp
  | cons c cs ih =>
    have hl := length_le_flatMap h cs
    rw [List.flatMap_cons]
    rcases h c with hc | hc
    · simp [hc, ih]
    · have hne : f c ≠ [c] := by
        intro he
        simp [he] at hc
      refine iff_of_false (fun he => ?_) (fun ha => hne (ha c List.mem_cons_self))
      have := congrArg List.length he
      simp only [List.length_append, List.length_cons] at this
      omega

/-! ## Results -/

theorem map_eq_ok {ε α β : Type} {x : Except ε α} {f : α → β} {b : β} (h : x.map f = .ok b) :
    ∃ a, x = .ok a ∧ f a = b := by
  cases x with
  | error e => cases h
  | ok a => exact ⟨a, rfl, Except.ok.inj h⟩

end RustPipeline.Text
