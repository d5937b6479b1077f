import RustPipeline.Wire

set_option autoImplicit false

/-!
# Addresses and their text

What `parse` accepts is what `Display` writes, and a plain name is read back as a flat address.
-/
namespace RustPipeline.AddressText
open Text Wire Address

theorem parseSegment_display {raw : List Char} {whole : String} {s : Segment}
    (h : parseSegment raw whole = .ok s) : s.display = raw := by
  have hsplit := List.takeWhile_append_dropWhile (p := (· != '[')) (l := raw)
  by_cases hne : raw = []
  · simp [parseSegment, hne] at h
  cases hdrop : raw.dropWhile (· != '[') with
  | nil =>
    simp only [parseSegment, hne, hdrop, ↓reduceIte, Except.ok.injEq] at h
    subst h
    simp [Segment.display]
  | cons c rest =>
    have hc : c = '[' := by
      have hd := List.head_dropWhile_not (p := (· != '[')) (l := raw) (by simp [hdrop])
      simpa [hdrop] using hd
    subst hc
    rw [hdrop] at hsplit
    simp only [parseSegment, hne, hdrop, ↓reduceIte] at h
    split_ifs at h with hname hlast
    simp only [Except.ok.injEq] at h
    subst h
    have hrest : rest.dropLast ++ [']'] = rest := by
      rw [← hsplit, List.getLast?_append] at hlast
      cases rest with
      | nil => simp at hlast
      | cons d ds =>
        have hl : (d :: ds).getLast? = some ']' := by simpa using hlast
        exact List.dropLast_append_getLast? _ hl
    simp only [Segment.display, String.toList_ofList, List.cons_append, hrest]
    exact hsplit

theorem intercalate_concat (sep : List Char) (parts : List (List Char)) (x : List Char) :
    sep.intercalate (parts ++ [x]) = (parts.flatMap fun p => p ++ sep) ++ x := by
  induction parts with
  | nil => simp [List.intercalate]
  | cons p parts ih =>
    cases parts with
    | nil => simp [List.intercalate]
    | cons q parts =>
      simp only [List.cons_append, List.intercalate, List.intersperse_cons_cons, List.flatten_cons,
        List.flatMap_cons, List.append_assoc] at ih ⊢
      rw [ih]

theorem scan_display {whole : String} {cs : List Char} {depth : ℕ} {current : List Char}
    {segments out : List Segment} (h : scan whole cs depth current segments = .ok out) :
    ['.'].intercalate (out.map Segment.display) =
      (segments.flatMap fun s => s.display ++ ['.']) ++ current ++ cs := by
  induction cs generalizing depth current segments with
  | nil =>
    rw [scan] at h
    split_ifs at h
    cases hs : parseSegment current whole with
    | error e => simp [hs, Except.map] at h
    | ok s =>
      simp only [hs, Except.map] at h
      injection h with h
      rw [← h, List.map_append, List.map_singleton, intercalate_concat, List.flatMap_map,
        parseSegment_display hs, List.append_nil]
  | cons c cs ih =>
    rw [scan] at h
    split_ifs at h with h1 h2 h3 h4
    · rw [ih h]
      simp
    · rw [ih h]
      simp
    · cases hs : parseSegment current whole with
      | error e => simp [hs] at h
      | ok s =>
        simp only [hs] at h
        rw [ih h, List.flatMap_append, List.flatMap_singleton, parseSegment_display hs, h4.1]
        simp
    · rw [ih h]
      simp

/-- `Display` writes what `parse` read. -/
theorem display_of_parse {s : String} {a : Address} (h : parse s = .ok a) : a.display = s := by
  unfold parse at h
  split_ifs at h with hs
  cases hc : scan s s.toList 0 [] [] with
  | error e => simp [hc, Except.map] at h
  | ok out =>
    simp only [hc, Except.map] at h
    injection h with h
    subst h
    rw [display, scan_display hc, List.flatMap_nil, List.nil_append, List.nil_append,
      String.ofList_toList]

theorem parse_display {s : String} {a : Address} (h : parse s = .ok a) :
    parse a.display = .ok a := by
  rw [display_of_parse h, h]

/-! ## Addresses segment by segment -/

theorem parseSegment_whole {raw : List Char} {whole : String} {s : Segment} (whole' : String)
    (h : parseSegment raw whole = .ok s) : parseSegment raw whole' = .ok s := by
  unfold parseSegment at h ⊢
  by_cases hne : raw = []
  · simp [hne] at h
  rw [if_neg hne] at h ⊢
  cases hd : raw.dropWhile (· != '[') with
  | nil =>
    rw [hd] at h
    exact h
  | cons c rest =>
    simp only [hd] at h ⊢
    split_ifs at h ⊢
    exact h

/-- Only the errors quote the whole text. -/
theorem scan_whole {whole : String} (whole' : String) {cs : List Char} {depth : ℕ}
    {current : List Char} {pre out : List Segment}
    (h : scan whole cs depth current pre = .ok out) :
    scan whole' cs depth current pre = .ok out := by
  induction cs generalizing depth current pre with
  | nil =>
    rw [scan] at h ⊢
    split_ifs at h ⊢
    cases hs : parseSegment current whole with
    | error e => simp [hs, Except.map] at h
    | ok s =>
      rw [hs] at h
      rw [parseSegment_whole whole' hs]
      exact h
  | cons c cs ih =>
    rw [scan] at h ⊢
    split_ifs at h ⊢
    · exact ih h
    · exact ih h
    · cases hs : parseSegment current whole with
      | error e => simp [hs] at h
      | ok s =>
        simp only [hs] at h
        simp only [parseSegment_whole whole' hs]
        exact ih h
    · exact ih h

/-- The segments read so far are passed through. -/
theorem scan_pre (whole : String) (cs : List Char) (depth : ℕ) (current : List Char)
    (pre : List Segment) : scan whole cs depth current pre =
      (scan whole cs depth current []).map fun tail => pre ++ tail := by
  induction cs generalizing depth current pre with
  | nil =>
    rw [scan, scan]
    split_ifs
    · rfl
    · cases parseSegment current whole <;> rfl
  | cons c cs ih =>
    rw [scan, scan]
    split_ifs
    · exact ih _ _ _
    · rfl
    · exact ih _ _ _
    · cases parseSegment current whole with
      | error e => rfl
      | ok s =>
        dsimp only
        rw [ih depth [] (pre ++ [s]), ih depth [] ([] ++ [s])]
        cases scan whole cs depth [] [] with
        | error e => rfl
        | ok tail => simp [Except.map]
    · exact ih _ _ _

/-- What stands behind the first segment is read on its own. -/
theorem scan_tail {whole : String} {cs : List Char} {depth : ℕ} {current : List Char} {s : Segment}
    {tail : List Segment} (h : scan whole cs depth current [] = .ok (s :: tail)) (ht : tail ≠ []) :
    ∃ rest, rest <:+ cs ∧ scan whole rest 0 [] [] = .ok tail := by
  induction cs generalizing depth current with
  | nil =>
    rw [scan] at h
    split_ifs at h
    cases hs : parseSegment current whole with
    | error e => simp [hs, Except.map] at h
    | ok r =>
      simp only [hs, Except.map, List.nil_append, Except.ok.injEq, List.cons.injEq] at h
      exact absurd h.2.symm ht
  | cons c cs ih =>
    rw [scan] at h
    split_ifs at h with h1 h2 h3 h4
    · obtain ⟨rest, hr, hscan⟩ := ih h
      exact ⟨rest, hr.trans (List.suffix_cons c cs), hscan⟩
    · obtain ⟨rest, hr, hscan⟩ := ih h
      exact ⟨rest, hr.trans (List.suffix_cons c cs), hscan⟩
    · cases hs : parseSegment current whole with
      | error e => simp [hs] at h
      | ok r =>
        simp only [hs] at h
        rw [scan_pre] at h
        obtain ⟨t, hscan, he⟩ := map_eq_ok h
        simp only [List.nil_append, List.singleton_append, List.cons.injEq] at he
        rw [h4.2] at hscan
        exact ⟨cs, List.suffix_cons c cs, by rw [hscan, he.2]⟩
    · obtain ⟨rest, hr, hscan⟩ := ih h
      exact ⟨rest, hr.trans (List.suffix_cons c cs), hscan⟩

/-! ## Plain names -/

/-- A name that no rule of `parse` takes apart. -/
def Plain (n : String) : Prop := n ≠ "" ∧ ∀ c ∈ n.toList, c ≠ '[' ∧ c ≠ ']' ∧ c ≠ '.'

instance (n : String) : Decidable (Plain n) :=
  decidable_of_iff (n ≠ "" ∧ n.toList.all (fun c => c ≠ '[' ∧ c ≠ ']' ∧ c ≠ '.') = true)
    (by simp only [Plain, List.all_eq_true, decide_eq_true_eq])

theorem display_flat (n : String) : (flat n).display = n := by
  simp [display, flat, Segment.display, List.intercalate]

theorem scan_plain {whole : String} {cs : List Char}
    (hc : ∀ c ∈ cs, c ≠ '[' ∧ c ≠ ']' ∧ c ≠ '.') (current : List Char) (segments : List Segment) :
    scan whole cs 0 current segments =
      (parseSegment (current ++ cs) whole).map fun s => segments ++ [s] := by
  induction cs generalizing current with
  | nil => simp [scan]
  | cons c cs ih =>
    obtain ⟨h1, h2, h3⟩ := hc c List.mem_cons_self
    rw [scan, if_neg h1, if_neg h2, if_neg (fun h => h3 h.1),
      ih (fun d hd => hc d (List.mem_cons_of_mem c hd)), List.append_assoc, List.singleton_append]

theorem parse_plain {n : String} (h : Plain n) : parse n = .ok (flat n) := by
  have hne : n.toList ≠ [] := by
    intro he
    exact h.1 (String.toList_inj.mp he)
  have hd : n.toList.dropWhile (· != '[') = [] := by
    rw [List.dropWhile_eq_nil_iff]
    intro c hc
    simp [(h.2 c hc).1]
  have hseg : parseSegment n.toList n = .ok ⟨n, none⟩ := by
    simp [parseSegment, hne, hd]
  rw [parse, if_neg h.1, scan_plain h.2, List.nil_append, hseg]
  rfl

/-- A plain name with a dot behind it puts a flat segment in front. -/
theorem parse_plain_dot {n : String} (h : Plain n) {cs : List Char} {tail : List Segment}
    {whole : String} (ht : scan whole cs 0 [] [] = .ok tail) :
    parse (String.ofList (n.toList ++ '.' :: cs)) = .ok ⟨⟨n, none⟩ :: tail⟩ := by
  have hne : n.toList ≠ [] := by
    intro he
    exact h.1 (String.toList_inj.mp he)
  have hd : n.toList.dropWhile (· != '[') = [] := by
    rw [List.dropWhile_eq_nil_iff]
    intro c hc
    simp [(h.2 c hc).1]
  have hseg : ∀ w, parseSegment n.toList w = .ok ⟨n, none⟩ := by
    intro w
    simp [parseSegment, hne, hd]
  have hplain : ∀ (w : String) (ds current : List Char),
      (∀ c ∈ ds, c ≠ '[' ∧ c ≠ ']' ∧ c ≠ '.') →
      scan w (ds ++ '.' :: cs) 0 current [] = scan w ('.' :: cs) 0 (current ++ ds) [] := by
    intro w ds
    induction ds with
    | nil =>
      intro current _
      rw [List.nil_append, List.append_nil]
    | cons c ds ih =>
      intro current hc
      obtain ⟨h1, h2, h3⟩ := hc c List.mem_cons_self
      rw [List.cons_append, scan, if_neg h1, if_neg h2, if_neg (fun h => h3 h.1),
        ih _ (fun d hd => hc d (List.mem_cons_of_mem c hd)), List.append_assoc,
        List.singleton_append]
  have hw : String.ofList (n.toList ++ '.' :: cs) ≠ "" := by
    intro he
    have hl := congrArg String.toList he
    simp at hl
  unfold parse
  rw [if_neg hw, String.toList_ofList, hplain _ n.toList [] h.2, List.nil_append, scan,
    if_neg (by decide), if_neg (by decide), if_pos ⟨rfl, rfl⟩]
  simp only [hseg]
  rw [scan_pre, scan_whole _ ht]
  rfl

theorem organismName_flat (n : String) : (flat n).organismName = n := rfl

/-! ## The names of segments -/

def IsBracket (c : Char) : Prop := c = '[' ∨ c = ']'

instance (c : Char) : Decidable (IsBracket c) := inferInstanceAs (Decidable (_ ∨ _))

/-- Neither a bracket nor the separator. -/
def Inert (c : Char) : Prop := ¬ IsBracket c ∧ c ≠ '.'

/-- Within the segment being scanned, nothing before its first bracket is a closing bracket or a
    separator, and a bracket that is open has been read. -/
structure Scanning (depth : ℕ) (current : List Char) : Prop where
  inert : ∀ c ∈ current.takeWhile (· != '['), Inert c
  entered : depth ≠ 0 → '[' ∈ current

theorem takeWhile_concat_of_mem {current : List Char} (h : '[' ∈ current) (c : Char) :
    (current ++ [c]).takeWhile (· != '[') = current.takeWhile (· != '[') := by
  rw [List.takeWhile_append, if_neg]
  intro hl
  have he := (List.takeWhile_sublist _).eq_of_length hl
  have := List.mem_takeWhile_imp (he.symm ▸ h : '[' ∈ current.takeWhile (· != '['))
  simp at this

theorem Scanning.push {depth depth' : ℕ} {current : List Char} (h : Scanning depth current)
    (hd : depth' ≠ 0 → depth ≠ 0) {c : Char} (hc : depth = 0 → Inert c) :
    Scanning depth' (current ++ [c]) where
  inert := by
    by_cases hm : '[' ∈ current
    · rw [takeWhile_concat_of_mem hm]
      exact h.inert
    · have h0 : depth = 0 := by
        by_contra hne
        exact hm (h.entered hne)
      intro d hmem
      rw [List.takeWhile_append] at hmem
      split_ifs at hmem
      · rw [List.mem_append] at hmem
        rcases hmem with hmem | hmem
        · refine h.inert d ?_
          rwa [List.takeWhile_eq_self_iff.mpr]
          intro x hx
          simp only [bne_iff_ne, ne_eq]
          rintro rfl
          exact hm hx
        · have := (List.takeWhile_sublist _).subset hmem
          rw [List.mem_singleton] at this
          rw [this]
          exact hc h0
      · exact h.inert d hmem
  entered hne := List.mem_append_left _ (h.entered (hd hne))

theorem Scanning.enter {depth : ℕ} {current : List Char} (h : Scanning depth current) :
    Scanning (depth + 1) (current ++ ['[']) where
  inert := by
    rw [List.takeWhile_append]
    split_ifs with hl
    · have he := (List.takeWhile_sublist (· != '[')).eq_of_length hl
      intro c hc
      refine h.inert c ?_
      rw [he]
      simpa using hc
    · exact h.inert
  entered _ := List.mem_append_right _ List.mem_cons_self

/-- The name of a segment is what stands before its first bracket. -/
def Named (s : Segment) : Prop := s.name.toList ≠ [] ∧ ∀ c ∈ s.name.toList, Inert c

theorem parseSegment_named {raw : List Char} {whole : String} {s : Segment} {depth : ℕ}
    (h : parseSegment raw whole = .ok s) (hs : Scanning depth raw) : Named s := by
  unfold parseSegment at h
  by_cases hne : raw = []
  · rw [if_pos hne] at h
    cases h
  rw [if_neg hne] at h
  cases hd : raw.dropWhile (· != '[') with
  | nil =>
    simp only [hd, Except.ok.injEq] at h
    subst h
    have he : raw.takeWhile (· != '[') = raw := by
      rw [List.takeWhile_eq_self_iff]
      exact List.dropWhile_eq_nil_iff.mp hd
    refine ⟨by simpa using hne, fun c hc => hs.inert c ?_⟩
    rw [he]
    simpa using hc
  | cons c rest =>
    simp only [hd] at h
    split_ifs at h with hname hlast
    simp only [Except.ok.injEq] at h
    subst h
    exact ⟨by simpa using hname, fun c hc => hs.inert c (by simpa using hc)⟩

theorem scan_named {whole : String} {cs : List Char} {depth : ℕ} {current : List Char}
    {segments out : List Segment} (h : scan whole cs depth current segments = .ok out)
    (hs : Scanning depth current) (hn : ∀ s ∈ segments, Named s) : ∀ s ∈ out, Named s := by
  have hsnoc : ∀ s, Named s → ∀ t ∈ segments ++ [s], Named t := by
    intro s hm t ht
    rw [List.mem_append, List.mem_singleton] at ht
    rcases ht with ht | rfl
    · exact hn t ht
    · exact hm
  induction cs generalizing depth current segments with
  | nil =>
    rw [scan] at h
    split_ifs at h
    obtain ⟨s, hseg, rfl⟩ := map_eq_ok h
    exact hsnoc s (parseSegment_named hseg hs)
  | cons c cs ih =>
    rw [scan] at h
    split_ifs at h with h1 h2 h3 h4
    · subst h1
      exact ih h hs.enter hn hsnoc
    · refine ih h (hs.push ?_ fun h0 => absurd h0 h3) hn hsnoc
      omega
    · cases hseg : parseSegment current whole with
      | error e => simp [hseg] at h
      | ok s =>
        simp only [hseg] at h
        have hnew := hsnoc s (parseSegment_named hseg hs)
        refine ih h ⟨by simp, fun h0 => absurd h4.2 h0⟩ hnew ?_
        intro t ht u hu
        rw [List.mem_append, List.mem_singleton] at hu
        rcases hu with hu | rfl
        · exact hnew u hu
        · exact ht
    · refine ih h (hs.push id fun h0 => ?_) hn hsnoc
      exact ⟨fun hb => hb.elim h1 h2, fun hdot => h4 ⟨hdot, h0⟩⟩

theorem parse_named {s : String} {a : Address} (h : parse s = .ok a) :
    ∀ seg ∈ a.segments, Named seg := by
  unfold parse at h
  split_ifs at h
  obtain ⟨out, hscan, rfl⟩ := map_eq_ok h
  exact scan_named hscan ⟨by simp, fun h0 => absurd rfl h0⟩ (by simp)

theorem Named.plain {s : Segment} (h : Named s) : Plain s.name := by
  refine ⟨?_, fun c hc => ?_⟩
  · intro he
    exact h.1 (by rw [he]; rfl)
  · obtain ⟨hb, hd⟩ := h.2 c hc
    rw [IsBracket, not_or] at hb
    exact ⟨hb.1, hb.2, hd⟩

/-! ## Hops -/

/-- An address after so many hops, each of which writes it and reads it again. -/
def hops : ℕ → Address → Except AddressError Address
  | 0, a => .ok a
  | n + 1, a => (parse a.display).bind (hops n)

theorem hops_of_parse {s : String} {a : Address} (h : parse s = .ok a) (n : ℕ) :
    hops n a = .ok a := by
  induction n with
  | zero => rfl
  | succ n ih =>
    rw [hops, parse_display h]
    exact ih

/-- The text of an address says neither more nor less than the address. -/
theorem parse_exact {s : String} {a : Address} (h : parse s = .ok a) :
    (∀ seg ∈ a.segments, Plain seg.name) ∧ a.display = s ∧ parse a.display = .ok a ∧
      ∀ n, hops n a = .ok a := by
  have hnamed := parse_named h
  exact ⟨fun seg hm => (hnamed seg hm).plain, display_of_parse h, parse_display h, hops_of_parse h⟩

def nested : Address := ⟨[⟨"ringhub", none⟩, ⟨"bob", some "a[1.5].b"⟩]⟩

theorem parse_exact_nested : (∀ seg ∈ nested.segments, Plain seg.name) ∧
    nested.display = "ringhub.bob[a[1.5].b]" ∧ parse nested.display = .ok nested ∧
    ∀ n, hops n nested = .ok nested :=
  parse_exact (by decide)

end RustPipeline.AddressText
