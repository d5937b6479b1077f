import RustPipeline.AddressText
import RustPipeline.Foundation.Markup

set_option autoImplicit false

/-!
# Addresses of the Python mirror

`Address.parse` and `str` of `rust_pipeline_federation`, and which texts both sides read alike: a
Python key begins anew with every bracket, and surrounding white space is dropped.
-/
namespace RustPipeline.PythonAddress
open Text Wire Markup AddressText

/-- How a call fails: with an error of the module's own, or with one of something it calls. -/
inductive PyError where
  | value (message : String)
  | library
  deriving DecidableEq

/-- `str.isspace` of one character. -/
def isSpaceChar (c : Char) : Bool := isWhitespace c || (28 ≤ c.toNat && c.toNat ≤ 31)

/-- `str.strip`. -/
def strip (s : String) : String := String.ofList (trimBy isSpaceChar s.toList)

/-- The loop of `parse`: name and key being read, whether inside a bracket, the segments so far. -/
def parseLoop : List Char → List Char → Option (List Char) → Bool → List Segment →
    Except PyError (List Segment)
  | [], name, key, inBracket, segs =>
    if inBracket then .error (.value "unclosed bracket")
    else
      let segs := if name = [] then segs else segs ++ [⟨.ofList name, key.map .ofList⟩]
      if segs = [] then .error (.value "empty address") else .ok segs
  | ch :: cs, name, key, inBracket, segs =>
    if ch = '[' then
      if inBracket then .error (.value "unclosed bracket")
      else parseLoop cs name (some []) true segs
    else if ch = ']' then
      if inBracket then parseLoop cs name key false segs
      else .error (.value "unexpected ]")
    else if ch = '.' ∧ inBracket = false then
      if name = [] then .error (.value "empty segment name")
      else parseLoop cs [] none false (segs ++ [⟨.ofList name, key.map .ofList⟩])
    else if inBracket then parseLoop cs name (key.map (· ++ [ch])) true segs
    else parseLoop cs (name ++ [ch]) key false segs

def parse (s : String) : Except PyError Address :=
  let s := strip s
  if s = "" then .error (.value "empty address")
  else (parseLoop s.toList [] none false []).map Address.mk

/-- `str(segment)`. -/
def segmentStr (s : Segment) : String :=
  match s.key with
  | some key => s.name ++ "[" ++ key ++ "]"
  | none => s.name

/-- `str(address)`. -/
def str (a : Address) : String := ".".intercalate (a.segments.map segmentStr)

theorem segmentStr_toList (s : Segment) : (segmentStr s).toList = s.display := by
  unfold segmentStr Segment.display
  cases s.key with
  | none => simp
  | some key => simp

/-- Both sides write an address alike. -/
theorem str_eq_display (a : Address) : str a = a.display := by
  rw [← String.toList_inj, Address.display, String.toList_ofList, str, String.toList_intercalate,
    List.map_map]
  refine congrArg (List.intercalate ['.']) (List.map_congr_left fun s _ => ?_)
  exact segmentStr_toList s

/-! ## White space -/

theorem isSpaceChar_of_xml {c : Char} (h : xmlChar c = true) : isSpaceChar c = isWhitespace c := by
  have hc : ¬ (28 ≤ c.toNat ∧ c.toNat ≤ 31) := by
    intro hr
    simp only [xmlChar, Bool.or_eq_true, Bool.and_eq_true, decide_eq_true_eq] at h
    rcases h with (rfl | rfl) | h
    · exact absurd hr (by decide)
    · exact absurd hr (by decide)
    · omega
  simp [isSpaceChar, hc]

theorem strip_eq_self_iff {s : String} (h : XmlText s) : strip s = s ↔ trim s = s := by
  rw [← String.toList_inj, ← String.toList_inj, strip, trim, String.toList_ofList,
    String.toList_ofList, trimBy_eq_self_iff, trimBy_eq_self_iff]
  have he : ∀ c ∈ s.toList, isSpaceChar c = isWhitespace c := fun c hc =>
    isSpaceChar_of_xml (h c hc)
  constructor
  · rintro ⟨hh, hl⟩
    exact ⟨fun c hc => he c (List.mem_of_mem_head? hc) ▸ hh c hc,
      fun c hc => he c (List.mem_of_mem_getLast? hc) ▸ hl c hc⟩
  · rintro ⟨hh, hl⟩
    exact ⟨fun c hc => (he c (List.mem_of_mem_head? hc)).trans (hh c hc),
      fun c hc => (he c (List.mem_of_mem_getLast? hc)).trans (hl c hc)⟩

/-! ## What the loop returns -/

/-- A key in which no bracket stands. -/
def KeyClean (s : Segment) : Prop := ∀ k ∈ s.key, ∀ c ∈ k.toList, ¬ IsBracket c

/-- At the end of the text the last segment is put behind the others, unless its name is empty. -/
theorem parseLoop_end {name : List Char} {key : Option (List Char)} {inBracket : Bool}
    {segs out : List Segment} (h : parseLoop [] name key inBracket segs = .ok out) :
    inBracket = false ∧ out ≠ [] ∧
      out = if name = [] then segs else segs ++ [⟨.ofList name, key.map .ofList⟩] := by
  cases inBracket with
  | true => cases h
  | false =>
    simp only [parseLoop, Bool.false_eq_true, ↓reduceIte] at h
    by_cases hs : (if name = [] then segs
        else segs ++ [(⟨.ofList name, key.map .ofList⟩ : Segment)]) = []
    · rw [if_pos hs] at h
      cases h
    · rw [if_neg hs, Except.ok.injEq] at h
      rw [h] at hs
      exact ⟨rfl, hs, h.symm⟩

instance (s : Segment) : Decidable (KeyClean s) :=
  decidable_of_iff ((s.key.all fun k => k.toList.all fun c => !decide (IsBracket c)) = true)
    (by simp [KeyClean, Option.all_eq_true])

theorem keyClean_snoc {segs : List Segment} {name : List Char} {key : Option (List Char)}
    (hs : ∀ s ∈ segs, KeyClean s) (hk : ∀ k ∈ key, ∀ c ∈ k, ¬ IsBracket c) :
    ∀ s ∈ segs ++ [⟨.ofList name, key.map .ofList⟩], KeyClean s := by
  intro s hm
  rw [List.mem_append, List.mem_singleton] at hm
  rcases hm with hm | rfl
  · exact hs s hm
  · intro k hkey
    obtain ⟨k, hm, rfl⟩ := Option.mem_map.mp hkey
    rw [String.toList_ofList]
    exact hk k hm

/-- A bracket never becomes part of a key. -/
theorem parseLoop_clean {cs name : List Char} {key : Option (List Char)} {inBracket : Bool}
    {segs out : List Segment} (h : parseLoop cs name key inBracket segs = .ok out)
    (hs : ∀ s ∈ segs, KeyClean s) (hk : ∀ k ∈ key, ∀ c ∈ k, ¬ IsBracket c) :
    ∀ s ∈ out, KeyClean s := by
  induction cs generalizing name key inBracket segs with
  | nil =>
    rw [(parseLoop_end h).2.2]
    split_ifs
    · exact hs
    · exact keyClean_snoc hs hk
  | cons c cs ih =>
    rw [parseLoop] at h
    split_ifs at h with h1 h2 h3 h4
    · exact ih h hs (by simp)
    · exact ih h hs hk
    · exact ih h (keyClean_snoc hs hk) (by simp)
    · refine ih h hs ?_
      intro k' hm'
      obtain ⟨k, hm, rfl⟩ := Option.mem_map.mp hm'
      intro d hd
      rw [List.mem_append, List.mem_singleton] at hd
      rcases hd with hd | rfl
      · exact hk k hm d hd
      · simp [IsBracket, h1, h3]
    · exact ih h hs hk

/-- The length of segments written with a separator behind each. -/
def width (segs : List Segment) : ℕ := (segs.map fun s => s.display.length + 1).sum

/-- The part of the segment being read that will be written again. -/
def pending (name : List Char) (key : Option (List Char)) (inBracket : Bool) : ℕ :=
  name.length + match key with
    | some k => k.length + 1 + if inBracket then 0 else 1
    | none => 0

theorem width_snoc (segs : List Segment) (name : List Char) (key : Option (List Char)) :
    width (segs ++ [⟨.ofList name, key.map .ofList⟩]) =
      width segs + (pending name key false + 1) := by
  rw [width, List.map_append, List.sum_append]
  cases key with
  | none => simp [width, pending, Segment.display]
  | some k => simp [width, pending, Segment.display]

/-- Every character read adds one character at most to what is written. -/
theorem parseLoop_width {cs name : List Char} {key : Option (List Char)} {inBracket : Bool}
    {segs out : List Segment} (h : parseLoop cs name key inBracket segs = .ok out) :
    width out ≤ width segs + pending name key inBracket + cs.length + 1 := by
  induction cs generalizing name key inBracket segs with
  | nil =>
    obtain ⟨hb, _, ho⟩ := parseLoop_end h
    rw [ho, hb]
    split_ifs
    · omega
    · rw [width_snoc]
      omega
  | cons c cs ih =>
    rw [parseLoop] at h
    rw [List.length_cons]
    split_ifs at h with h1 hb h2 hb h3 h4 h4
    · have := ih h
      simp only [pending, List.length_nil, ↓reduceIte] at this ⊢
      omega
    · have := ih h
      cases key with
      | none =>
        simp only [pending] at this ⊢
        omega
      | some k =>
        simp only [pending, hb, ↓reduceIte, Bool.false_eq_true] at this ⊢
        omega
    · have := ih h
      rw [width_snoc] at this
      rw [h3.2]
      simp only [pending, List.length_nil] at this ⊢
      omega
    · have := ih h
      cases key with
      | none =>
        simp only [pending, Option.map_none] at this ⊢
        omega
      | some k =>
        simp only [pending, Option.map_some, List.length_append, List.length_singleton,
          ↓reduceIte, h4] at this ⊢
        omega
    · have := ih h
      rw [Bool.not_eq_true] at h4
      simp only [pending, List.length_append, List.length_singleton, h4] at this ⊢
      omega

theorem display_length {a : Address} (hne : a.segments ≠ []) :
    a.display.toList.length + 1 = width a.segments := by
  rw [Address.display, String.toList_ofList]
  obtain ⟨segs, s, hs⟩ := List.eq_nil_or_concat a.segments |>.resolve_left hne
  rw [hs, List.concat_eq_append, List.map_append, List.map_singleton,
    intercalate_concat, width, List.map_append, List.sum_append, List.length_append,
    List.length_flatMap, List.map_map]
  simp [Function.comp_def]
  omega

theorem parseLoop_ne_nil {cs name : List Char} {key : Option (List Char)} {inBracket : Bool}
    {segs : List Segment} : parseLoop cs name key inBracket segs ≠ .ok [] := by
  induction cs generalizing name key inBracket segs with
  | nil =>
    intro h
    exact (parseLoop_end h).2.1 rfl
  | cons c cs ih =>
    rw [parseLoop]
    split_ifs
    · simp
    · exact ih
    · exact ih
    · simp
    · simp
    · exact ih
    · exact ih
    · exact ih

theorem parse_eq_ok {s : String} {a : Address} (h : parse s = .ok a) :
    parseLoop (strip s).toList [] none false [] = .ok a.segments := by
  unfold parse at h
  dsimp only at h
  split_ifs at h
  obtain ⟨out, hout, rfl⟩ := map_eq_ok h
  exact hout

theorem parse_clean {s : String} {a : Address} (h : parse s = .ok a) :
    ∀ seg ∈ a.segments, KeyClean seg :=
  parseLoop_clean (parse_eq_ok h) (by simp) (by simp)

theorem strip_sublist (s : String) : (strip s).toList.Sublist s.toList := by
  rw [strip, String.toList_ofList]
  exact (List.rdropWhile_prefix _ _).sublist.trans (List.dropWhile_sublist _)

/-- What is read is written no longer than it was, so a text read as itself lost nothing. -/
theorem strip_of_parse_display {a : Address} (h : parse a.display = .ok a) :
    strip a.display = a.display := by
  have hloop := parse_eq_ok h
  have hne : a.segments ≠ [] := by
    intro he
    rw [he] at hloop
    exact parseLoop_ne_nil hloop
  have hw := parseLoop_width hloop
  rw [← display_length hne] at hw
  simp only [width, pending, List.map_nil, List.sum_nil, List.length_nil] at hw
  apply String.toList_inj.mp
  exact (strip_sublist a.display).eq_of_length_le (by omega)

/-! ## Reading what is written -/

theorem parseLoop_name {cs : List Char} (hc : ∀ c ∈ cs, Inert c) (rest name : List Char)
    (key : Option (List Char)) (segs : List Segment) :
    parseLoop (cs ++ rest) name key false segs = parseLoop rest (name ++ cs) key false segs := by
  induction cs generalizing name with
  | nil => simp
  | cons c cs ih =>
    obtain ⟨hb, hd⟩ := hc c List.mem_cons_self
    rw [IsBracket, not_or] at hb
    rw [List.cons_append, parseLoop, if_neg hb.1, if_neg hb.2, if_neg fun h => hd h.1,
      if_neg (by simp), ih fun d hm => hc d (List.mem_cons_of_mem c hm), List.append_assoc]
    rfl

theorem parseLoop_key {cs : List Char} (hc : ∀ c ∈ cs, ¬ IsBracket c) (rest name key : List Char)
    (segs : List Segment) : parseLoop (cs ++ rest) name (some key) true segs =
      parseLoop rest name (some (key ++ cs)) true segs := by
  induction cs generalizing key with
  | nil => simp
  | cons c cs ih =>
    have hb := hc c List.mem_cons_self
    rw [IsBracket, not_or] at hb
    rw [List.cons_append, parseLoop, if_neg hb.1, if_neg hb.2, if_neg (by simp), if_pos rfl,
      Option.map_some, ih fun d hm => hc d (List.mem_cons_of_mem c hm), List.append_assoc]
    rfl

/-- A segment read from where it is written. -/
theorem parseLoop_segment {s : Segment} (hn : Named s) (hk : KeyClean s) (rest : List Char)
    (segs : List Segment) : parseLoop (s.display ++ rest) [] none false segs =
      parseLoop rest s.name.toList (s.key.map String.toList) false segs := by
  rw [Segment.display, List.append_assoc, parseLoop_name hn.2, List.nil_append]
  obtain ⟨name, key⟩ := s
  cases key with
  | none => simp
  | some key =>
    simp only [List.cons_append, List.append_assoc, Option.map_some]
    rw [parseLoop, if_pos rfl, if_neg (by simp), parseLoop_key (hk key rfl), List.nil_append,
      parseLoop, if_neg (by decide), if_pos rfl, if_pos rfl, List.nil_append]

theorem parseLoop_display {segs : List Segment} (hne : segs ≠ [])
    (h : ∀ s ∈ segs, Named s ∧ KeyClean s) (pre : List Segment) :
    parseLoop (['.'].intercalate (segs.map Segment.display)) [] none false pre =
      .ok (pre ++ segs) := by
  have hback : ∀ s : Segment, (⟨.ofList s.name.toList,
      (s.key.map String.toList).map .ofList⟩ : Segment) = s := by
    intro s
    cases hk : s.key with
    | none => simp [← hk]
    | some k => simp [← hk]
  induction segs generalizing pre with
  | nil => exact absurd rfl hne
  | cons s segs ih =>
    obtain ⟨hn, hk⟩ := h s List.mem_cons_self
    cases segs with
    | nil =>
      have hl := parseLoop_segment hn hk [] pre
      rw [List.append_nil] at hl
      rw [List.map_singleton, List.intercalate_singleton, hl, parseLoop, if_neg (by simp)]
      simp only [hn.1, ↓reduceIte, hback]
      rw [if_neg (by simp)]
    | cons t segs =>
      have htail := ih (by simp) (fun u hu => h u (List.mem_cons_of_mem s hu)) (pre ++ [s])
      rw [List.map_cons, List.map_cons, List.intercalate_cons_cons, List.append_assoc,
        parseLoop_segment hn hk, List.singleton_append, parseLoop, if_neg (by decide),
        if_neg (by decide), if_pos ⟨rfl, rfl⟩, if_neg hn.1, hback, ← List.map_cons, htail]
      simp

/-- What Rust reads is read here as well exactly when no key holds a bracket. -/
theorem parse_iff_clean {s : String} {a : Address} (h : Address.parse s = .ok a)
    (ht : strip s = s) : parse s = .ok a ↔ ∀ seg ∈ a.segments, KeyClean seg := by
  constructor
  · exact parse_clean
  · intro hk
    have hn := parse_named h
    have hd := display_of_parse h
    have hs : s ≠ "" := by
      rintro rfl
      cases h
    have hne : a.segments ≠ [] := by
      intro he
      rw [← hd, Address.display, he] at hs
      exact hs rfl
    have hloop := parseLoop_display hne (fun t hm => ⟨hn t hm, hk t hm⟩) []
    rw [List.nil_append] at hloop
    unfold parse
    rw [ht]
    dsimp only
    rw [if_neg hs, ← hd, Address.display, String.toList_ofList, hloop]
    rfl

/-- Both sides read the text of an address alike exactly when it has no white space around it and
    no brackets inside a key. -/
theorem parse_display_iff {a : Address} (ha : ∃ s, Address.parse s = .ok a)
    (hx : XmlText a.display) : parse a.display = .ok a ↔
      trim a.display = a.display ∧ ∀ s ∈ a.segments, KeyClean s := by
  obtain ⟨s, hs⟩ := ha
  constructor
  · intro h
    exact ⟨(strip_eq_self_iff hx).mp (strip_of_parse_display h), parse_clean h⟩
  · intro h
    have ht := (strip_eq_self_iff hx).mpr h.1
    exact (parse_iff_clean (parse_display hs) ht).mpr h.2

end RustPipeline.PythonAddress
