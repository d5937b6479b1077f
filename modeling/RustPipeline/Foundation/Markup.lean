import RustPipeline.Foundation.PlainXml

set_option autoImplicit false

/-!
# Markup put together from strings

The escaping of `xml.sax.saxutils`, documents concatenated with it, and what a trimming pull reader
finds in them.
-/
namespace RustPipeline.Markup
open Text Xml

/-! ## Escaping -/

def saxChar (c : Char) : List Char :=
  if c = '&' then ['&', 'a', 'm', 'p', ';']
  else if c = '<' then ['&', 'l', 't', ';']
  else if c = '>' then ['&', 'g', 't', ';']
  else [c]

/-- `escape`. -/
def saxEscape (s : String) : String := String.ofList (s.toList.flatMap saxChar)

def attrChar (c : Char) : List Char :=
  if c = '\n' then ['&', '#', '1', '0', ';']
  else if c = '\r' then ['&', '#', '1', '3', ';']
  else if c = '\t' then ['&', '#', '9', ';']
  else saxChar c

/-- `data.replace('"', "&quot;")`. -/
def quotChar (c : Char) : List Char :=
  if c = '"' then ['&', 'q', 'u', 'o', 't', ';'] else [c]

def quoteChars (cs : List Char) : List Char :=
  let data := cs.flatMap attrChar
  if '"' ∈ data then
    if '\'' ∈ data then '"' :: data.flatMap quotChar ++ ['"']
    else '\'' :: data ++ ['\'']
  else '"' :: data ++ ['"']

/-- `quoteattr`: either quotes, and references for double quotes where both occur. -/
def quoteattr (s : String) : String := String.ofList (quoteChars s.toList)

/-- What stands between the quotes. -/
def attrRaw (s : String) : String := String.ofList (quoteChars s.toList).tail.dropLast

/-- No markup, no tab or line break, and not both kinds of quotes. -/
structure AttrPlain (s : String) : Prop where
  chars : ∀ c ∈ s.toList, c ∉ ['&', '<', '>', '\t', '\n', '\r']
  quotes : ¬ ('"' ∈ s.toList ∧ '\'' ∈ s.toList)

instance (s : String) : Decidable (AttrPlain s) :=
  decidable_of_iff ((s.toList.all fun c => c ∉ ['&', '<', '>', '\t', '\n', '\r']) = true ∧
      ¬ ('"' ∈ s.toList ∧ '\'' ∈ s.toList)) <| by
    rw [List.all_eq_true]
    simp only [decide_eq_true_eq]
    exact ⟨fun h => ⟨h.1, h.2⟩, fun h => ⟨h.chars, h.quotes⟩⟩

theorem attrChar_or (c : Char) : attrChar c = [c] ∨ 2 ≤ (attrChar c).length := by
  unfold attrChar saxChar
  split_ifs <;> simp

theorem attrChar_quotChar_or (c : Char) : (attrChar c).flatMap quotChar = [c] ∨
    2 ≤ ((attrChar c).flatMap quotChar).length := by
  by_cases hc : c = '"'
  · subst hc
    exact Or.inr (by decide)
  · unfold attrChar saxChar
    split_ifs <;> simp [quotChar, hc]

theorem attrChar_eq_iff (c : Char) :
    attrChar c = [c] ↔ c ∉ ['&', '<', '>', '\t', '\n', '\r'] := by
  unfold attrChar saxChar
  split_ifs <;> simp_all

theorem quote_mem_attrChar {q : Char} (hq : q = '"' ∨ q = '\'') (c : Char) :
    q ∈ attrChar c ↔ q = c := by
  unfold attrChar saxChar
  rcases hq with rfl | rfl <;> split_ifs <;> simp_all

theorem quote_mem_data {q : Char} (hq : q = '"' ∨ q = '\'') (cs : List Char) :
    q ∈ cs.flatMap attrChar ↔ q ∈ cs := by
  simp only [List.mem_flatMap, quote_mem_attrChar hq, exists_eq_right']

theorem attrRaw_toList (s : String) : (attrRaw s).toList =
    if '"' ∈ s.toList ∧ '\'' ∈ s.toList then
      s.toList.flatMap fun c => (attrChar c).flatMap quotChar
    else s.toList.flatMap attrChar := by
  rw [attrRaw, String.toList_ofList]
  simp only [quoteChars, quote_mem_data (Or.inl rfl), quote_mem_data (Or.inr rfl)]
  by_cases hd : '"' ∈ s.toList
  · by_cases ha : '\'' ∈ s.toList
    · simp only [hd, ha, and_self, ↓reduceIte, List.cons_append, List.tail_cons,
        List.dropLast_concat, List.flatMap_assoc]
    · simp only [hd, ha, and_false, ↓reduceIte, List.cons_append, List.tail_cons,
        List.dropLast_concat]
  · simp only [hd, false_and, ↓reduceIte, List.cons_append, List.tail_cons, List.dropLast_concat]

theorem attrRaw_eq_self_iff (s : String) : attrRaw s = s ↔ AttrPlain s := by
  rw [← String.toList_inj, attrRaw_toList]
  by_cases hq : '"' ∈ s.toList ∧ '\'' ∈ s.toList
  · rw [if_pos hq]
    refine iff_of_false ?_ (fun h => h.quotes hq)
    intro h
    have hc := (flatMap_eq_self_iff attrChar_quotChar_or s.toList).mp h '"' hq.1
    revert hc
    decide
  · rw [if_neg hq, flatMap_eq_self_iff attrChar_or]
    constructor
    · intro h
      exact ⟨fun c hc => (attrChar_eq_iff c).mp (h c hc), hq⟩
    · intro h c hc
      exact (attrChar_eq_iff c).mpr (h.chars c hc)

/-! ## Documents -/

def attrs : List (String × String) → String
  | [] => ""
  | a :: as => " " ++ a.1 ++ "=" ++ quoteattr a.2 ++ attrs as

def markup : Token → String
  | .start n as => "<" ++ n ++ attrs as ++ ">"
  | .empty n as => "<" ++ n ++ attrs as ++ "/>"
  | .text s => saxEscape s
  | .stop n => "</" ++ n ++ ">"

def render : List Token → String
  | [] => ""
  | t :: doc => markup t ++ render doc

@[simp] theorem render_nil : render [] = "" := rfl

@[simp] theorem render_cons (t : Token) (doc : List Token) :
    render (t :: doc) = markup t ++ render doc := rfl

@[simp] theorem render_append (a b : List Token) : render (a ++ b) = render a ++ render b := by
  induction a with
  | nil => simp
  | cons t a ih => simp [ih, String.append_assoc]

def readMarkupToken : Token → Reader
  | .start n as => [.ok (.start (utf8 n) (as.map fun a => (utf8 a.1, attrRaw a.2)))]
  | .empty n as => [.ok (.empty (utf8 n) (as.map fun a => (utf8 a.1, attrRaw a.2)))]
  | .text s => if trimText s = "" then [] else [.ok (.text (.ok (trimText s)))]
  | .stop n => [.ok (.stop (utf8 n))]

/-- Attribute values as they stand between their quotes; texts unescaped and trimmed. -/
def readMarkup (doc : List Token) : Reader := doc.flatMap readMarkupToken

/-- A character of an XML document, other than the carriage return that parsers rewrite. -/
def xmlChar (c : Char) : Bool :=
  c = '\t' || c = '\n' || (32 ≤ c.toNat && c.toNat ≠ 0xFFFE && c.toNat ≠ 0xFFFF)

def XmlText (s : String) : Prop := ∀ c ∈ s.toList, xmlChar c = true

instance (s : String) : Decidable (XmlText s) :=
  decidable_of_iff (s.toList.all xmlChar = true) List.all_eq_true

/-- Every text and every attribute value of a token. -/
def Token.All (p : String → Prop) : Token → Prop
  | .start _ as => ∀ a ∈ as, p a.2
  | .empty _ as => ∀ a ∈ as, p a.2
  | .text s => p s
  | .stop _ => True

/-- A document that is well formed and made of XML characters. -/
structure Wellformed (doc : List Token) : Prop where
  balanced : Balanced [] doc
  written : ∀ t ∈ doc, Token.All XmlText t

/-- The reader finds this document in the text it is written as. -/
def ReadsMarkup (x : Library) (doc : List Token) : Prop :=
  Wellformed doc → x.read (utf8 (render doc)) = readMarkup doc

/-! ## Documents without quotes -/

/-- Characters that every writer treats alike. -/
def quiet (c : Char) : Bool := c ∉ ['"', '\'', '\t', '\n', '\r']

def Quiet (s : String) : Prop := ∀ c ∈ s.toList, quiet c = true

instance (s : String) : Decidable (Quiet s) :=
  decidable_of_iff (s.toList.all quiet = true) List.all_eq_true

theorem saxChar_of_quiet {c : Char} (h : quiet c = true) : saxChar c = escapeChar c := by
  simp only [quiet, List.mem_cons, List.not_mem_nil, or_false, not_or, decide_eq_true_eq] at h
  unfold saxChar escapeChar
  split_ifs <;> simp_all

theorem attrChar_of_quiet {c : Char} (h : quiet c = true) : attrChar c = escapeChar c := by
  rw [← saxChar_of_quiet h]
  simp only [quiet, List.mem_cons, List.not_mem_nil, or_false, not_or, decide_eq_true_eq] at h
  simp only [attrChar, h, ↓reduceIte]

theorem flatMap_congr_quiet {f : Char → List Char} (hf : ∀ c, quiet c = true → f c = escapeChar c)
    {cs : List Char} (h : ∀ c ∈ cs, quiet c = true) : cs.flatMap f = escapeChars cs :=
  List.flatMap_congr fun c hc => hf c (h c hc)

theorem quote_notMem {q : Char} (hq : q = '"' ∨ q = '\'') {cs : List Char}
    (h : ∀ c ∈ cs, quiet c = true) : q ∉ cs := by
  intro hm
  have hc := h q hm
  rcases hq with rfl | rfl
  · exact absurd hc (by decide)
  · exact absurd hc (by decide)

theorem attrRaw_of_quiet {s : String} (h : Quiet s) :
    attrRaw s = escape s := by
  rw [← String.toList_inj, attrRaw_toList, if_neg (fun hq => quote_notMem (Or.inl rfl) h hq.1),
    flatMap_congr_quiet (fun _ => attrChar_of_quiet) h, escape, String.toList_ofList]

theorem attrs_toList {as : List (String × String)} (h : ∀ a ∈ as, Quiet a.2) :
    (attrs as).toList = as.flatMap PlainXml.attrChars := by
  induction as with
  | nil => rfl
  | cons a as ih =>
    have ha := h a List.mem_cons_self
    have hdata := flatMap_congr_quiet (fun _ => attrChar_of_quiet) ha
    have hq : '"' ∉ escapeChars a.2.toList := by
      rw [← hdata, quote_mem_data (Or.inl rfl)]
      exact quote_notMem (Or.inl rfl) ha
    rw [attrs, List.flatMap_cons, String.toList_append, ih fun b hb => h b (List.mem_cons_of_mem a hb)]
    simp [quoteattr, quoteChars, hq, hdata, PlainXml.attrChars]

theorem render_toList {doc : List Token} (h : ∀ t ∈ doc, Token.All Quiet t) :
    (render doc).toList = PlainXml.docChars doc := by
  induction doc with
  | nil => rfl
  | cons t doc ih =>
    rw [render, String.toList_append, ih fun u hu => h u (List.mem_cons_of_mem t hu)]
    have ht := h t List.mem_cons_self
    change _ = PlainXml.tokenChars t ++ PlainXml.docChars doc
    refine congrArg (· ++ PlainXml.docChars doc) ?_
    cases t with
    | start n as => simp [markup, PlainXml.tokenChars, PlainXml.tagChars, attrs_toList ht]
    | empty n as => simp [markup, PlainXml.tokenChars, PlainXml.tagChars, attrs_toList ht]
    | text s =>
      rw [markup, saxEscape, String.toList_ofList]
      exact flatMap_congr_quiet (fun _ => saxChar_of_quiet) ht
    | stop n => simp [markup, PlainXml.tokenChars]

theorem readMarkup_of_quiet {doc : List Token} (h : ∀ t ∈ doc, Token.All Quiet t) :
    readMarkup doc = readBack doc := by
  apply List.flatMap_congr
  intro t ht
  have hq := h t ht
  have hattrs : ∀ as : List (String × String), (∀ a ∈ as, Quiet a.2) →
      (as.map fun a => (utf8 a.1, attrRaw a.2)) = as.map fun a => (utf8 a.1, escape a.2) := by
    intro as ha
    apply List.map_congr_left
    intro a hm
    rw [attrRaw_of_quiet (ha a hm)]
  cases t with
  | start n as => rw [readMarkupToken, readBackToken, hattrs as hq]
  | empty n as => rw [readMarkupToken, readBackToken, hattrs as hq]
  | text s => rfl
  | stop n => rfl

/-- The small XML library reads such documents. -/
theorem plain_readsMarkup {doc : List Token} (h : ∀ t ∈ doc, Token.All Quiet t) :
    ReadsMarkup PlainXml.library doc := by
  intro hw
  have hb := PlainXml.library_faithful doc hw.balanced
  rw [readMarkup_of_quiet h, ← hb]
  change PlainXml.read _ = PlainXml.read _
  rw [← String.ofList_toList (s := render doc), render_toList h]
  rfl

end RustPipeline.Markup
