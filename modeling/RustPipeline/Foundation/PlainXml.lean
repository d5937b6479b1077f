import RustPipeline.Foundation.EventTree

set_option autoImplicit false

/-!
# A small XML library

A writer and a trimming pull reader for documents in UTF-8, enough to show that `Faithful` is met.
Character references other than the five named entities are errors here.
-/
namespace RustPipeline.PlainXml
open Text Xml

/-! ## Writing -/

def attrChars (a : String × String) : List Char :=
  ' ' :: a.1.toList ++ '=' :: '"' :: escapeChars a.2.toList ++ ['"']

def tagChars (name : String) (attrs : List (String × String)) : List Char :=
  name.toList ++ attrs.flatMap attrChars

def tokenChars : Token → List Char
  | .start n as => '<' :: tagChars n as ++ ['>']
  | .empty n as => '<' :: tagChars n as ++ ['/', '>']
  | .text s => escapeChars s.toList
  | .stop n => '<' :: '/' :: n.toList ++ ['>']

def docChars (doc : List Token) : List Char := doc.flatMap tokenChars

/-! ## Reading -/

def unescapeChars : List Char → Option (List Char)
  | [] => some []
  | '&' :: 'l' :: 't' :: ';' :: cs => (unescapeChars cs).map ('<' :: ·)
  | '&' :: 'g' :: 't' :: ';' :: cs => (unescapeChars cs).map ('>' :: ·)
  | '&' :: 'a' :: 'm' :: 'p' :: ';' :: cs => (unescapeChars cs).map ('&' :: ·)
  | '&' :: 'a' :: 'p' :: 'o' :: 's' :: ';' :: cs => (unescapeChars cs).map ('\'' :: ·)
  | '&' :: 'q' :: 'u' :: 'o' :: 't' :: ';' :: cs => (unescapeChars cs).map ('"' :: ·)
  | '&' :: _ => none
  | c :: cs => (unescapeChars cs).map (c :: ·)

def textEvent (raw : List Char) : Event :=
  match unescapeChars raw with
  | some cs => .text (.ok (String.ofList cs))
  | none => .text (.error "unknown entity")

def bytes (cs : List Char) : Bytes := utf8 (String.ofList cs)

/-- `until c cs` cuts `cs` before its first `c`. -/
def cut (c : Char) (cs : List Char) : List Char × List Char :=
  (cs.takeWhile (· != c), cs.dropWhile (· != c))

def readAttrs : ℕ → List Char → List (Bytes × String)
  | 0, _ => []
  | _ + 1, [] => []
  | n + 1, _ :: cs =>
    let (k, r) := cut '=' cs
    let (v, r) := cut '"' (r.drop 2)
    (bytes k, String.ofList v) :: readAttrs n (r.drop 1)

def otherKind : List Char → Other
  | '[' :: _ => .cdata
  | '-' :: _ => .comment
  | _ => .declaration

/-- What stands between `<` and `>`, with the open elements after it. -/
def readTag (st : List (List Char)) (inner : List Char) :
    Except XmlError Event × List (List Char) :=
  match inner with
  | '/' :: name =>
    if st.head? = some name then (.ok (.stop (bytes name)), st.tail)
    else (.error "mismatched end tag", st)
  | '!' :: cs => (.ok (.other (otherKind cs)), st)
  | '?' :: _ => (.ok (.other .declaration), st)
  | _ =>
    let closed := inner.getLast? = some '/'
    let body := if closed then inner.dropLast else inner
    let (name, r) := cut ' ' body
    let attrs := readAttrs r.length r
    if closed then (.ok (.empty (bytes name) attrs), st)
    else (.ok (.start (bytes name) attrs), name :: st)

def readDoc : ℕ → List (List Char) → List Char → Reader
  | 0, _, _ => []
  | _ + 1, _, [] => []
  | n + 1, st, '<' :: cs =>
    match cut '>' cs with
    | (_, []) => [.error "unclosed tag"]
    | (inner, _ :: rest) => (readTag st inner).1 :: readDoc n (readTag st inner).2 rest
  | n + 1, st, c :: cs =>
    let (raw, rest) := cut '<' (c :: cs)
    if trimBy isSpace raw = [] then readDoc n st rest
    else .ok (textEvent (trimBy isSpace raw)) :: readDoc n st rest

def read (raw : Bytes) : Reader :=
  match fromUtf8 raw with
  | some s => readDoc (s.toList.length + 1) [] s.toList
  | none => [.error "invalid UTF-8"]

def library : Library where
  write doc := utf8 (String.ofList (docChars doc))
  read := read

/-! ## Faithfulness -/

theorem cut_append {c : Char} {a : List Char} (h : c ∉ a) (b : List Char) :
    cut c (a ++ c :: b) = (a, c :: b) := by
  have hp : ∀ x ∈ a, (x != c) = true := by
    intro x hx
    simp only [bne_iff_ne, ne_eq]
    rintro rfl
    exact h hx
  simp [cut, List.takeWhile_append_of_pos hp, List.dropWhile_append_of_pos hp]

theorem cut_of_notMem {c : Char} {a : List Char} (h : c ∉ a) : cut c a = (a, []) := by
  have hp : ∀ x ∈ a, (x != c) = true := by
    intro x hx
    simp only [bne_iff_ne, ne_eq]
    rintro rfl
    exact h hx
  rw [cut, List.takeWhile_eq_self_iff.mpr hp, List.dropWhile_eq_nil_iff.mpr hp]

theorem escapeChar_notMem {c d : Char} (hd : d = '<' ∨ d = '>' ∨ d = '"') : d ∉ escapeChar c := by
  cases h : special c with
  | false =>
    rw [escapeChar_of_plain h, List.mem_singleton]
    rintro rfl
    rcases hd with rfl | rfl | rfl <;> simp [special] at h
  | true =>
    simp only [special, Bool.or_eq_true, decide_eq_true_eq] at h
    rcases h with (((h | h) | h) | h) | h <;> subst h <;> rcases hd with rfl | rfl | rfl <;> decide

theorem escapeChars_notMem (cs : List Char) {d : Char} (hd : d = '<' ∨ d = '>' ∨ d = '"') :
    d ∉ escapeChars cs := by
  intro h
  obtain ⟨c, _, hc⟩ := List.mem_flatMap.mp h
  exact escapeChar_notMem hd hc

theorem unescapeChars_cons {c : Char} (h : c ≠ '&') (cs : List Char) :
    unescapeChars (c :: cs) = (unescapeChars cs).map (c :: ·) := by
  rw [unescapeChars.eq_def]
  split <;> simp_all

theorem unescapeChars_escapeChars (cs : List Char) :
    unescapeChars (escapeChars cs) = some cs := by
  induction cs with
  | nil => rfl
  | cons c cs ih =>
    change unescapeChars (escapeChar c ++ escapeChars cs) = _
    cases h : special c with
    | false =>
      have hc : c ≠ '&' := by
        rintro rfl
        simp [special] at h
      rw [escapeChar_of_plain h, List.singleton_append, unescapeChars_cons hc, ih]
      rfl
    | true =>
      simp only [special, Bool.or_eq_true, decide_eq_true_eq] at h
      rcases h with (((h | h) | h) | h) | h <;> subst h <;>
        simp [escapeChar, unescapeChars, ih]

theorem escape_injective : Function.Injective escape := by
  intro s t h
  have hchars : escapeChars s.toList = escapeChars t.toList := String.ofList_injective h
  have hback := congrArg unescapeChars hchars
  rw [unescapeChars_escapeChars, unescapeChars_escapeChars, Option.some_inj] at hback
  exact String.toList_inj.mp hback

/-- Escaping rewrites no white space and makes none. -/
theorem dropWhile_flatMap {f : Char → List Char} {p : Char → Bool}
    (h1 : ∀ c, p c = true → f c = [c])
    (h2 : ∀ c, p c = false → ∃ d ds, f c = d :: ds ∧ p d = false) (cs : List Char) :
    (cs.flatMap f).dropWhile p = (cs.dropWhile p).flatMap f := by
  induction cs with
  | nil => rfl
  | cons c cs ih =>
    cases hc : p c with
    | true => simp [h1 c hc, hc, ih]
    | false =>
      obtain ⟨d, ds, hf, hd⟩ := h2 c hc
      simp [hf, hc, hd]

theorem escapeChar_ends (c : Char) (h : isSpace c = false) :
    (∃ d ds, escapeChar c = d :: ds ∧ isSpace d = false) ∧
      ∃ d ds, (escapeChar c).reverse = d :: ds ∧ isSpace d = false := by
  cases hs : special c with
  | false =>
    rw [escapeChar_of_plain hs]
    exact ⟨⟨c, [], rfl, h⟩, ⟨c, [], rfl, h⟩⟩
  | true =>
    simp only [special, Bool.or_eq_true, decide_eq_true_eq] at hs
    rcases hs with (((hs | hs) | hs) | hs) | hs <;> subst hs <;>
      exact ⟨⟨'&', _, rfl, rfl⟩, ⟨';', _, rfl, rfl⟩⟩

theorem escapeChar_of_space {c : Char} (h : isSpace c = true) : escapeChar c = [c] := by
  apply escapeChar_of_plain
  simp only [isSpace, Bool.or_eq_true, decide_eq_true_eq] at h
  rcases h with ((h | h) | h) | h <;> subst h <;> rfl

theorem trimBy_escapeChars (cs : List Char) :
    trimBy isSpace (escapeChars cs) = escapeChars (trimBy isSpace cs) := by
  have hf : ∀ l : List Char, (escapeChars l).dropWhile isSpace = escapeChars (l.dropWhile isSpace) :=
    dropWhile_flatMap (fun c => escapeChar_of_space) fun c h => (escapeChar_ends c h).1
  have hr : ∀ l : List Char, (escapeChars l).rdropWhile isSpace =
      escapeChars (l.rdropWhile isSpace) := by
    intro l
    have hb := dropWhile_flatMap (f := fun c => (escapeChar c).reverse) (p := isSpace)
      (fun c h => by simp [escapeChar_of_space h]) (fun c h => (escapeChar_ends c h).2) l.reverse
    have hrev : ∀ l : List Char, (escapeChars l).reverse =
        l.reverse.flatMap fun c => (escapeChar c).reverse := by
      intro l
      simp [escapeChars, List.reverse_flatMap, Function.comp_def]
    rw [List.rdropWhile, hrev, hb, ← List.reverse_reverse (List.dropWhile isSpace l.reverse),
      ← hrev, List.reverse_reverse]
    rfl
  rw [trimBy, hf, hr]
  rfl

theorem name_plain {n : String} (hn : IsName n) {c : Char} (hc : c.isAlphanum = false) :
    c ∉ n.toList := by
  intro h
  simp [hn.2 c h] at hc

theorem attrChars_notMem {as : List (String × String)} (ha : ∀ k ∈ as.map Prod.fst, IsName k) :
    '>' ∉ as.flatMap attrChars := by
  intro h
  obtain ⟨⟨k, v⟩, hkv, hc⟩ := List.mem_flatMap.mp h
  have hk := name_plain (ha k (List.mem_map_of_mem hkv)) (c := '>') rfl
  have hv := escapeChars_notMem v.toList (d := '>') (by simp)
  simp [attrChars, hk, hv] at hc

theorem tagChars_notMem {n : String} {as : List (String × String)} (hn : IsName n)
    (ha : ∀ k ∈ as.map Prod.fst, IsName k) : '>' ∉ tagChars n as := by
  rw [tagChars, List.mem_append, not_or]
  exact ⟨name_plain hn rfl, attrChars_notMem ha⟩

theorem bytes_toList (n : String) : bytes n.toList = utf8 n := by
  rw [bytes, String.ofList_toList]

theorem readAttrs_attrChars {as : List (String × String)}
    (ha : ∀ k ∈ as.map Prod.fst, IsName k) {m : ℕ} (hm : as.length ≤ m) :
    readAttrs m (as.flatMap attrChars) = as.map fun a => (utf8 a.1, escape a.2) := by
  induction as generalizing m with
  | nil => cases m <;> rfl
  | cons a as ih =>
    obtain ⟨m, rfl⟩ : ∃ j, m = j + 1 := ⟨m - 1, by simp only [List.length_cons] at hm; omega⟩
    have hk := name_plain (ha a.1 (by simp)) (c := '=') rfl
    have hv := escapeChars_notMem a.2.toList (d := '"') (by simp)
    have htail := ih (fun k h => ha k (by simp at h ⊢; exact Or.inr h)) (m := m)
      (by simp only [List.length_cons] at hm; omega)
    have hshape : (a :: as).flatMap attrChars = ' ' :: (a.1.toList ++ '=' :: '"' ::
        (escapeChars a.2.toList ++ '"' :: as.flatMap attrChars)) := by
      simp [attrChars]
    rw [hshape]
    simp only [readAttrs, cut_append hk, List.drop_succ_cons, List.drop_zero, cut_append hv,
      htail, bytes_toList, List.map_cons]
    rfl

theorem attrChars_length (as : List (String × String)) :
    as.length ≤ (as.flatMap attrChars).length := by
  induction as with
  | nil => exact Nat.zero_le _
  | cons a as ih =>
    simp only [List.flatMap_cons, List.length_append, List.length_cons, attrChars]
    omega

theorem cut_tagChars {n : String} (hn : IsName n) (as : List (String × String)) :
    cut ' ' (tagChars n as) = (n.toList, as.flatMap attrChars) := by
  have hs := name_plain hn (c := ' ') rfl
  cases as with
  | nil => simp [tagChars, cut_of_notMem hs]
  | cons a as => exact cut_append hs _

theorem tagChars_last {n : String} (hn : IsName n) (as : List (String × String)) :
    (tagChars n as).getLast? ≠ some '/' := by
  rw [tagChars, List.getLast?_append]
  cases as using List.reverseRecOn with
  | nil =>
    intro h
    exact name_plain hn rfl (List.mem_of_getLast? (by simpa using h))
  | append_singleton as a _ =>
    have hl : (attrChars a).getLast? = some '"' := by
      rw [attrChars, List.getLast?_append]
      rfl
    rw [List.flatMap_append, List.getLast?_append, List.flatMap_singleton, hl]
    simp

/-- Neither an end tag nor markup without a name. -/
theorem readTag_open (st : List (List Char)) {n : String} (hn : IsName n) (cs : List Char) :
    readTag st (n.toList ++ cs) =
      let inner := n.toList ++ cs
      let closed := inner.getLast? = some '/'
      let body := if closed then inner.dropLast else inner
      let (name, r) := cut ' ' body
      let attrs := readAttrs r.length r
      if closed then (.ok (.empty (bytes name) attrs), st)
      else (.ok (.start (bytes name) attrs), name :: st) := by
  obtain ⟨c, ds, hc⟩ := List.exists_cons_of_ne_nil hn.1
  have h1 : c ≠ '/' := by
    rintro rfl
    exact name_plain hn rfl (hc ▸ List.mem_cons_self)
  have h2 : c ≠ '!' := by
    rintro rfl
    exact name_plain hn rfl (hc ▸ List.mem_cons_self)
  have h3 : c ≠ '?' := by
    rintro rfl
    exact name_plain hn rfl (hc ▸ List.mem_cons_self)
  rw [hc, List.cons_append]
  unfold readTag
  split
  · next h => exact absurd (List.cons.inj h).1 h1
  · next h => exact absurd (List.cons.inj h).1 h2
  · next h => exact absurd (List.cons.inj h).1 h3
  · rfl

theorem readTag_start (st : List (List Char)) {n : String} {as : List (String × String)}
    (hn : IsName n) (ha : AttrsOk as) : readTag st (tagChars n as) =
      (.ok (.start (utf8 n) (as.map fun a => (utf8 a.1, escape a.2))), n.toList :: st) := by
  have hl := tagChars_last hn as
  have hc := cut_tagChars hn as
  have hr := readAttrs_attrChars ha.2 (attrChars_length as)
  rw [tagChars] at hl hc ⊢
  rw [readTag_open st hn]
  simp only [hl, ↓reduceIte, hc, hr, bytes_toList]

theorem readTag_empty (st : List (List Char)) {n : String} {as : List (String × String)}
    (hn : IsName n) (ha : AttrsOk as) : readTag st (tagChars n as ++ ['/']) =
      (.ok (.empty (utf8 n) (as.map fun a => (utf8 a.1, escape a.2))), st) := by
  have hc := cut_tagChars hn as
  have hr := readAttrs_attrChars ha.2 (attrChars_length as)
  rw [tagChars] at hc ⊢
  rw [List.append_assoc, readTag_open st hn, ← List.append_assoc]
  simp only [List.getLast?_concat, ↓reduceIte, List.dropLast_concat, hc, hr, bytes_toList]

theorem readDoc_tag (m : ℕ) (st : List (List Char)) {inner : List Char} (h : '>' ∉ inner)
    (rest : List Char) : readDoc (m + 1) st ('<' :: (inner ++ '>' :: rest)) =
      (readTag st inner).1 :: readDoc m (readTag st inner).2 rest := by
  simp only [readDoc, cut_append h]

theorem readDoc_text (m : ℕ) (st : List (List Char)) (s : String) (rest : List Char) :
    ∃ j, m ≤ j ∧ readDoc (m + 1) st (escapeChars s.toList ++ '<' :: rest) =
      readBackToken (.text s) ++ readDoc j st ('<' :: rest) := by
  cases hs : escapeChars s.toList with
  | nil =>
    have hnil : s.toList = [] := by
      have hl := escapeChars_length s.toList
      rw [hs, List.length_nil, Nat.le_zero, List.length_eq_zero_iff] at hl
      exact hl
    refine ⟨m + 1, Nat.le_succ m, ?_⟩
    simp [readBackToken, trimText, hnil, trimBy]
  | cons c cs =>
    have hlt := escapeChars_notMem s.toList (d := '<') (by simp)
    have hc : c ≠ '<' := by
      rintro rfl
      exact hlt (hs ▸ List.mem_cons_self)
    refine ⟨m, Nat.le_refl m, ?_⟩
    have hcut : cut '<' (c :: (cs ++ '<' :: rest)) = (escapeChars s.toList, '<' :: rest) := by
      rw [← List.cons_append, ← hs]
      exact cut_append hlt rest
    have hempty : escapeChars (trimBy isSpace s.toList) = [] ↔ trimText s = "" := by
      rw [trimText, ← String.toList_inj, String.toList_ofList, ← List.length_eq_zero_iff]
      have hl := escapeChars_length (trimBy isSpace s.toList)
      constructor
      · intro h
        exact List.length_eq_zero_iff.mp (by omega)
      · intro h
        have h' : trimBy isSpace s.toList = [] := h
        rw [h']
        rfl
    rw [List.cons_append, readDoc.eq_4 _ _ _ _ (by simpa using hc), hcut]
    simp only [trimBy_escapeChars, hempty, readBackToken]
    split
    · rfl
    · simp [textEvent, unescapeChars_escapeChars, trimText]

theorem readDoc_docChars {st : List String} {doc : List Token} (hb : Balanced st doc)
    (hst : ∀ n ∈ st, IsName n) {m : ℕ} (hm : (docChars doc).length < m) :
    readDoc m (st.map String.toList) (docChars doc) = readBack doc := by
  induction hb generalizing m with
  | nil =>
    obtain ⟨m, rfl⟩ : ∃ j, m = j + 1 := ⟨m - 1, by omega⟩
    rfl
  | @start st n as rest hn ha _ ih =>
    obtain ⟨m, rfl⟩ : ∃ j, m = j + 1 := ⟨m - 1, by omega⟩
    have hdoc : docChars (.start n as :: rest) =
        '<' :: (tagChars n as ++ '>' :: docChars rest) := by
      simp [docChars, tokenChars]
    rw [hdoc] at hm ⊢
    simp only [List.length_cons, List.length_append] at hm
    rw [readDoc_tag m _ (tagChars_notMem hn ha.2), readTag_start _ hn ha, readBack_cons]
    refine congrArg (_ :: ·) (ih ?_ (by omega))
    simpa [hn] using hst
  | @empty st n as rest hn ha _ ih =>
    obtain ⟨m, rfl⟩ : ∃ j, m = j + 1 := ⟨m - 1, by omega⟩
    have hdoc : docChars (.empty n as :: rest) =
        '<' :: ((tagChars n as ++ ['/']) ++ '>' :: docChars rest) := by
      simp [docChars, tokenChars]
    have hgt : '>' ∉ tagChars n as ++ ['/'] := by
      simp [tagChars_notMem hn ha.2]
    rw [hdoc] at hm ⊢
    simp only [List.length_cons, List.length_append] at hm
    rw [readDoc_tag m _ hgt, readTag_empty _ hn ha, readBack_cons]
    exact congrArg (_ :: ·) (ih hst (by omega))
  | @text st n s rest _ ih =>
    obtain ⟨m, rfl⟩ : ∃ j, m = j + 2 := ⟨m - 2, by
      simp only [docChars, List.flatMap_cons, tokenChars, List.length_append,
        List.length_cons] at hm
      omega⟩
    have hn := hst n List.mem_cons_self
    have hdoc : docChars (.text s :: .stop n :: rest) =
        escapeChars s.toList ++ '<' :: (('/' :: n.toList) ++ '>' :: docChars rest) := by
      simp [docChars, tokenChars]
    have hgt : '>' ∉ '/' :: n.toList := by
      simp [name_plain hn (c := '>') rfl]
    rw [hdoc] at hm ⊢
    simp only [List.length_cons, List.length_append] at hm
    obtain ⟨j, hj, hread⟩ := readDoc_text (m + 1) ((n :: st).map String.toList) s
      (('/' :: n.toList) ++ '>' :: docChars rest)
    obtain ⟨j, rfl⟩ : ∃ i, j = i + 1 := ⟨j - 1, by omega⟩
    rw [hread, readDoc_tag j _ hgt, readBack_cons, readBack_cons]
    refine congrArg (readBackToken (.text s) ++ ·) ?_
    simp only [readTag, List.map_cons, List.head?_cons, ↓reduceIte, List.tail_cons, bytes_toList]
    exact congrArg (_ :: ·) (ih (fun k hk => hst k (List.mem_cons_of_mem n hk)) (by omega))
  | @stop st n rest _ ih =>
    obtain ⟨m, rfl⟩ : ∃ j, m = j + 1 := ⟨m - 1, by omega⟩
    have hn := hst n List.mem_cons_self
    have hdoc : docChars (.stop n :: rest) =
        '<' :: (('/' :: n.toList) ++ '>' :: docChars rest) := by
      simp [docChars, tokenChars]
    have hgt : '>' ∉ '/' :: n.toList := by
      simp [name_plain hn (c := '>') rfl]
    rw [hdoc] at hm ⊢
    simp only [List.length_cons, List.length_append] at hm
    rw [readDoc_tag m _ hgt, readBack_cons]
    simp only [readTag, List.map_cons, List.head?_cons, ↓reduceIte, List.tail_cons, bytes_toList]
    exact congrArg (_ :: ·) (ih (fun k hk => hst k (List.mem_cons_of_mem n hk)) (by omega))

theorem library_faithful : library.Faithful := by
  intro doc hb
  change read (utf8 (String.ofList (docChars doc))) = _
  rw [read, fromUtf8_utf8]
  change readDoc _ [] (String.ofList (docChars doc)).toList = _
  rw [String.toList_ofList]
  exact readDoc_docChars hb (by simp) (Nat.lt_succ_self _)

/-! ## End tags -/

/-- What a tag does to the stack of open elements. -/
theorem readTag_openAfter {st st' : List (List Char)} {inner : List Char} {e : Event}
    (h : readTag st inner = (.ok e, st')) {es : List Event}
    (hes : EventTree.openAfter (st'.map bytes) es ≠ none) :
    EventTree.openAfter (st.map bytes) (e :: es) ≠ none := by
  unfold readTag at h
  split at h
  · split_ifs at h with hn
    · rw [Prod.mk.injEq, Except.ok.injEq] at h
      obtain ⟨rfl, rfl⟩ := h
      cases st with
      | nil => cases hn
      | cons n st =>
        obtain rfl := Option.some.inj hn
        rw [List.map_cons, EventTree.openAfter, if_pos rfl]
        exact hes
    · cases h
  · obtain ⟨rfl, rfl⟩ := h
    rw [EventTree.openAfter]
    exact hes
  · obtain ⟨rfl, rfl⟩ := h
    rw [EventTree.openAfter]
    exact hes
  · dsimp only at h
    split_ifs at h with hc
    · obtain ⟨rfl, rfl⟩ := h
      rw [EventTree.openAfter]
      exact hes
    · obtain ⟨rfl, rfl⟩ := h
      exact hes

theorem readDoc_openAfter {n : ℕ} {st : List (List Char)} {cs : List Char} {es : List Event}
    (h : es.map .ok <+: readDoc n st cs) : EventTree.openAfter (st.map bytes) es ≠ none := by
  induction n, st, cs using readDoc.induct generalizing es with
  | case1 st cs =>
    rw [readDoc, List.prefix_nil, List.map_eq_nil_iff] at h
    rw [h, EventTree.openAfter]
    simp
  | case2 n st =>
    rw [readDoc, List.prefix_nil, List.map_eq_nil_iff] at h
    rw [h, EventTree.openAfter]
    simp
  | case3 n st cs inner hcut =>
    rw [readDoc, hcut] at h
    cases es with
    | nil => simp [EventTree.openAfter]
    | cons e es =>
      rw [List.map_cons, List.cons_prefix_cons] at h
      cases h.1
  | case4 n st cs inner c rest hcut ih =>
    rw [readDoc, hcut] at h
    cases es with
    | nil => simp [EventTree.openAfter]
    | cons e es =>
      rw [List.map_cons, List.cons_prefix_cons] at h
      exact readTag_openAfter (Prod.ext h.1.symm rfl) (ih h.2)
  | case5 n st c cs hc raw rest hcut hspace ih =>
    rw [readDoc.eq_4 _ _ _ _ hc, hcut] at h
    dsimp only at h
    rw [if_pos hspace] at h
    exact ih h
  | case6 n st c cs hc raw rest hcut hspace ih =>
    rw [readDoc.eq_4 _ _ _ _ hc, hcut] at h
    dsimp only at h
    rw [if_neg hspace] at h
    cases es with
    | nil => simp [EventTree.openAfter]
    | cons e es =>
      rw [List.map_cons, List.cons_prefix_cons] at h
      obtain rfl := Except.ok.inj h.1
      obtain ⟨s, hs⟩ : ∃ s, textEvent (trimBy isSpace raw) = .text s := by
        unfold textEvent
        split <;> exact ⟨_, rfl⟩
      rw [hs, EventTree.openAfter]
      exact ih h.2

theorem endsChecked_read (raw : Bytes) : EventTree.EndsChecked (read raw) := by
  intro es h
  unfold read at h
  split at h
  · exact readDoc_openAfter h
  · cases es with
    | nil => simp [EventTree.openAfter]
    | cons e es =>
      rw [List.map_cons, List.cons_prefix_cons] at h
      cases h.1

end RustPipeline.PlainXml
