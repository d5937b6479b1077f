import RustPipeline.Foundation.Text

set_option autoImplicit false

/-!
# An XML library seen from its users

A program writes tags and texts through a writer and reads events back through a pull reader that
trims text. The two are parameters; `Faithful` is what a reader of its own writer's output gives.
-/
namespace RustPipeline.Xml
open Text

/-- The text of an error of the library. -/
abbrev XmlError := String

inductive Token where
  | start (name : String) (attrs : List (String × String))
  | empty (name : String) (attrs : List (String × String))
  | text (s : String)
  | stop (name : String)
  deriving DecidableEq

/-- Declarations stand for processing instructions and document types as well. -/
inductive Other where
  | cdata
  | comment
  | declaration
  deriving DecidableEq

/-- A text event is known by what unescaping it gives, an attribute by its raw value. -/
inductive Event where
  | start (name : Bytes) (attrs : List (Bytes × String))
  | empty (name : Bytes) (attrs : List (Bytes × String))
  | stop (name : Bytes)
  | text (unescaped : Except XmlError String)
  | other (kind : Other)

/-- What is left to read, up to the first error; the end of the list is the end of input. -/
abbrev Reader := List (Except XmlError Event)

structure Library where
  write : List Token → Bytes
  read : Bytes → Reader

/-! ## Escaping and trimming -/

def escapeChar (c : Char) : List Char :=
  if c = '<' then ['&', 'l', 't', ';']
  else if c = '>' then ['&', 'g', 't', ';']
  else if c = '&' then ['&', 'a', 'm', 'p', ';']
  else if c = '\'' then ['&', 'a', 'p', 'o', 's', ';']
  else if c = '"' then ['&', 'q', 'u', 'o', 't', ';']
  else [c]

def escapeChars (cs : List Char) : List Char := cs.flatMap escapeChar

def escape (s : String) : String := String.ofList (escapeChars s.toList)

def special (c : Char) : Bool := c = '<' || c = '>' || c = '&' || c = '\'' || c = '"'

def isSpace (c : Char) : Bool := c = ' ' || c = '\t' || c = '\n' || c = '\r'

def trimText (s : String) : String := String.ofList (trimBy isSpace s.toList)

theorem escapeChar_of_plain {c : Char} (h : special c = false) : escapeChar c = [c] := by
  simp only [special, Bool.or_eq_false_iff, decide_eq_false_iff_not] at h
  simp [escapeChar, h]

theorem escapeChar_of_special {c : Char} (h : special c = true) :
    2 ≤ (escapeChar c).length := by
  simp only [special, Bool.or_eq_true, decide_eq_true_eq] at h
  rcases h with (((h | h) | h) | h) | h <;> subst h <;> decide

theorem escapeChar_length (c : Char) : 1 ≤ (escapeChar c).length := by
  cases h : special c with
  | false => simp [escapeChar_of_plain h]
  | true => exact (escapeChar_of_special h).trans' (by decide)

theorem escapeChars_length (cs : List Char) : cs.length ≤ (escapeChars cs).length := by
  induction cs with
  | nil => exact Nat.zero_le _
  | cons c cs ih =>
    have := escapeChar_length c
    simp only [escapeChars, List.flatMap_cons, List.length_append, List.length_cons] at ih ⊢
    omega

theorem escapeChars_eq_self_iff (cs : List Char) :
    escapeChars cs = cs ↔ ∀ c ∈ cs, special c = false := by
  induction cs with
  | nil => simp [escapeChars]
  | cons c cs ih =>
    have hl := escapeChars_length cs
    rw [escapeChars, List.flatMap_cons]
    change escapeChar c ++ escapeChars cs = c :: cs ↔ _
    cases h : special c with
    | false => simp [escapeChar_of_plain h, ih, h]
    | true =>
      have hc := escapeChar_of_special h
      refine iff_of_false (fun he => ?_) (fun ha => ?_)
      · have := congrArg List.length he
        simp only [List.length_append, List.length_cons] at this
        omega
      · simpa [h] using ha c List.mem_cons_self

theorem escape_eq_self_iff (s : String) :
    escape s = s ↔ ∀ c ∈ s.toList, special c = false := by
  rw [← escapeChars_eq_self_iff, ← String.toList_inj, escape, String.toList_ofList]

/-- Only ampersands are special in the text. -/
def Ampersands (cs : List Char) : Prop := ∀ c ∈ cs, special c = true → c = '&'

theorem ampersands_escapeChar (c : Char) : Ampersands (escapeChar c) := by
  cases hc : special c with
  | false =>
    rw [escapeChar_of_plain hc]
    intro d hd h
    rw [List.mem_singleton.mp hd, hc] at h
    cases h
  | true =>
    simp only [special, Bool.or_eq_true, decide_eq_true_eq] at hc
    rcases hc with (((hc | hc) | hc) | hc) | hc <;> subst hc <;>
      simp [Ampersands, escapeChar, special]

theorem ampersands_escapeChars (cs : List Char) : Ampersands (escapeChars cs) := by
  intro d hd
  obtain ⟨c, _, hc⟩ := List.mem_flatMap.mp hd
  exact ampersands_escapeChar c d hc

theorem countP_escapeChar (c : Char) :
    (escapeChar c).countP special = if special c = true then 1 else 0 := by
  cases hc : special c with
  | false => simp [escapeChar_of_plain hc, hc]
  | true =>
    simp only [special, Bool.or_eq_true, decide_eq_true_eq] at hc
    rcases hc with (((hc | hc) | hc) | hc) | hc <;> subst hc <;> decide

/-- Escaping keeps the number of special characters. -/
theorem countP_escapeChars (cs : List Char) :
    (escapeChars cs).countP special = cs.countP special := by
  induction cs with
  | nil => rfl
  | cons c cs ih =>
    change (escapeChar c ++ escapeChars cs).countP special = _
    rw [List.countP_append, ih, countP_escapeChar, List.countP_cons]
    omega

/-- An ampersand grows by four characters. -/
theorem length_escapeChars {cs : List Char} (h : Ampersands cs) :
    (escapeChars cs).length = cs.length + 4 * cs.countP special := by
  induction cs with
  | nil => rfl
  | cons c cs ih =>
    have hrest := ih (fun d hd => h d (List.mem_cons_of_mem c hd))
    change (escapeChar c ++ escapeChars cs).length = _
    rw [List.length_append, hrest, List.length_cons, List.countP_cons]
    cases hc : special c with
    | false =>
      rw [escapeChar_of_plain hc]
      simp only [List.length_singleton, Bool.false_eq_true, ↓reduceIte]
      omega
    | true =>
      have hfive : (escapeChar c).length = 5 := by
        rw [h c List.mem_cons_self hc]
        rfl
      simp only [hfive, ↓reduceIte]
      omega

theorem toList_iterate_escape (n : ℕ) (s : String) :
    (escape^[n] s).toList = escapeChars^[n] s.toList := by
  induction n with
  | zero => rfl
  | succ n ih =>
    rw [Function.iterate_succ_apply', Function.iterate_succ_apply', escape, String.toList_ofList, ih]

theorem iterate_escapeChars (n : ℕ) {cs : List Char} (h : Ampersands cs) :
    Ampersands (escapeChars^[n] cs) ∧ (escapeChars^[n] cs).countP special = cs.countP special ∧
      (escapeChars^[n] cs).length = cs.length + 4 * n * cs.countP special := by
  induction n with
  | zero => exact ⟨h, rfl, by simp⟩
  | succ n ih =>
    obtain ⟨hamp, hcount, hlen⟩ := ih
    rw [Function.iterate_succ_apply']
    refine ⟨ampersands_escapeChars _, (countP_escapeChars _).trans hcount, ?_⟩
    rw [length_escapeChars hamp, hlen, hcount]
    ring

/-- After the first escape a text grows as much with every further one. -/
theorem length_iterate_escape (n : ℕ) (s : String) :
    (escape^[n] (escape s)).length = (escape s).length + 4 * n * s.toList.countP special := by
  have h := (iterate_escapeChars n (ampersands_escapeChars s.toList)).2.2
  rw [countP_escapeChars] at h
  rw [← String.length_toList, toList_iterate_escape, escape, String.toList_ofList,
    String.length_ofList, h]

theorem isSpace_isWhitespace {c : Char} (h : isSpace c = true) : isWhitespace c = true := by
  simp only [isSpace, Bool.or_eq_true, decide_eq_true_eq] at h
  rcases h with ((h | h) | h) | h <;> subst h <;> decide

theorem trimText_eq_self_of_trim {s : String} (h : trim s = s) : trimText s = s := by
  rw [trim_eq_self_iff] at h
  rw [trimText, trimBy_eq_self_of_imp (fun _ => isSpace_isWhitespace) h, String.ofList_toList]

/-! ## Reading back what was written -/

def readBackToken : Token → Reader
  | .start n as => [.ok (.start (utf8 n) (as.map fun a => (utf8 a.1, escape a.2)))]
  | .empty n as => [.ok (.empty (utf8 n) (as.map fun a => (utf8 a.1, escape a.2)))]
  | .text s => if trimText s = "" then [] else [.ok (.text (.ok (trimText s)))]
  | .stop n => [.ok (.stop (utf8 n))]

def readBack (doc : List Token) : Reader := doc.flatMap readBackToken

@[simp] theorem readBack_nil : readBack [] = [] := rfl

@[simp] theorem readBack_cons (t : Token) (doc : List Token) :
    readBack (t :: doc) = readBackToken t ++ readBack doc := List.flatMap_cons

@[simp] theorem readBack_append (a b : List Token) :
    readBack (a ++ b) = readBack a ++ readBack b := List.flatMap_append

def IsName (n : String) : Prop := n.toList ≠ [] ∧ ∀ c ∈ n.toList, c.isAlphanum = true

instance (n : String) : Decidable (IsName n) :=
  decidable_of_iff (n.toList ≠ [] ∧ n.toList.all Char.isAlphanum = true)
    (and_congr_right fun _ => List.all_eq_true)

def AttrsOk (as : List (String × String)) : Prop :=
  (as.map Prod.fst).Nodup ∧ ∀ k ∈ as.map Prod.fst, IsName k

instance (as : List (String × String)) : Decidable (AttrsOk as) :=
  inferInstanceAs (Decidable (_ ∧ _))

/-- Documents whose tags nest under plain names and whose texts fill their element; the first
    argument lists the elements still open. -/
inductive Balanced : List String → List Token → Prop where
  | nil : Balanced [] []
  | start {st : List String} {n : String} {as : List (String × String)} {rest : List Token}
      (hn : IsName n) (ha : AttrsOk as) (h : Balanced (n :: st) rest) :
      Balanced st (.start n as :: rest)
  | empty {st : List String} {n : String} {as : List (String × String)} {rest : List Token}
      (hn : IsName n) (ha : AttrsOk as) (h : Balanced st rest) :
      Balanced st (.empty n as :: rest)
  | text {st : List String} {n s : String} {rest : List Token} (h : Balanced st rest) :
      Balanced (n :: st) (.text s :: .stop n :: rest)
  | stop {st : List String} {n : String} {rest : List Token} (h : Balanced st rest) :
      Balanced (n :: st) (.stop n :: rest)

/-- Tags and attributes come back as written, attribute values still escaped; texts come back
    unescaped and trimmed, and not at all when nothing is left of them. -/
def Library.Faithful (x : Library) : Prop :=
  ∀ doc, Balanced [] doc → x.read (x.write doc) = readBack doc

end RustPipeline.Xml
