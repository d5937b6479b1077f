import RustPipeline.Foundation.Markup

set_option autoImplicit false

/-!
# Element trees

What a namespace-aware XML parser builds from a document: tags with their namespace in braces,
normalized attribute values, and for every element its children and the text before the first.
-/
namespace RustPipeline.ElementTree
open Text Xml Markup

structure Element where
  tag : String
  attrs : List (String × String)
  text : Option String
  children : List Element

def Element.get (e : Element) (key : String) : Option String := e.attrs.lookup key

def qualified (ns name : String) : String :=
  if ns = "" then name else String.ofList ('\x7b' :: ns.toList ++ '\x7d' :: name.toList)

def normalizeChar (c : Char) : Char := if c = '\t' || c = '\n' || c = '\r' then ' ' else c

/-- White space in an attribute value is read as blanks. -/
def normalizeValue (s : String) : String := String.ofList (s.toList.map normalizeChar)

/-- An element without text has none, not an empty one. -/
def textOf (s : String) : Option String := if s = "" then none else some s

/-- An element whose end tag is still to come, with the default namespace inside it. -/
structure Frame where
  ns : String
  tag : String
  attrs : List (String × String)
  text : String
  children : List Element

def isDeclaration (a : String × String) : Bool := a.1 = "xmlns"

def opened (ns name : String) (attrs : List (String × String)) : Frame :=
  let inner := (attrs.lookup "xmlns").getD ns
  ⟨inner, qualified inner name,
    (attrs.filter fun a => !isDeclaration a).map fun a => (a.1, normalizeValue a.2), "", []⟩

def Frame.closed (f : Frame) : Element :=
  ⟨f.tag, f.attrs, textOf f.text, f.children⟩

/-- Text behind a child is the tail of that child, which is not kept here. -/
def Frame.addText (f : Frame) (s : String) : Frame :=
  if f.children.isEmpty then { f with text := f.text ++ s } else f

def Frame.addChild (f : Frame) (e : Element) : Frame := { f with children := f.children ++ [e] }

def scope : List Frame → String
  | [] => ""
  | f :: _ => f.ns

/-- The elements still open, innermost first, and what is left of the document. -/
def build : List Frame → List Token → Option Element
  | _, [] => none
  | st, .start n as :: rest => build (opened (scope st) n as :: st) rest
  | [], .empty n as :: rest => if rest.isEmpty then some (opened "" n as).closed else none
  | f :: st, .empty n as :: rest => build (f.addChild (opened f.ns n as).closed :: st) rest
  | [], .text _ :: _ => none
  | f :: st, .text s :: rest => build (f.addText s :: st) rest
  | [], .stop _ :: _ => none
  | [f], .stop _ :: rest => if rest.isEmpty then some f.closed else none
  | f :: g :: st, .stop _ :: rest => build (g.addChild f.closed :: st) rest

def infoset (doc : List Token) : Option Element := build [] doc

/-- The parser finds this document behind what the library writes for it. -/
def ParsesWritten (parse : Bytes → Option Element) (x : Library) (doc : List Token) : Prop :=
  Wellformed doc → parse (x.write doc) = infoset doc

/-! ## Elements of a document -/

def leaf (ns name : String) (attrs : List (String × String)) (s : String) : Element :=
  ⟨qualified ns name, attrs.map fun a => (a.1, normalizeValue a.2), textOf s, []⟩

def node (ns name : String) (attrs : List (String × String)) (children : List Element) : Element :=
  ⟨qualified ns name, attrs.map fun a => (a.1, normalizeValue a.2), none, children⟩

/-- No namespace is declared. -/
def Undeclared (attrs : List (String × String)) : Prop := ∀ a ∈ attrs, a.1 ≠ "xmlns"

theorem opened_of_undeclared {as : List (String × String)} (h : Undeclared as)
    (ns name : String) : opened ns name as =
      ⟨ns, qualified ns name, as.map fun a => (a.1, normalizeValue a.2), "", []⟩ := by
  have hl : as.lookup "xmlns" = none := by
    rw [List.lookup_eq_none_iff]
    intro a ha
    simp [(h a ha).symm]
  have hf : (as.filter fun a => !isDeclaration a) = as := by
    rw [List.filter_eq_self]
    intro a ha
    simp [isDeclaration, h a ha]
  rw [opened, hl, hf]
  rfl

theorem build_leaf {as : List (String × String)} (h : Undeclared as) (f : Frame) (st : List Frame)
    (name s : String) (rest : List Token) :
    build (f :: st) (.start name as :: .text s :: .stop name :: rest) =
      build (f.addChild (leaf f.ns name as s) :: st) rest := by
  rw [build, scope, opened_of_undeclared h, build, build]
  simp [Frame.addText, Frame.closed, leaf]

theorem build_empty {as : List (String × String)} (h : Undeclared as) (f : Frame) (st : List Frame)
    (name : String) (rest : List Token) : build (f :: st) (.empty name as :: rest) =
      build (f.addChild (node f.ns name as []) :: st) rest := by
  rw [build, opened_of_undeclared h]
  rfl

/-- Some tokens put these elements behind the children of the element that is open. -/
def Puts (doc : List Token) (es : String → List Element) : Prop :=
  ∀ (f : Frame) (st : List Frame) (rest : List Token),
    build (f :: st) (doc ++ rest) =
      build ({ f with children := f.children ++ es f.ns } :: st) rest

theorem Puts.nil : Puts [] fun _ => [] := by
  intro f st rest
  simp

theorem Puts.append {a b : List Token} {x y : String → List Element} (ha : Puts a x)
    (hb : Puts b y) : Puts (a ++ b) fun ns => x ns ++ y ns := by
  intro f st rest
  rw [List.append_assoc, ha, hb, List.append_assoc]

theorem Puts.leaf {as : List (String × String)} (h : Undeclared as) (name s : String) :
    Puts [.start name as, .text s, .stop name] fun ns => [leaf ns name as s] := by
  intro f st rest
  exact build_leaf h f st name s rest

theorem Puts.empty {as : List (String × String)} (h : Undeclared as) (name : String) :
    Puts [.empty name as] fun ns => [node ns name as []] := by
  intro f st rest
  exact build_empty h f st name rest

theorem Puts.node {as : List (String × String)} (h : Undeclared as) (name : String)
    {doc : List Token} {es : String → List Element} (hd : Puts doc es) :
    Puts (.start name as :: (doc ++ [.stop name])) fun ns => [node ns name as (es ns)] := by
  intro f st rest
  rw [List.cons_append, build, scope, opened_of_undeclared h, List.append_assoc, hd,
    List.singleton_append, build]
  rfl

/-- A document with one declaration of a namespace, at its root. -/
theorem infoset_root {doc : List Token} {es : String → List Element} (hd : Puts doc es)
    (name ns : String) : infoset (.start name [("xmlns", ns)] :: (doc ++ [.stop name])) =
      some (node ns name [] (es ns)) := by
  rw [infoset, build, hd, build]
  rfl

end RustPipeline.ElementTree
