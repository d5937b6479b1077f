import RustPipeline.Codec
import RustPipeline.PythonAddress
import RustPipeline.Foundation.ElementTree

set_option autoImplicit false

/-!
# The envelope codec of the Python mirror

`encode_envelope` and `decode_envelope` of `rust_pipeline_federation`. The parser of ElementTree,
the decimal values of Unicode digits and the text form of floats are parameters.
-/
namespace RustPipeline.PythonCodec
open Text Xml Wire Numerals Markup ElementTree PythonAddress

inductive PyValue (F : Type) where
  | record (fields : List (Option String × PyValue F))
  | seq (items : List (PyValue F))
  | text (s : String)
  | uint (n : ℤ)
  | sint (n : ℤ)
  | real (x : F)
  | boolean (b : Bool)
  | blob (b : Bytes)
  | nil

/-- Decoding leaves the name of a field without an attribute `None`. -/
abbrev PyField (F : Type) := Option String × PyValue F

structure PyPayload (F : Type) where
  tag : Option String
  value : PyValue F

structure PyMeta where
  fromAddr : Address
  toAddr : Option Address
  thread : String
  provenance : ℤ

structure PyEnvelope (F : Type) where
  header : PyMeta
  payload : PyPayload F

structure Python (F : Type) where
  fromstring : Bytes → Option Element
  decimal : Char → Option ℕ
  repr : F → String
  float : String → Option F

variable {F : Type} (py : Python F)

/-! ## Encoding -/

def tagged (kind body : String) : String := "<v k=\"" ++ kind ++ "\">" ++ body ++ "</v>"

/-- `quoteattr` fails on `None`. -/
def quoted : Option String → Except PyError String
  | some n => .ok (quoteattr n)
  | none => .error .library

mutual

def encodeValue : PyValue F → Except PyError String
  | .record fields => (encodeFields fields).map (tagged "rec")
  | .seq items => (encodeItems items).map (tagged "seq")
  | .text s => .ok (tagged "text" (saxEscape s))
  | .uint n => .ok (tagged "uint" (toString n))
  | .sint n => .ok (tagged "sint" (toString n))
  | .real x => .ok (tagged "real" (py.repr x))
  | .boolean b => .ok (tagged "bool" (if b then "true" else "false"))
  | .blob b => .ok (tagged "blob" (Codec.toHex b))
  | .nil => .ok "<v k=\"nil\"/>"

def encodeFields : List (PyField F) → Except PyError String
  | [] => .ok ""
  | (n, val) :: fields => do
    let name ← quoted n
    let inner ← encodeValue val
    let rest ← encodeFields fields
    return "<f n=" ++ name ++ ">" ++ inner ++ "</f>" ++ rest

def encodeItems : List (PyValue F) → Except PyError String
  | [] => .ok ""
  | x :: items => do
    let inner ← encodeValue x
    let rest ← encodeItems items
    return inner ++ rest

end

/-- The two halves in hexadecimal; shifting rounds down. -/
def provenanceHex (p : ℤ) : String :=
  let hi := p / 2 ^ 64 % 2 ^ 64
  let lo := p % 2 ^ 64
  String.ofList (hexFixed 16 hi.toNat ++ hexFixed 16 lo.toNat)

def encodeTarget : Option Address → String
  | some a => "<to>" ++ saxEscape (str a) ++ "</to>"
  | none => ""

def encodeMeta (m : PyMeta) : String :=
  "<from>" ++ saxEscape (str m.fromAddr) ++ "</from>" ++ encodeTarget m.toAddr ++
    ("<thread>" ++ saxEscape m.thread ++ "</thread>") ++
    if m.provenance = 0 then ""
    else "<provenance>" ++ provenanceHex m.provenance ++ "</provenance>"

def encodeEnvelope (env : PyEnvelope F) : Except PyError Bytes := do
  let tag ← quoted env.payload.tag
  let value ← encodeValue py env.payload.value
  return utf8 ("<message xmlns=\"" ++ Codec.envelopeNs ++ "\"><meta>" ++ encodeMeta env.header ++
    "</meta>" ++ "<payload tag=" ++ tag ++ ">" ++ value ++ "</payload></message>")

/-! ## Numerals -/

def letterValue (c : Char) : Option ℕ :=
  let n := c.toNat
  if 97 ≤ n ∧ n ≤ 122 then some (n - 87)
  else if 65 ≤ n ∧ n ≤ 90 then some (n - 55)
  else none

def digit (base : ℕ) (c : Char) : Option ℕ :=
  ((py.decimal c).orElse fun _ => letterValue c).filter (· < base)

/-- Digits with single underscores between them; the flag says that a digit stands before. -/
def digits (base : ℕ) : ℕ → Bool → List Char → Option ℕ
  | acc, after, [] => if after then some acc else none
  | acc, after, c :: cs =>
    if c = '_' then if after then digits base acc false cs else none
    else (digit py base c).bind fun d => digits base (base * acc + d) true cs

/-- In base 16 a prefix `0x` is dropped, and one underscore behind it. -/
def dropPrefix (base : ℕ) : List Char → List Char
  | '0' :: x :: cs =>
    if base = 16 ∧ (x = 'x' ∨ x = 'X') then
      match cs with
      | '_' :: r => r
      | r => r
    else '0' :: x :: cs
  | cs => cs

/-- `int(s, base)` for the bases 10 and 16. -/
def int (base : ℕ) (s : String) : Option ℤ :=
  match trimBy isWhitespace s.toList with
  | '-' :: cs => (digits py base 0 false (dropPrefix base cs)).map fun n : ℕ => -(n : ℤ)
  | '+' :: cs => (digits py base 0 false (dropPrefix base cs)).map fun n : ℕ => (n : ℤ)
  | cs => (digits py base 0 false (dropPrefix base cs)).map fun n : ℕ => (n : ℤ)

/-- White space of ASCII. -/
def isBlank (c : Char) : Bool := (9 ≤ c.toNat && c.toNat ≤ 13) || c.toNat = 32

/-- `bytes.fromhex`: pairs of digits, with white space between them. -/
def fromhex : List Char → Option Bytes
  | [] => some []
  | c :: cs =>
    if isBlank c then fromhex cs
    else
      match cs with
      | [] => none
      | d :: cs => do
        let hi ← digitValue 16 c
        let lo ← digitValue 16 d
        let rest ← fromhex cs
        return UInt8.ofNat (16 * hi + lo) :: rest

/-! ## Decoding -/

/-- What stands behind the last closing brace. -/
def localName (tag : String) : String := String.ofList (tag.toList.rtakeWhile (· ≠ '\x7d'))

/-- `next` fails on an empty iterator. -/
def child (name : String) (e : Element) : Except PyError Element :=
  match e.children.find? fun c => localName c.tag = name with
  | some c => .ok c
  | none => .error .library

/-- `text or default`. -/
def textOr (text : Option String) (default : String) : String :=
  match text with
  | some s => if s = "" then default else s
  | none => default

def orRaise {α : Type} : Option α → Except PyError α
  | some a => .ok a
  | none => .error .library

def scalarValue (kind : Option String) (text : Option String) : Except PyError (PyValue F) :=
  if kind = some "text" then .ok (.text (textOr text ""))
  else if kind = some "uint" then (orRaise (int py 10 (textOr text "0"))).map .uint
  else if kind = some "sint" then (orRaise (int py 10 (textOr text "0"))).map .sint
  else if kind = some "real" then (orRaise (py.float (textOr text "0"))).map .real
  else if kind = some "bool" then .ok (.boolean (textOr text "" = "true"))
  else if kind = some "blob" then (orRaise (fromhex (textOr text "").toList)).map .blob
  else if kind = some "nil" then .ok .nil
  else .error (.value ("unknown value kind: " ++ kind.getD "None"))

mutual

def decodeValue : Element → Except PyError (PyValue F)
  | ⟨_, attrs, text, children⟩ =>
    let k := attrs.lookup "k"
    if k = some "rec" then (decodeFields children).map .record
    else if k = some "seq" then (decodeItems children).map .seq
    else scalarValue py k text

def decodeFields : List Element → Except PyError (List (PyField F))
  | [] => .ok []
  | ⟨tag, attrs, _, children⟩ :: els =>
    if localName tag ≠ "f" then decodeFields els
    else do
      let value ← decodeFirst children
      let rest ← decodeFields els
      return (attrs.lookup "n", value) :: rest

def decodeItems : List Element → Except PyError (List (PyValue F))
  | [] => .ok []
  | c :: els =>
    if localName c.tag = "v" then do
      let value ← decodeValue c
      let rest ← decodeItems els
      return value :: rest
    else decodeItems els

/-- The first value among the children of an element, or nothing. -/
def decodeFirst : List Element → Except PyError (PyValue F)
  | [] => .ok .nil
  | c :: els => if localName c.tag = "v" then decodeValue c else decodeFirst els

end

structure PyDraft where
  fromAddr : Option Address
  toAddr : Option Address
  thread : Option String
  provenance : ℤ

def PyDraft.blank : PyDraft := ⟨none, none, none, 0⟩

/-- `Address.parse(c.text)`, which fails on `None`. -/
def parseText (text : Option String) : Except PyError Address :=
  (orRaise text).bind parse

def readProvenance (text : Option String) : Except PyError ℤ := do
  let h := strip (textOr text "")
  let hi ← orRaise (int py 16 (String.ofList (h.toList.take 16)))
  let lo ← orRaise (int py 16 (String.ofList (h.toList.drop 16)))
  return (hi * 2 ^ 64).lor lo

def readMetaChild (d : PyDraft) (c : Element) : Except PyError PyDraft :=
  let t := localName c.tag
  if t = "from" then (parseText c.text).map fun a => { d with fromAddr := some a }
  else if t = "to" then (parseText c.text).map fun a => { d with toAddr := some a }
  else if t = "thread" then .ok { d with thread := c.text }
  else if t = "provenance" then
    (readProvenance py c.text).map fun p => { d with provenance := p }
  else .ok d

def PyDraft.finish (d : PyDraft) (payload : PyPayload F) : Except PyError (PyEnvelope F) :=
  match d.fromAddr, d.thread with
  | some a, some thread => .ok ⟨⟨a, d.toAddr, thread, d.provenance⟩, payload⟩
  | _, _ => .error (.value "missing required meta")

def decodeRoot (root : Element) : Except PyError (PyEnvelope F) := do
  if localName root.tag ≠ "message" then throw (.value "not a <message>")
  let metaEl ← child "meta" root
  let d ← metaEl.children.foldlM (readMetaChild py) PyDraft.blank
  let payloadEl ← child "payload" root
  let value ← decodeFirst py payloadEl.children
  d.finish ⟨payloadEl.get "tag", value⟩

def decodeEnvelope (raw : Bytes) : Except PyError (PyEnvelope F) :=
  (orRaise (py.fromstring raw)).bind (decodeRoot py)

end RustPipeline.PythonCodec
