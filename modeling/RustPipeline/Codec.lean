import RustPipeline.Error
import RustPipeline.Foundation.Numerals

set_option autoImplicit false

/-!
# The envelope codec

`encodeEnvelope` and `decodeEnvelope` over a platform: an XML library, the text form of
floating-point numbers and `str::to_lowercase`, which routing uses. A slice inside a character is
a panic. Writing to memory cannot fail.
-/
namespace RustPipeline.Codec
open Text Xml Wire Numerals

structure Platform (F : Type) where
  xml : Library
  showReal : F → String
  readReal : String → Option F
  lowercase : String → String

variable {F : Type} (P : Platform F)

def envelopeNs : String := "https://xml-pipeline.org/ns/envelope/v1"

/-! ## Hexadecimal -/

def provToHex (p : Provenance) : String :=
  String.ofList (hexFixed 16 p.bitsHi.toNat ++ hexFixed 16 p.bitsLo.toNat)

def provFromHex (s : String) : Except Fault Provenance :=
  let s := trim s
  if s.utf8ByteSize ≠ 32 then .error (.parse (.provenanceLength s.utf8ByteSize))
  else
    match slice 0 16 s with
    | none => .error .panic
    | some hi =>
      match fromStrRadix 16 64 hi with
      | none => .error (.parse .badProvenanceHex)
      | some hi =>
        match slice 16 32 s with
        | none => .error .panic
        | some lo =>
          match fromStrRadix 16 64 lo with
          | none => .error (.parse .badProvenanceHex)
          | some lo => .ok ⟨UInt64.ofNat lo, UInt64.ofNat hi⟩

def toHex (bytes : Bytes) : String := String.ofList (bytes.flatMap fun b => hexFixed 2 b.toNat)

/-- The pairs at the given offsets; collecting stops at the first failure. -/
def hexPairs (s : String) : List ℕ → Except Fault Bytes
  | [] => .ok []
  | i :: is =>
    match slice i (i + 2) s with
    | none => .error .panic
    | some pair =>
      match fromStrRadix 16 8 pair with
      | none => .error (.parse .badBlobHex)
      | some n => (hexPairs s is).map (UInt8.ofNat n :: ·)

def pairOffsets (len : ℕ) : List ℕ := (List.range (len / 2)).map (2 * ·)

def fromHex (s : String) : Except Fault Bytes :=
  let s := trim s
  if s.utf8ByteSize % 2 ≠ 0 then .error (.parse .oddBlobHex)
  else hexPairs s (pairOffsets s.utf8ByteSize)

/-! ## Encoding -/

def textEl (tag text : String) : List Token := [.start tag [], .text text, .stop tag]

def scalar (kind text : String) : List Token :=
  [.start "v" [("k", kind)], .text text, .stop "v"]

mutual

def writeValue : PayloadValue F → List Token
  | .record fields => .start "v" [("k", "rec")] :: writeFields fields ++ [.stop "v"]
  | .seq items => .start "v" [("k", "seq")] :: writeItems items ++ [.stop "v"]
  | .text s => scalar "text" s
  | .uint n => scalar "uint" (toString n.toNat)
  | .sint n => scalar "sint" (toString n.toInt)
  | .real x => scalar "real" (P.showReal x)
  | .boolean b => scalar "bool" (if b then "true" else "false")
  | .blob bytes => scalar "blob" (toHex bytes)
  | .nil => [.empty "v" [("k", "nil")]]

def writeFields : List (PayloadField F) → List Token
  | [] => []
  | (name, value) :: fields =>
    .start "f" [("n", name)] :: writeValue value ++ .stop "f" :: writeFields fields

def writeItems : List (PayloadValue F) → List Token
  | [] => []
  | v :: items => writeValue v ++ writeItems items

end

def targetTokens : Option Address → List Token
  | some a => textEl "to" a.display
  | none => []

def provenanceTokens (p : Provenance) : List Token :=
  if p.isEmpty then [] else textEl "provenance" (provToHex p)

def metaTokens (m : Meta) : List Token :=
  .start "meta" [] :: (textEl "from" m.fromAddr.display ++ (targetTokens m.toAddr ++
    (textEl "thread" m.thread ++ (provenanceTokens m.provenance ++ [.stop "meta"]))))

def envelopeTokens (env : Envelope F) : List Token :=
  .start "message" [("xmlns", envelopeNs)] :: metaTokens env.header ++
    .start "payload" [("tag", env.payload.tag)] :: writeValue P env.payload.value ++
    [.stop "payload", .stop "message"]

def encodeEnvelope (env : Envelope F) : Bytes := P.xml.write (envelopeTokens P env)

/-! ## Decoding -/

/-- A parsing step returns what it read and what is left. -/
abbrev Read (α : Type) := Except Fault (α × Reader)

def getAttr (attrs : List (Bytes × String)) (key : String) : Option String :=
  (attrs.find? fun a => a.1 = utf8 key).map Prod.snd

/-- `get_attr(..).unwrap_or_default()`. -/
def attrText (attrs : List (Bytes × String)) (key : String) : String :=
  (getAttr attrs key).getD ""

def readScalar (acc : String) : Reader → Except Fault (String × Reader)
  | [] => .error (.parse .eofInScalar)
  | .error e :: _ => .error (.parse (.xml e))
  | .ok (.text (.ok s)) :: r => readScalar (acc ++ s) r
  | .ok (.text (.error e)) :: _ => .error (.parse (.xml e))
  | .ok (.stop name) :: r => if name = utf8 "v" then .ok (acc, r) else readScalar acc r
  | .ok _ :: r => readScalar acc r

def expectEnd (name : Bytes) : Reader → Except Fault Reader
  | [] => .error (.parse (.expectedEndEof name))
  | .error e :: _ => .error (.parse (.xml e))
  | .ok (.text _) :: r => expectEnd name r
  | .ok (.stop n) :: r =>
    if n = name then .ok r else .error (.parse (.expectedEnd name (.stop n)))
  | .ok e :: _ => .error (.parse (.expectedEnd name e))

def emptyValue (kind : String) : PayloadValue F :=
  if kind = "rec" then .record []
  else if kind = "seq" then .seq []
  else if kind = "text" then .text ""
  else if kind = "blob" then .blob []
  else .nil

/-- The kinds whose content is one text. -/
def scalarValue (kind s : String) : Except Fault (PayloadValue F) :=
  if kind = "text" then .ok (.text s)
  else if kind = "uint" then
    match fromStrRadix 10 64 s with
    | some n => .ok (.uint (UInt64.ofNat n))
    | none => .error (.parse (.invalidUint s))
  else if kind = "sint" then
    match parseSigned 63 s with
    | some z => .ok (.sint (Int64.ofInt z))
    | none => .error (.parse (.invalidSint s))
  else if kind = "real" then
    match P.readReal s with
    | some x => .ok (.real x)
    | none => .error (.parse (.invalidReal s))
  else if kind = "bool" then .ok (.boolean (s = "true"))
  else if kind = "blob" then (fromHex s).map .blob
  else .ok .nil

def scalarKinds : List String := ["text", "uint", "sint", "real", "bool", "blob", "nil"]

mutual

def expectValue : ℕ → Reader → Read (PayloadValue F)
  | 0, _ => .error .stuck
  | _ + 1, [] => .error (.parse .expectedValueEof)
  | _ + 1, .error e :: _ => .error (.parse (.xml e))
  | n + 1, .ok (.start name attrs) :: r =>
    if name = utf8 "v" then parseValue n (attrText attrs "k") r
    else .error (.parse (.expectedValue (.start name attrs)))
  | _ + 1, .ok (.empty name attrs) :: r =>
    if name = utf8 "v" then .ok (emptyValue (attrText attrs "k"), r)
    else .error (.parse (.expectedValue (.empty name attrs)))
  | n + 1, .ok (.text _) :: r => expectValue n r
  | _ + 1, .ok e :: _ => .error (.parse (.expectedValue e))

def parseValue : ℕ → String → Reader → Read (PayloadValue F)
  | 0, _, _ => .error .stuck
  | n + 1, kind, r =>
    if kind = "rec" then (recFields n [] r).map fun (fields, r) => (.record fields, r)
    else if kind = "seq" then (seqItems n [] r).map fun (items, r) => (.seq items, r)
    else if kind ∈ scalarKinds then
      match readScalar "" r with
      | .ok (s, r) => (scalarValue P kind s).map fun v => (v, r)
      | .error e => .error e
    else .error (.parse (.unknownKind kind))

/-- The loop over the fields of a record. -/
def recFields : ℕ → List (PayloadField F) → Reader → Read (List (PayloadField F))
  | 0, _, _ => .error .stuck
  | _ + 1, _, [] => .error (.parse .eofInRec)
  | _ + 1, _, .error e :: _ => .error (.parse (.xml e))
  | n + 1, fields, .ok (.start name attrs) :: r =>
    if name = utf8 "f" then
      match expectValue n r with
      | .ok (value, r) =>
        match expectEnd (utf8 "f") r with
        | .ok r => recFields n (fields ++ [(attrText attrs "n", value)]) r
        | .error e => .error e
      | .error e => .error e
    else recFields n fields r
  | n + 1, fields, .ok (.stop name) :: r =>
    if name = utf8 "v" then .ok (fields, r) else recFields n fields r
  | n + 1, fields, .ok _ :: r => recFields n fields r

/-- The loop over the items of a sequence. -/
def seqItems : ℕ → List (PayloadValue F) → Reader → Read (List (PayloadValue F))
  | 0, _, _ => .error .stuck
  | _ + 1, _, [] => .error (.parse .eofInSeq)
  | _ + 1, _, .error e :: _ => .error (.parse (.xml e))
  | n + 1, items, .ok (.start name attrs) :: r =>
    if name = utf8 "v" then
      match parseValue n (attrText attrs "k") r with
      | .ok (value, r) => seqItems n (items ++ [value]) r
      | .error e => .error e
    else seqItems n items r
  | n + 1, items, .ok (.empty name attrs) :: r =>
    if name = utf8 "v" then seqItems n (items ++ [emptyValue (attrText attrs "k")]) r
    else seqItems n items r
  | n + 1, items, .ok (.stop name) :: r =>
    if name = utf8 "v" then .ok (items, r) else seqItems n items r
  | n + 1, items, .ok _ :: r => seqItems n items r

end

/-- What the header reader has filled in so far. -/
structure MetaDraft where
  fromAddr : Option Address
  toAddr : Option Address
  thread : Option String
  provenance : Provenance

def MetaDraft.blank : MetaDraft := ⟨none, none, none, .empty⟩

def parseAddress (s : String) : Except Fault Address :=
  match Address.parse s with
  | .ok a => .ok a
  | .error e => .error (.parse (.address e))

/-- Store the text of one header field. -/
def setField (m : MetaDraft) (name : Bytes) (s : String) : Except Fault MetaDraft :=
  if name = utf8 "from" then (parseAddress s).map fun a => { m with fromAddr := some a }
  else if name = utf8 "to" then (parseAddress s).map fun a => { m with toAddr := some a }
  else if name = utf8 "thread" then .ok { m with thread := some s }
  else if name = utf8 "provenance" then
    (provFromHex s).map fun p => { m with provenance := p }
  else .ok m

def readMeta : Option Bytes → MetaDraft → Reader → Except Fault (MetaDraft × Reader)
  | _, _, [] => .error (.parse .eofInMeta)
  | _, _, .error e :: _ => .error (.parse (.xml e))
  | _, m, .ok (.start name _) :: r => readMeta (some name) m r
  | none, m, .ok (.text _) :: r => readMeta none m r
  | some _, _, .ok (.text (.error e)) :: _ => .error (.parse (.xml e))
  | some name, m, .ok (.text (.ok s)) :: r =>
    match setField m name (trim s) with
    | .ok m => readMeta (some name) m r
    | .error e => .error e
  | _, m, .ok (.stop name) :: r =>
    if name = utf8 "meta" then .ok (m, r) else readMeta none m r
  | field, m, .ok _ :: r => readMeta field m r

structure Draft (F : Type) where
  header : MetaDraft
  payload : Option (Payload F)
  foundMessage : Bool

def Draft.blank : Draft F := ⟨.blank, none, false⟩

/-- Fuel that suffices to read a value from a reader. -/
def valueFuel (r : Reader) : ℕ := 2 * r.length + 1

def decodeLoop : ℕ → Draft F → Reader → Except Fault (Draft F)
  | 0, _, _ => .error .stuck
  | _ + 1, d, [] => .ok d
  | _ + 1, _, .error e :: _ => .error (.parse (.xml e))
  | n + 1, d, .ok (.start name attrs) :: r =>
    if name = utf8 "message" then decodeLoop n { d with foundMessage := true } r
    else if name = utf8 "meta" then
      match readMeta none d.header r with
      | .ok (header, r) => decodeLoop n { d with header := header } r
      | .error e => .error e
    else if name = utf8 "payload" then
      match expectValue P (valueFuel r) r with
      | .ok (value, r) =>
        match expectEnd (utf8 "payload") r with
        | .ok r => decodeLoop n { d with payload := some ⟨attrText attrs "tag", value⟩ } r
        | .error e => .error e
      | .error e => .error e
    else .error (.parse (.unexpectedElement name))
  | n + 1, d, .ok (.stop name) :: r =>
    if name = utf8 "message" then .ok d else decodeLoop n d r
  | n + 1, d, .ok _ :: r => decodeLoop n d r

def missing (field : String) : Fault := .err (.missingMeta field)

def Draft.finish (d : Draft F) : Except Fault (Envelope F) :=
  if d.foundMessage then
    match d.header.fromAddr with
    | none => .error (missing "from")
    | some fromAddr =>
      match d.header.thread with
      | none => .error (missing "thread")
      | some thread =>
        match d.payload with
        | none => .error (missing "payload")
        | some payload =>
          .ok ⟨⟨fromAddr, d.header.toAddr, thread, d.header.provenance⟩, payload⟩
  else .error (.parse .noMessage)

def decodeReader (r : Reader) : Except Fault (Envelope F) :=
  match decodeLoop P (r.length + 1) .blank r with
  | .ok d => d.finish
  | .error e => .error e

def decodeEnvelope (raw : Bytes) : Except Fault (Envelope F) := decodeReader P (P.xml.read raw)

end RustPipeline.Codec
