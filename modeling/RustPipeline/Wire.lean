import RustPipeline.Foundation.Separated

set_option autoImplicit false

/-!
# The wire types

Addresses, provenance sets, payloads and the envelope.
-/
namespace RustPipeline.Wire

/-! ## Addresses -/

inductive AddressError where
  | empty
  | emptySegment (whole : String)
  | unbalanced (whole : String)
  | emptyName (whole : String)
  deriving DecidableEq

structure Segment where
  name : String
  key : Option String
  deriving DecidableEq

/-- The parts of the key between the `+`, without the empty ones. -/
def Segment.cacheKeys (s : Segment) : List String :=
  match s.key with
  | some k => (Separated.split '+' k).filter fun part => part ≠ ""
  | none => []

structure Address where
  segments : List Segment
  deriving DecidableEq

namespace Address

def flat (name : String) : Address := ⟨[⟨name, none⟩]⟩

/-- Cut at the first `[`; what stands before the final `]` is the key. -/
def parseSegment (raw : List Char) (whole : String) : Except AddressError Segment :=
  if raw = [] then .error (.emptySegment whole)
  else
    match raw.dropWhile (· != '[') with
    | [] => .ok ⟨String.ofList raw, none⟩
    | _ :: rest =>
      let name := raw.takeWhile (· != '[')
      if name = [] then .error (.emptyName whole)
      else if raw.getLast? = some ']' then
        .ok ⟨String.ofList name, some (String.ofList rest.dropLast)⟩
      else .error (.unbalanced whole)

/-- The scan of `parse`: open brackets, the segment being read, the segments before it. -/
def scan (whole : String) : List Char → ℕ → List Char → List Segment →
    Except AddressError (List Segment)
  | [], depth, current, segments =>
    if depth ≠ 0 then .error (.unbalanced whole)
    else (parseSegment current whole).map fun s => segments ++ [s]
  | c :: cs, depth, current, segments =>
    if c = '[' then scan whole cs (depth + 1) (current ++ [c]) segments
    else if c = ']' then
      if depth = 0 then .error (.unbalanced whole)
      else scan whole cs (depth - 1) (current ++ [c]) segments
    else if c = '.' ∧ depth = 0 then
      match parseSegment current whole with
      | .ok s => scan whole cs depth [] (segments ++ [s])
      | .error e => .error e
    else scan whole cs depth (current ++ [c]) segments

def parse (s : String) : Except AddressError Address :=
  if s = "" then .error .empty else (scan s s.toList 0 [] []).map Address.mk

/-- The first segment with a key, else the leading one. -/
def organismIndex (a : Address) : ℕ :=
  (a.segments.findIdx? fun s => s.key.isSome).getD 0

def organism (a : Address) : Option String := a.segments[a.organismIndex]?.map Segment.name

/-- `organism().unwrap_or_default()`. -/
def organismName (a : Address) : String := a.organism.getD ""

/-- The leading segment, which federation reads as the node. -/
def node (a : Address) : Option String := a.segments.head?.map Segment.name

/-- The segment before the organism. Outside, `none` is the panic of an index out of range. -/
def namespaceName (a : Address) : Option (Option String) :=
  if 0 < a.organismIndex then a.segments[0]?.map fun s => some s.name else some none

def instanceKey (a : Address) : Option String := a.segments[a.organismIndex]?.bind Segment.key

def cacheKeys (a : Address) : List String :=
  (a.segments[a.organismIndex]?.map Segment.cacheKeys).getD []

def buffer (a : Address) : Option Segment := a.segments[a.organismIndex + 1]?

/-- The segments up to the organism with its key. -/
def instanceAddress (a : Address) : Address := ⟨a.segments.take (a.organismIndex + 1)⟩

/-- `instance_address`: the slice panics where there is no segment at its end. -/
def instanceAddressOrPanic (a : Address) : Option Address :=
  if a.organismIndex < a.segments.length then some a.instanceAddress else none

end Address

def Segment.display (s : Segment) : List Char :=
  s.name.toList ++ match s.key with
    | some k => '[' :: k.toList ++ [']']
    | none => []

/-- `Display for Address`. -/
def Address.display (a : Address) : String :=
  String.ofList (['.'].intercalate (a.segments.map Segment.display))

/-! ## Provenance -/

structure Provenance where
  bitsLo : UInt64
  bitsHi : UInt64
  deriving DecidableEq

namespace Provenance

def empty : Provenance := ⟨0, 0⟩

def union (p q : Provenance) : Provenance := ⟨p.bitsLo ||| q.bitsLo, p.bitsHi ||| q.bitsHi⟩

/-- Bits of 128 and above are not representable. -/
def setBit (p : Provenance) (bit : UInt8) : Provenance :=
  if bit < 64 then { p with bitsLo := p.bitsLo ||| 1 <<< bit.toUInt64 }
  else if bit < 128 then { p with bitsHi := p.bitsHi ||| 1 <<< (bit - 64).toUInt64 }
  else p

def fromBit (bit : UInt8) : Provenance := empty.setBit bit

def withBit (p : Provenance) (bit : UInt8) : Provenance := p.setBit bit

/-- `union_with`, as the value it leaves behind. -/
def unionWith (p q : Provenance) : Provenance :=
  { p with bitsLo := p.bitsLo ||| q.bitsLo, bitsHi := p.bitsHi ||| q.bitsHi }

def isEmpty (p : Provenance) : Bool := p.bitsLo = 0 && p.bitsHi = 0

def containsBit (p : Provenance) (bit : UInt8) : Bool :=
  if bit < 64 then p.bitsLo &&& (1 <<< bit.toUInt64) != 0
  else if bit < 128 then p.bitsHi &&& (1 <<< (bit - 64).toUInt64) != 0
  else false

def intersects (p mask : Provenance) : Bool :=
  p.bitsLo &&& mask.bitsLo != 0 || p.bitsHi &&& mask.bitsHi != 0

theorem union_empty (p : Provenance) : p.union empty = p := by
  simp [union, empty]

theorem or_and_ne_zero (a b m : UInt64) :
    ((a ||| b) &&& m != 0) = (a &&& m != 0 || b &&& m != 0) := by
  have h : (a ||| b) &&& m = a &&& m ||| b &&& m :=
    UInt64.toBitVec_inj.mp BitVec.and_or_distrib_right
  rw [h, Bool.eq_iff_iff]
  simp only [bne_iff_ne, Bool.or_eq_true, ne_eq, UInt64.or_eq_zero_iff]
  exact not_and_or

theorem union_containsBit (p q : Provenance) (bit : UInt8) :
    (p.union q).containsBit bit = (p.containsBit bit || q.containsBit bit) := by
  unfold containsBit union
  split_ifs
  · exact or_and_ne_zero _ _ _
  · exact or_and_ne_zero _ _ _
  · rfl

theorem eq_empty_of_isEmpty {p : Provenance} (h : p.isEmpty = true) : p = empty := by
  obtain ⟨lo, hi⟩ := p
  simp only [isEmpty, Bool.and_eq_true, decide_eq_true_eq] at h
  rw [h.1, h.2]
  rfl

end Provenance

/-! ## Payloads -/

/-- The floating-point numbers are a parameter. -/
inductive PayloadValue (F : Type) where
  | record (fields : List (String × PayloadValue F))
  | seq (items : List (PayloadValue F))
  | text (s : String)
  | uint (n : UInt64)
  | sint (n : Int64)
  | real (x : F)
  | boolean (b : Bool)
  | blob (bytes : Text.Bytes)
  | nil

abbrev PayloadField (F : Type) := String × PayloadValue F

namespace PayloadValue

variable {F : Type}

/-- The first field of the name, of a record. -/
def get (v : PayloadValue F) (name : String) : Option (PayloadValue F) :=
  match v with
  | .record fields => (fields.find? fun f => f.1 = name).map Prod.snd
  | _ => Option.none

end PayloadValue

structure Payload (F : Type) where
  tag : String
  value : PayloadValue F

/-! ## The envelope -/

structure Meta where
  fromAddr : Address
  toAddr : Option Address
  thread : String
  provenance : Provenance
  deriving DecidableEq

structure Envelope (F : Type) where
  header : Meta
  payload : Payload F

end RustPipeline.Wire
