import Mathlib.Data.Finset.Basic
import RustPipeline.Foundation.Xml
import RustPipeline.Wire

set_option autoImplicit false

/-!
# Pipeline errors

An error text of the source is a constructor that carries the values its format string prints.
-/
namespace RustPipeline
open Text Xml Wire

inductive ParseMessage where
  | xml (e : XmlError)
  | address (e : AddressError)
  | unexpectedElement (name : Bytes)
  | noMessage
  | eofInMeta
  | expectedValue (found : Event)
  | expectedValueEof
  | eofInRec
  | eofInSeq
  | eofInScalar
  | invalidUint (s : String)
  | invalidSint (s : String)
  | invalidReal (s : String)
  | unknownKind (kind : String)
  | expectedEnd (name : Bytes) (found : Event)
  | expectedEndEof (name : Bytes)
  | provenanceLength (bytes : ℕ)
  | badProvenanceHex
  | oddBlobHex
  | badBlobHex

inductive ValidationMessage where
  | unexpectedElement (name rootTag : String)
  | missingElement (name rootTag : String)
  | xml (e : XmlError)
  | expectedRoot (rootTag found : String) (selfClosing : Bool)
  | unexpectedTag (name rootTag : String) (selfClosing : Bool)
  | noRoot

inductive PipelineError where
  | envelopeParse (m : ParseMessage)
  | missingMeta (field : String)
  | validation (m : ValidationMessage)
  | noRoute (routeKey : String)
  | peerViolation (fromAgent toAgent : String) (allowed : Finset String)
  | handler (m : String)

/-- How a computation of the decoder fails: with an error, by a panic, or for want of fuel. -/
inductive Fault where
  | err (e : PipelineError)
  | panic
  | stuck

namespace Fault

def parse (m : ParseMessage) : Fault := .err (.envelopeParse m)

end Fault

end RustPipeline
