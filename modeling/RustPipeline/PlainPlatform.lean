import RustPipeline.CodecImage
import RustPipeline.Foundation.PlainXml

set_option autoImplicit false

/-!
# A lawful platform

The small XML library, with whole numbers in decimal as the numbers of the wire and the lower case
of the ASCII letters.
-/
namespace RustPipeline.PlainPlatform
open Text Xml Wire Numerals Codec CodecImage

def plain : Platform UInt32 where
  xml := PlainXml.library
  showReal x := toString x.toNat
  readReal s := (fromStrRadix 10 32 s).map UInt32.ofNat
  lowercase s := String.ofList (s.toList.map Char.toLower)

theorem plain_lawful : Lawful plain where
  faithful := PlainXml.library_faithful
  real x := by
    change (fromStrRadix 10 32 (toString x.toNat)).map UInt32.ofNat = some x
    rw [fromStrRadix_toString x.toNat_lt]
    exact congrArg some UInt32.ofNat_toNat
  trimmed x := trimText_natText x.toNat

/-- An envelope reads back as its image, which for a concrete one is computed. -/
theorem decode_of_image {env out : Envelope UInt32} (h : wireImage env = .ok out) :
    decodeEnvelope plain (encodeEnvelope plain env) = .ok out := by
  rw [decode_encode plain_lawful, h]

end RustPipeline.PlainPlatform
