import RustPipeline.PythonWriting

set_option autoImplicit false

/-!
# The tokens of an envelope

A property of tokens that the kinds of values, the numerals and the portable strings have is one of
every token of the document.
-/
namespace RustPipeline.EnvelopeTokens
open Text Xml Wire Markup PythonNumerals PythonWriting

variable {F : Type} {P : Codec.Platform F} {Q : Token → Prop} {p : String → Prop}

def kinds : List String := ["rec", "seq", "text", "uint", "sint", "real", "bool", "blob", "nil"]

/-- Tokens of these strings have the property. -/
structure Admits (Q : Token → Prop) (p : String → Prop) : Prop where
  kind (k : String) (h : k ∈ kinds) : Q (.start "v" [("k", k)])
  nil : Q (.empty "v" [("k", "nil")])
  attr (name key s : String) (hk : key ≠ "k") (h : p s) : Q (.start name [(key, s)])
  root : Q (.start "message" [("xmlns", Codec.envelopeNs)])
  bare (name : String) : Q (.start name [])
  text (s : String) (h : p s) : Q (.text s)
  numeral (s : String) (h : ∀ c ∈ s.toList, Solid c ∨ c = '-') : Q (.text s)
  word (b : Bool) : Q (.text (if b then "true" else "false"))
  stop (name : String) : Q (.stop name)

theorem all_cons {t : Token} {doc : List Token} (ht : Q t) (hd : ∀ u ∈ doc, Q u) :
    ∀ u ∈ t :: doc, Q u := by
  intro u hu
  rcases List.mem_cons.mp hu with rfl | hu
  · exact ht
  · exact hd u hu

theorem all_append {a b : List Token} (ha : ∀ t ∈ a, Q t) (hb : ∀ t ∈ b, Q t) :
    ∀ t ∈ a ++ b, Q t := by
  intro t ht
  rcases List.mem_append.mp ht with ht | ht
  · exact ha t ht
  · exact hb t ht

theorem all_nil : ∀ t ∈ ([] : List Token), Q t := fun _ ht => absurd ht List.not_mem_nil

namespace Admits

theorem intText (hQ : Admits Q p) (z : ℤ) : Q (.text (toString z)) :=
  hQ.numeral _ fun _ hc => solid_intText hc

theorem toHex (hQ : Admits Q p) (bytes : Bytes) : Q (.text (Codec.toHex bytes)) :=
  hQ.numeral _ fun _ hc => Or.inl (solid_toHex hc)

theorem provToHex (hQ : Admits Q p) (prov : Provenance) : Q (.text (Codec.provToHex prov)) :=
  hQ.numeral _ fun _ hc => Or.inl (solid_provToHex hc)

theorem scalar (hQ : Admits Q p) {kind s : String} (hk : kind ∈ kinds) (hs : Q (.text s)) :
    ∀ t ∈ Codec.scalar kind s, Q t :=
  all_cons (hQ.kind kind hk) (all_cons hs (all_cons (hQ.stop "v") all_nil))

theorem textEl (hQ : Admits Q p) (tag : String) {s : String} (hs : Q (.text s)) :
    ∀ t ∈ Codec.textEl tag s, Q t :=
  all_cons (hQ.bare tag) (all_cons hs (all_cons (hQ.stop tag) all_nil))

end Admits

mutual

theorem all_writeValue (hQ : Admits Q p) : ∀ v : PayloadValue F, PortableValue p v →
    ∀ t ∈ Codec.writeValue P v, Q t
  | .record fields, h => all_cons (hQ.kind "rec" (by decide))
      (all_append (all_writeFields hQ fields h) (all_cons (hQ.stop "v") all_nil))
  | .seq items, h => all_cons (hQ.kind "seq" (by decide))
      (all_append (all_writeItems hQ items h) (all_cons (hQ.stop "v") all_nil))
  | .text s, h => hQ.scalar (by decide) (hQ.text s h)
  | .uint n, _ => hQ.scalar (by decide) (hQ.intText (n.toNat : ℤ))
  | .sint n, _ => hQ.scalar (by decide) (hQ.intText n.toInt)
  | .real _, h => h.elim
  | .boolean b, _ => hQ.scalar (by decide) (hQ.word b)
  | .blob bytes, _ => hQ.scalar (by decide) (hQ.toHex bytes)
  | .nil, _ => all_cons hQ.nil all_nil

theorem all_writeFields (hQ : Admits Q p) : ∀ fields : List (PayloadField F),
    PortableFields p fields → ∀ t ∈ Codec.writeFields P fields, Q t
  | [], _ => all_nil
  | (name, value) :: fields, h => by
    rw [Codec.writeFields]
    exact all_append (all_cons (hQ.attr "f" "n" name (by decide) h.1)
      (all_writeValue hQ value h.2.1)) (all_cons (hQ.stop "f") (all_writeFields hQ fields h.2.2))

theorem all_writeItems (hQ : Admits Q p) : ∀ items : List (PayloadValue F),
    PortableItems p items → ∀ t ∈ Codec.writeItems P items, Q t
  | [], _ => all_nil
  | v :: items, h => all_append (all_writeValue hQ v h.1) (all_writeItems hQ items h.2)

end

/-- No floating-point numbers, and this of every string of the envelope. -/
structure Portable (p : String → Prop) (env : Envelope F) : Prop where
  fromAddr : p env.header.fromAddr.display
  toAddr : ∀ a ∈ env.header.toAddr, p a.display
  thread : p env.header.thread
  tag : p env.payload.tag
  value : PortableValue p env.payload.value

theorem all_metaTokens (hQ : Admits Q p) {env : Envelope F} (h : Portable p env) :
    ∀ t ∈ Codec.metaTokens env.header, Q t := by
  have hto : ∀ t ∈ Codec.targetTokens env.header.toAddr, Q t := by
    cases ht : env.header.toAddr with
    | none => exact all_nil
    | some a => exact hQ.textEl "to" (hQ.text _ (h.toAddr a ht))
  have hprov : ∀ t ∈ Codec.provenanceTokens env.header.provenance, Q t := by
    unfold Codec.provenanceTokens
    split_ifs
    · exact all_nil
    · exact hQ.textEl "provenance" (hQ.provToHex _)
  exact all_cons (hQ.bare "meta") (all_append (hQ.textEl "from" (hQ.text _ h.fromAddr))
    (all_append hto (all_append (hQ.textEl "thread" (hQ.text _ h.thread))
      (all_append hprov (all_cons (hQ.stop "meta") all_nil)))))

theorem all_envelopeTokens (hQ : Admits Q p) {env : Envelope F} (h : Portable p env) :
    ∀ t ∈ Codec.envelopeTokens P env, Q t := by
  have htag := hQ.attr "payload" "tag" env.payload.tag (by decide) h.tag
  rw [Codec.envelopeTokens]
  exact all_append (all_append (all_cons hQ.root (all_metaTokens hQ h))
    (all_cons htag (all_writeValue hQ _ h.value)))
      (all_cons (hQ.stop "payload") (all_cons (hQ.stop "message") all_nil))

/-! ## Instances -/

/-- Strings that the encoders choose themselves. -/
def words : List String := Codec.envelopeNs :: "true" :: "false" :: kinds

theorem admits_all (hw : ∀ s ∈ words, p s)
    (hn : ∀ s : String, (∀ c ∈ s.toList, Solid c ∨ c = '-') → p s) :
    Admits (Token.All p) p where
  kind k h a ha := by
    rw [List.mem_singleton.mp ha]
    exact hw k (List.mem_cons_of_mem _ (List.mem_cons_of_mem _ (List.mem_cons_of_mem _ h)))
  nil a ha := by
    rw [List.mem_singleton.mp ha]
    exact hw "nil" (by decide)
  attr name key s _ h a ha := by
    rw [List.mem_singleton.mp ha]
    exact h
  root a ha := by
    rw [List.mem_singleton.mp ha]
    exact hw _ List.mem_cons_self
  bare name a ha := absurd ha List.not_mem_nil
  text s h := h
  numeral s h := hn s h
  word b := by
    cases b with
    | true => exact hw "true" (by decide)
    | false => exact hw "false" (by decide)
  stop name := trivial

theorem admits_xmlText : Admits (Token.All XmlText) XmlText := by
  apply admits_all
  · intro s hs
    simp only [words, kinds, List.mem_cons, List.not_mem_nil, or_false] at hs
    rcases hs with rfl | rfl | rfl | rfl | rfl | rfl | rfl | rfl | rfl | rfl | rfl | rfl <;> decide
  · intro s hs c hc
    rcases hs c hc with h | rfl
    · have h1 := h.visible
      have h2 := h.ascii
      simp only [xmlChar, Bool.or_eq_true, Bool.and_eq_true, decide_eq_true_eq]
      omega
    · decide

theorem admits_quiet : Admits (Token.All Quiet) Quiet := by
  apply admits_all
  · intro s hs
    simp only [words, kinds, List.mem_cons, List.not_mem_nil, or_false] at hs
    rcases hs with rfl | rfl | rfl | rfl | rfl | rfl | rfl | rfl | rfl | rfl | rfl | rfl <;> decide
  · intro s hs c hc
    rcases hs c hc with h | rfl
    · have h1 := h.visible
      have h2 := h.plain
      simp only [List.mem_cons, List.not_mem_nil, or_false, not_or] at h2
      simp only [quiet, List.mem_cons, List.not_mem_nil, or_false, not_or, decide_eq_true_eq]
      refine ⟨h2.2.2.2.2.2.2.2.2.1, h2.2.2.2.2.2.2.2.2.2, ?_, ?_, ?_⟩ <;> rintro rfl <;>
        exact absurd h1 (by decide)
    · decide

theorem wellformed_envelope {env : Envelope F} (h : Portable XmlText env) :
    Wellformed (Codec.envelopeTokens P env) :=
  ⟨CodecImage.balanced_envelopeTokens env, all_envelopeTokens admits_xmlText h⟩

end RustPipeline.EnvelopeTokens
