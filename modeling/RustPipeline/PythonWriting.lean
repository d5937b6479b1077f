import RustPipeline.PythonNumerals

set_option autoImplicit false

/-!
# What the Python mirror writes

Its encoder writes the tokens of the other side, with its own escaping.
-/
namespace RustPipeline.PythonWriting
open Text Xml Wire Numerals Markup PythonAddress PythonCodec PythonNumerals

variable {F : Type} {py : Python F} {P : Codec.Platform F} {p : String → Prop}

/-! ## The same envelope on the other side -/

section Mirror

-- what becomes of the names of fields
variable (g : String → String)

mutual

def mirrorValue : PayloadValue F → PyValue F
  | .record fields => .record (mirrorFields fields)
  | .seq items => .seq (mirrorItems items)
  | .text s => .text s
  | .uint n => .uint n.toNat
  | .sint n => .sint n.toInt
  | .real x => .real x
  | .boolean b => .boolean b
  | .blob bytes => .blob bytes
  | .nil => .nil

def mirrorFields : List (PayloadField F) → List (PyField F)
  | [] => []
  | (name, value) :: fields => (some (g name), mirrorValue value) :: mirrorFields fields

def mirrorItems : List (PayloadValue F) → List (PyValue F)
  | [] => []
  | v :: items => mirrorValue v :: mirrorItems items

end

end Mirror

def mirrorMeta (m : Meta) : PyMeta := ⟨m.fromAddr, m.toAddr, m.thread, number m.provenance⟩

/-- The envelope as the mirror holds it. -/
def mirror (env : Envelope F) : PyEnvelope F :=
  ⟨mirrorMeta env.header, ⟨some env.payload.tag, mirrorValue id env.payload.value⟩⟩

section Each

-- what is asked of names, of texts and of floating-point numbers
variable (onName onText : String → Prop) (onReal : F → Prop)

mutual

def EachValue : PayloadValue F → Prop
  | .record fields => EachField fields
  | .seq items => EachItem items
  | .text s => onText s
  | .real x => onReal x
  | _ => True

def EachField : List (PayloadField F) → Prop
  | [] => True
  | (name, value) :: fields => onName name ∧ EachValue value ∧ EachField fields

def EachItem : List (PayloadValue F) → Prop
  | [] => True
  | v :: items => EachValue v ∧ EachItem items

end

end Each

/-- No floating-point numbers, and this of every name and text. -/
abbrev PortableValue (p : String → Prop) : PayloadValue F → Prop := EachValue p p fun _ => False

abbrev PortableFields (p : String → Prop) : List (PayloadField F) → Prop :=
  EachField p p fun _ => False

abbrev PortableItems (p : String → Prop) : List (PayloadValue F) → Prop :=
  EachItem p p fun _ => False

/-! ## Writing -/

theorem saxEscape_of_plain {s : String} (h : ∀ c ∈ s.toList, c ∉ ['&', '<', '>']) :
    saxEscape s = s := by
  rw [← String.toList_inj, saxEscape, String.toList_ofList]
  refine (List.flatMap_congr (g := fun c => [c]) fun c hc => ?_).trans (List.flatMap_singleton' _)
  have := h c hc
  simp only [List.mem_cons, List.not_mem_nil, or_false, not_or] at this
  simp [saxChar, this]

theorem saxEscape_of_solid {s : String} (h : ∀ c ∈ s.toList, Solid c ∨ c = '-') :
    saxEscape s = s := by
  apply saxEscape_of_plain
  intro c hc
  rcases h c hc with hs | rfl
  · have hp := hs.plain
    simp only [List.mem_cons, List.not_mem_nil, or_false, not_or] at hp ⊢
    exact ⟨hp.2.2.2.2.2.1, hp.2.2.2.2.2.2.1, hp.2.2.2.2.2.2.2.1⟩
  · decide

theorem saxEscape_intText (z : ℤ) : saxEscape (toString z) = toString z :=
  saxEscape_of_solid fun _ hc => solid_intText hc

theorem saxEscape_toHex (bytes : Bytes) : saxEscape (Codec.toHex bytes) = Codec.toHex bytes :=
  saxEscape_of_solid fun _ hc => Or.inl (solid_toHex hc)

theorem saxEscape_provToHex (prov : Provenance) :
    saxEscape (Codec.provToHex prov) = Codec.provToHex prov :=
  saxEscape_of_solid fun _ hc => Or.inl (solid_provToHex hc)

theorem scalar_render (kind s : String) (hq : quoteattr kind = "\"" ++ kind ++ "\"") :
    render (Codec.scalar kind s) = tagged kind (saxEscape s) := by
  rw [← String.toList_inj]
  simp [Codec.scalar, markup, attrs, hq, tagged]

theorem container_render (kind : String) (doc : List Token)
    (hq : quoteattr kind = "\"" ++ kind ++ "\"") :
    render (.start "v" [("k", kind)] :: doc ++ [.stop "v"]) = tagged kind (render doc) := by
  rw [← String.toList_inj]
  simp [markup, attrs, hq, tagged]

mutual

theorem encodeValue_mirror : ∀ v : PayloadValue F, PortableValue p v →
    encodeValue py (mirrorValue id v) = .ok (render (Codec.writeValue P v))
  | .record fields, h => by
    rw [mirrorValue, encodeValue, encodeFields_mirror fields h, Codec.writeValue,
      container_render "rec" _ rfl]
    rfl
  | .seq items, h => by
    rw [mirrorValue, encodeValue, encodeItems_mirror items h, Codec.writeValue,
      container_render "seq" _ rfl]
    rfl
  | .text s, _ => by
    rw [mirrorValue, encodeValue, Codec.writeValue, scalar_render "text" s rfl]
  | .uint n, _ => by
    have ht := saxEscape_intText (n.toNat : ℤ)
    rw [mirrorValue, encodeValue, Codec.writeValue, scalar_render "uint" _ rfl]
    exact congrArg (fun t => Except.ok (tagged "uint" t)) ht.symm
  | .sint n, _ => by
    rw [mirrorValue, encodeValue, Codec.writeValue, scalar_render "sint" _ rfl,
      saxEscape_intText]
  | .real _, h => h.elim
  | .boolean b, _ => by
    rw [mirrorValue, encodeValue, Codec.writeValue, scalar_render "bool" _ rfl]
    cases b <;> rfl
  | .blob bytes, _ => by
    rw [mirrorValue, encodeValue, Codec.writeValue, scalar_render "blob" _ rfl, saxEscape_toHex]
  | .nil, _ => rfl

theorem encodeFields_mirror : ∀ fields : List (PayloadField F), PortableFields p fields →
    encodeFields py (mirrorFields id fields) = .ok (render (Codec.writeFields P fields))
  | [], _ => rfl
  | (name, value) :: fields, h => by
    have hr : render (Codec.writeFields P ((name, value) :: fields)) =
        "<f n=" ++ quoteattr name ++ ">" ++ render (Codec.writeValue P value) ++ "</f>" ++
          render (Codec.writeFields P fields) := by
      rw [← String.toList_inj]
      simp [Codec.writeFields, markup, attrs]
    rw [mirrorFields, encodeFields, encodeValue_mirror value h.2.1,
      encodeFields_mirror fields h.2.2, hr]
    rfl

theorem encodeItems_mirror : ∀ items : List (PayloadValue F), PortableItems p items →
    encodeItems py (mirrorItems id items) = .ok (render (Codec.writeItems P items))
  | [], _ => rfl
  | v :: items, h => by
    rw [mirrorItems, encodeItems, encodeValue_mirror v h.1, encodeItems_mirror items h.2,
      Codec.writeItems, render_append]
    rfl

end

theorem render_textEl (tag text : String) :
    render (Codec.textEl tag text) = "<" ++ tag ++ ">" ++ saxEscape text ++ "</" ++ tag ++ ">" := by
  rw [← String.toList_inj]
  simp [Codec.textEl, markup, attrs]

theorem encodeMeta_mirror (m : Meta) :
    "<meta>" ++ encodeMeta (mirrorMeta m) ++ "</meta>" = render (Codec.metaTokens m) := by
  obtain ⟨fromAddr, toAddr, thread, p⟩ := m
  have hto : encodeTarget toAddr = render (Codec.targetTokens toAddr) := by
    cases toAddr with
    | none => rfl
    | some a =>
      rw [encodeTarget, Codec.targetTokens, render_textEl, ← str_eq_display, ← String.toList_inj]
      simp
  have hp : (if number p = 0 then "" else "<provenance>" ++ provenanceHex (number p) ++
      "</provenance>") = render (Codec.provenanceTokens p) := by
    rw [Codec.provenanceTokens]
    by_cases h : p.isEmpty = true
    · rw [if_pos h, if_pos ((number_eq_zero_iff p).mpr h)]
      rfl
    · rw [if_neg h, if_neg fun h0 => h ((number_eq_zero_iff p).mp h0), render_textEl,
        provenanceHex_number, saxEscape_provToHex, ← String.toList_inj]
      simp
  rw [encodeMeta, mirrorMeta]
  dsimp only
  rw [hto, hp, str_eq_display, ← String.toList_inj]
  simp [Codec.metaTokens, render_textEl, markup, attrs]

theorem encodeEnvelope_mirror (env : Envelope F) (h : PortableValue p env.payload.value) :
    encodeEnvelope py (mirror env) = .ok (utf8 (render (Codec.envelopeTokens P env))) := by
  have hm := encodeMeta_mirror env.header
  have hns : quoteattr Codec.envelopeNs = "\"" ++ Codec.envelopeNs ++ "\"" := rfl
  have hr : render (Codec.envelopeTokens P env) = "<message xmlns=\"" ++ Codec.envelopeNs ++
      "\"><meta>" ++ encodeMeta (mirrorMeta env.header) ++ "</meta>" ++ "<payload tag=" ++
      quoteattr env.payload.tag ++ ">" ++ render (Codec.writeValue P env.payload.value) ++
      "</payload></message>" := by
    rw [← String.toList_inj] at hm ⊢
    simp only [Codec.envelopeTokens, List.cons_append, render_cons, render_append,
      String.toList_append, ← hm]
    simp [markup, attrs, hns]
  rw [hr, encodeEnvelope, mirror]
  dsimp only
  rw [encodeValue_mirror (P := P) _ h]
  rfl

end RustPipeline.PythonWriting
