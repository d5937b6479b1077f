import RustPipeline.PythonWriting

set_option autoImplicit false

/-!
# What the Python mirror reads

Its decoder reads the other side's document up to white space in attributes and the texts of
addresses.
-/
namespace RustPipeline.PythonReading
open Text Xml Wire Numerals Markup ElementTree PythonAddress PythonCodec PythonNumerals
  PythonWriting

variable {F : Type} {py : Python F} {P : Codec.Platform F} {p : String → Prop}

/-! ## The elements of a document -/

mutual

def valueElement (P : Codec.Platform F) (ns : String) : PayloadValue F → Element
  | .record fields => node ns "v" [("k", "rec")] (fieldElements P ns fields)
  | .seq items => node ns "v" [("k", "seq")] (itemElements P ns items)
  | .text s => leaf ns "v" [("k", "text")] s
  | .uint n => leaf ns "v" [("k", "uint")] (toString n.toNat)
  | .sint n => leaf ns "v" [("k", "sint")] (toString n.toInt)
  | .real x => leaf ns "v" [("k", "real")] (P.showReal x)
  | .boolean b => leaf ns "v" [("k", "bool")] (if b then "true" else "false")
  | .blob bytes => leaf ns "v" [("k", "blob")] (Codec.toHex bytes)
  | .nil => node ns "v" [("k", "nil")] []

def fieldElements (P : Codec.Platform F) (ns : String) : List (PayloadField F) → List Element
  | [] => []
  | (name, value) :: fields =>
    node ns "f" [("n", name)] [valueElement P ns value] :: fieldElements P ns fields

def itemElements (P : Codec.Platform F) (ns : String) : List (PayloadValue F) → List Element
  | [] => []
  | v :: items => valueElement P ns v :: itemElements P ns items

end

theorem undeclared (key value : String) (h : key ≠ "xmlns") : Undeclared [(key, value)] := by
  intro a ha
  rw [List.mem_singleton] at ha
  rw [ha]
  exact h

theorem puts_scalar (kind s : String) :
    Puts (Codec.scalar kind s) fun ns => [leaf ns "v" [("k", kind)] s] :=
  Puts.leaf (undeclared "k" kind (by decide)) "v" s

mutual

theorem puts_writeValue : ∀ v : PayloadValue F,
    Puts (Codec.writeValue P v) fun ns => [valueElement P ns v]
  | .record fields => Puts.node (undeclared "k" "rec" (by decide)) "v" (puts_writeFields fields)
  | .seq items => Puts.node (undeclared "k" "seq" (by decide)) "v" (puts_writeItems items)
  | .text _ => puts_scalar _ _
  | .uint _ => puts_scalar _ _
  | .sint _ => puts_scalar _ _
  | .real _ => puts_scalar _ _
  | .boolean _ => puts_scalar _ _
  | .blob _ => puts_scalar _ _
  | .nil => Puts.empty (undeclared "k" "nil" (by decide)) "v"

theorem puts_writeFields : ∀ fields : List (PayloadField F),
    Puts (Codec.writeFields P fields) fun ns => fieldElements P ns fields
  | [] => Puts.nil
  | (name, value) :: fields => by
    have hf := Puts.node (undeclared "n" name (by decide)) "f" (puts_writeValue value)
    have hw : Codec.writeFields P ((name, value) :: fields) =
        .start "f" [("n", name)] :: (Codec.writeValue P value ++ [.stop "f"]) ++
          Codec.writeFields P fields := by
      simp [Codec.writeFields]
    rw [hw]
    exact hf.append (puts_writeFields fields)

theorem puts_writeItems : ∀ items : List (PayloadValue F),
    Puts (Codec.writeItems P items) fun ns => itemElements P ns items
  | [] => Puts.nil
  | v :: items => (puts_writeValue v).append (puts_writeItems items)

end

def targetElements (ns : String) : Option Address → List Element
  | some a => [leaf ns "to" [] a.display]
  | none => []

def provenanceElements (ns : String) (p : Provenance) : List Element :=
  if p.isEmpty then [] else [leaf ns "provenance" [] (Codec.provToHex p)]

def metaElement (ns : String) (m : Meta) : Element :=
  node ns "meta" [] ([leaf ns "from" [] m.fromAddr.display] ++ (targetElements ns m.toAddr ++
    ([leaf ns "thread" [] m.thread] ++ provenanceElements ns m.provenance)))

def envelopeElement (P : Codec.Platform F) (env : Envelope F) : Element :=
  node Codec.envelopeNs "message" [] [metaElement Codec.envelopeNs env.header,
    node Codec.envelopeNs "payload" [("tag", env.payload.tag)]
      [valueElement P Codec.envelopeNs env.payload.value]]

theorem puts_textEl (tag s : String) :
    Puts (Codec.textEl tag s) fun ns => [leaf ns tag [] s] :=
  Puts.leaf (fun _ h => absurd h List.not_mem_nil) tag s

theorem puts_metaTokens (m : Meta) : Puts (Codec.metaTokens m) fun ns => [metaElement ns m] := by
  have hto : Puts (Codec.targetTokens m.toAddr) fun ns => targetElements ns m.toAddr := by
    cases m.toAddr with
    | none => exact Puts.nil
    | some a => exact puts_textEl "to" a.display
  have hp : Puts (Codec.provenanceTokens m.provenance) fun ns =>
      provenanceElements ns m.provenance := by
    unfold Codec.provenanceTokens provenanceElements
    by_cases h : m.provenance.isEmpty = true
    · simp only [h, ↓reduceIte]
      exact Puts.nil
    · simp only [h, ↓reduceIte, Bool.false_eq_true]
      exact puts_textEl "provenance" _
  have hbody := (puts_textEl "from" m.fromAddr.display).append
    (hto.append ((puts_textEl "thread" m.thread).append hp))
  have hw : Codec.metaTokens m = .start "meta" [] :: ((Codec.textEl "from" m.fromAddr.display ++
      (Codec.targetTokens m.toAddr ++ (Codec.textEl "thread" m.thread ++
        Codec.provenanceTokens m.provenance))) ++ [.stop "meta"]) := by
    simp [Codec.metaTokens]
  rw [hw]
  exact Puts.node (fun _ h => absurd h List.not_mem_nil) "meta" hbody

theorem infoset_envelope (env : Envelope F) :
    infoset (Codec.envelopeTokens P env) = some (envelopeElement P env) := by
  have hpayload := Puts.node (undeclared "tag" env.payload.tag (by decide)) "payload"
    (puts_writeValue (P := P) env.payload.value)
  have hw : Codec.envelopeTokens P env = .start "message" [("xmlns", Codec.envelopeNs)] ::
      ((Codec.metaTokens env.header ++ (.start "payload" [("tag", env.payload.tag)] ::
        (Codec.writeValue P env.payload.value ++ [.stop "payload"]))) ++ [.stop "message"]) := by
    simp [Codec.envelopeTokens]
  rw [hw]
  exact infoset_root ((puts_metaTokens env.header).append hpayload) "message" Codec.envelopeNs

/-! ## Reading -/

theorem localName_qualified (ns name : String) (h : '\x7d' ∉ name.toList) :
    localName (qualified ns name) = name := by
  have hp : ∀ c ∈ name.toList.reverse, (decide (c ≠ '\x7d')) = true := by
    intro c hc
    rw [decide_eq_true_eq]
    rintro rfl
    exact h (List.mem_reverse.mp hc)
  unfold qualified
  split_ifs
  · rw [localName, List.rtakeWhile, List.takeWhile_eq_self_iff.mpr hp, List.reverse_reverse,
      String.ofList_toList]
  · rw [localName, String.toList_ofList, List.rtakeWhile]
    simp only [List.reverse_append, List.reverse_cons, List.append_assoc, List.cons_append,
      List.nil_append]
    rw [List.takeWhile_append_of_pos hp, List.takeWhile_cons_of_neg (by simp), List.append_nil,
      List.reverse_reverse, String.ofList_toList]

theorem textOr_textOf {s : String} (default : String) (h : s ≠ "") :
    textOr (textOf s) default = s := by
  simp [textOr, textOf, h]

theorem textOr_textOf_empty (s : String) : textOr (textOf s) "" = s := by
  by_cases h : s = ""
  · simp [textOr, textOf, h]
  · exact textOr_textOf "" h

theorem intText_ne_empty (z : ℤ) : toString z ≠ "" := by
  cases z with
  | ofNat n =>
    intro h
    exact decimal_ne_nil n (by rw [show toString n = "" from h]; rfl)
  | negSucc n =>
    intro h
    have hl := negSucc_text n
    rw [h] at hl
    cases hl

theorem valueElement_tag (ns : String) (v : PayloadValue F) :
    localName (valueElement P ns v).tag = "v" := by
  have h := localName_qualified ns "v" (by decide)
  cases v <;> exact h

theorem decodeFirst_element (ns : String) (v : PayloadValue F) :
    decodeFirst py [valueElement P ns v] = decodeValue py (valueElement P ns v) := by
  rw [decodeFirst, valueElement_tag, if_pos rfl]

theorem decodeValue_leaf (ns kind s : String) (hk : normalizeValue kind = kind) (hrec : kind ≠ "rec")
    (hseq : kind ≠ "seq") : decodeValue py (leaf ns "v" [("k", kind)] s) =
      scalarValue py (some kind) (textOf s) := by
  rw [leaf, decodeValue]
  simp [hk, hrec, hseq]

mutual

theorem decodeValue_element (lawful : Lawful py) (ns : String) : ∀ v : PayloadValue F,
    PortableValue p v → decodeValue py (valueElement P ns v) = .ok (mirrorValue normalizeValue v)
  | .record fields, h => by
    have hf := decodeFields_elements lawful ns fields h
    rw [valueElement, node, decodeValue, hf]
    rfl
  | .seq items, h => by
    have hi := decodeItems_elements lawful ns items h
    rw [valueElement, node, decodeValue, hi]
    rfl
  | .text s, _ => by
    rw [valueElement, decodeValue_leaf ns "text" s rfl (by decide) (by decide)]
    simp [scalarValue, textOr_textOf_empty, mirrorValue]
  | .uint n, _ => by
    have ht := textOr_textOf "0" (intText_ne_empty n.toNat)
    rw [valueElement, decodeValue_leaf ns "uint" _ rfl (by decide) (by decide), scalarValue,
      if_neg (by decide), if_pos rfl]
    change (orRaise (int py 10 (textOr (textOf (toString (n.toNat : ℤ))) "0"))).map _ = _
    rw [ht, int_intText lawful]
    rfl
  | .sint n, _ => by
    rw [valueElement, decodeValue_leaf ns "sint" _ rfl (by decide) (by decide), scalarValue,
      if_neg (by decide), if_neg (by decide), if_pos rfl,
      textOr_textOf "0" (intText_ne_empty n.toInt), int_intText lawful]
    rfl
  | .real _, h => h.elim
  | .boolean b, _ => by
    rw [valueElement, decodeValue_leaf ns "bool" _ rfl (by decide) (by decide)]
    cases b <;> rfl
  | .blob bytes, _ => by
    rw [valueElement, decodeValue_leaf ns "blob" _ rfl (by decide) (by decide), scalarValue,
      if_neg (by decide), if_neg (by decide), if_neg (by decide), if_neg (by decide),
      if_neg (by decide), if_pos rfl, textOr_textOf_empty, fromhex_toHex]
    rfl
  | .nil, _ => rfl

theorem decodeFields_elements (lawful : Lawful py) (ns : String) : ∀ fields : List (PayloadField F),
    PortableFields p fields →
      decodeFields py (fieldElements P ns fields) = .ok (mirrorFields normalizeValue fields)
  | [], _ => rfl
  | (name, value) :: fields, h => by
    have hf := localName_qualified ns "f" (by decide)
    have hv := decodeValue_element lawful ns value h.2.1
    have hfirst : decodeFirst py [valueElement P ns value] =
        decodeValue py (valueElement P ns value) := decodeFirst_element ns value
    have hrest := decodeFields_elements lawful ns fields h.2.2
    rw [fieldElements, node, decodeFields, hf, if_neg (by simp), hfirst, hv, hrest]
    rfl

theorem decodeItems_elements (lawful : Lawful py) (ns : String) : ∀ items : List (PayloadValue F),
    PortableItems p items →
      decodeItems py (itemElements P ns items) = .ok (mirrorItems normalizeValue items)
  | [], _ => rfl
  | v :: items, h => by
    have hv := decodeValue_element lawful ns v h.1
    have hrest := decodeItems_elements lawful ns items h.2
    rw [itemElements, decodeItems, valueElement_tag, if_pos rfl, hv, hrest]
    rfl

end

/-- What the header reader makes of one child. -/
theorem read_from (d : PyDraft) (ns : String) {s : String} (h : s ≠ "") :
    readMetaChild py d (leaf ns "from" [] s) =
      (parse s).map fun a => { d with fromAddr := some a } := by
  have hl := localName_qualified ns "from" (by decide)
  simp [readMetaChild, leaf, hl, parseText, textOf, h, orRaise, Except.bind]

theorem read_to (d : PyDraft) (ns : String) {s : String} (h : s ≠ "") :
    readMetaChild py d (leaf ns "to" [] s) =
      (parse s).map fun a => { d with toAddr := some a } := by
  have hl := localName_qualified ns "to" (by decide)
  simp [readMetaChild, leaf, hl, parseText, textOf, h, orRaise, Except.bind]

theorem read_thread (d : PyDraft) (ns : String) {s : String} (h : s ≠ "") :
    readMetaChild py d (leaf ns "thread" [] s) = .ok { d with thread := some s } := by
  have hl := localName_qualified ns "thread" (by decide)
  simp [readMetaChild, leaf, hl, textOf, h]

theorem provToHex_ne_empty (p : Provenance) : Codec.provToHex p ≠ "" := by
  intro h
  have hl := congrArg (fun s => s.toList.length) h
  simp [Codec.provToHex, hexFixed_length] at hl

theorem read_provenance (lawful : Lawful py) (d : PyDraft) (ns : String) (p : Provenance) :
    readMetaChild py d (leaf ns "provenance" [] (Codec.provToHex p)) =
      .ok { d with provenance := number p } := by
  have hl := localName_qualified ns "provenance" (by decide)
  have hr := readProvenance_provToHex lawful p
  simp [readMetaChild, leaf, hl, textOf, provToHex_ne_empty, hr, Except.map]

/-- The addresses as their texts are read. -/
def seenTarget : Option Address → Except PyError (Option Address)
  | some a => (parse a.display).map some
  | none => .ok none

def seenMeta (m : Meta) : Except PyError PyDraft := do
  let a ← parse m.fromAddr.display
  let b ← seenTarget m.toAddr
  return ⟨some a, b, some m.thread, number m.provenance⟩

structure Texts (m : Meta) : Prop where
  fromAddr : m.fromAddr.display ≠ ""
  toAddr : ∀ a ∈ m.toAddr, a.display ≠ ""
  thread : m.thread ≠ ""

theorem read_metaElement (lawful : Lawful py) (ns : String) {m : Meta} (h : Texts m) :
    (metaElement ns m).children.foldlM (readMetaChild py) PyDraft.blank = seenMeta m := by
  have hto : ∀ d : PyDraft, d.toAddr = none → (targetElements ns m.toAddr).foldlM
      (readMetaChild py) d = (seenTarget m.toAddr).map fun b => { d with toAddr := b } := by
    intro d hd
    cases ht : m.toAddr with
    | none =>
      obtain ⟨a, b, c, p⟩ := d
      dsimp only at hd
      rw [hd]
      rfl
    | some a =>
      rw [targetElements, List.foldlM_cons, read_to d ns (h.toAddr a ht), seenTarget]
      cases parse a.display <;> rfl
  have hp : ∀ d : PyDraft, d.provenance = 0 → (provenanceElements ns m.provenance).foldlM
      (readMetaChild py) d = .ok { d with provenance := number m.provenance } := by
    intro d hd
    unfold provenanceElements
    by_cases he : m.provenance.isEmpty = true
    · obtain ⟨a, b, c, p⟩ := d
      dsimp only at hd
      rw [if_pos he, (number_eq_zero_iff m.provenance).mpr he, hd]
      rfl
    · rw [if_neg he, List.foldlM_cons, read_provenance lawful]
      rfl
  rw [metaElement, node]
  dsimp only
  rw [List.foldlM_append, List.foldlM_cons, read_from _ ns h.fromAddr, seenMeta]
  cases parse m.fromAddr.display with
  | error e => rfl
  | ok a =>
    simp only [Except.map, bind, Except.bind, List.foldlM_nil, pure, Except.pure]
    rw [List.foldlM_append, hto _ rfl]
    cases seenTarget m.toAddr with
    | error e => rfl
    | ok b =>
      simp only [Except.map, bind, Except.bind]
      rw [List.foldlM_append, List.foldlM_cons, read_thread _ ns h.thread]
      simp only [bind, Except.bind, List.foldlM_nil, pure, Except.pure]
      rw [hp _ rfl]

/-- What the mirror makes of a document that the other side wrote. -/
def seen (env : Envelope F) : Except PyError (PyEnvelope F) := do
  let a ← parse env.header.fromAddr.display
  let b ← seenTarget env.header.toAddr
  return ⟨⟨a, b, env.header.thread, number env.header.provenance⟩,
    ⟨some (normalizeValue env.payload.tag), mirrorValue normalizeValue env.payload.value⟩⟩

theorem decodeRoot_envelope (lawful : Lawful py) {env : Envelope F} (h : Texts env.header)
    (hv : PortableValue p env.payload.value) : decodeRoot py (envelopeElement P env) = seen env := by
  have hmessage := localName_qualified Codec.envelopeNs "message" (by decide)
  have hmeta := localName_qualified Codec.envelopeNs "meta" (by decide)
  have hpayload := localName_qualified Codec.envelopeNs "payload" (by decide)
  have hchild : child "meta" (envelopeElement P env) =
      .ok (metaElement Codec.envelopeNs env.header) := by
    simp [child, envelopeElement, node, metaElement, hmeta]
  have hchild' : child "payload" (envelopeElement P env) =
      .ok (node Codec.envelopeNs "payload" [("tag", env.payload.tag)]
        [valueElement P Codec.envelopeNs env.payload.value]) := by
    simp [child, envelopeElement, node, metaElement, hmeta, hpayload]
  have htag : localName (envelopeElement P env).tag = "message" := hmessage
  have hvalue := decodeValue_element (P := P) lawful Codec.envelopeNs env.payload.value hv
  have hm := read_metaElement lawful Codec.envelopeNs h
  rw [decodeRoot, htag, hchild, hchild', seen]
  simp only [ne_eq, not_true_eq_false, ↓reduceIte, bind, Except.bind, pure, Except.pure, hm,
    seenMeta]
  cases parse env.header.fromAddr.display with
  | error e => rfl
  | ok a =>
    cases seenTarget env.header.toAddr with
    | error e => rfl
    | ok b =>
      dsimp only [node]
      rw [decodeFirst_element, hvalue]
      rfl

end RustPipeline.PythonReading
