import RustPipeline.EnvelopeTokens
import RustPipeline.PythonReading
import RustPipeline.Relabelling
import RustPipeline.RoundTrip

set_option autoImplicit false

/-!
# Where the two codecs agree

An envelope crosses from either side to the other unchanged exactly when its addresses and its
thread are free of outer white space, no key holds a bracket, no text is trimmed by the reader, and
the tag and the field names need no escaping inside an attribute.
-/
namespace RustPipeline.CodecAgreement
open Text Xml Wire Markup ElementTree PythonNumerals PythonWriting PythonReading Relabelling
open EnvelopeTokens CodecImage RoundTrip

variable {F : Type} {P : Codec.Platform F} {py : PythonCodec.Python F}

/-! ## What Rust reads of the mirror's writing -/

def unescape (s : String) : String :=
  match PlainXml.unescapeChars s.toList with
  | some cs => String.ofList cs
  | none => s

/-- From an attribute value as one side escapes it to the same value as the other side does. -/
def reescape (s : String) : String := attrRaw (unescape s)

theorem reescape_escape (s : String) : reescape (escape s) = attrRaw s := by
  rw [reescape, unescape, escape, String.toList_ofList, PlainXml.unescapeChars_escapeChars]
  dsimp only
  rw [String.ofList_toList]

theorem reescape_empty : reescape "" = "" := rfl

/-- The kinds of values, which neither side escapes. -/
def KindsPlain : Token → Prop
  | .start _ as => ∀ a ∈ as, a.1 = "k" → attrRaw a.2 = escape a.2
  | .empty _ as => ∀ a ∈ as, a.1 = "k" → attrRaw a.2 = escape a.2
  | _ => True

theorem relabel_attrs {as : List (String × String)}
    (h : ∀ a ∈ as, a.1 = "k" → attrRaw a.2 = escape a.2) :
    (as.map fun a => (utf8 a.1, escape a.2)).map (relabelAttr reescape) =
      as.map fun a => (utf8 a.1, attrRaw a.2) := by
  rw [List.map_map]
  apply List.map_congr_left
  intro a ha
  by_cases hk : a.1 = "k"
  · simp [relabelAttr, hk, h a ha hk]
  · have hne : utf8 a.1 ≠ utf8 "k" := utf8_ne hk
    simp [relabelAttr, hne, reescape_escape]

theorem readMarkup_eq_relabel {doc : List Token} (h : ∀ t ∈ doc, KindsPlain t) :
    readMarkup doc = relabel reescape (readBack doc) := by
  induction doc with
  | nil => rfl
  | cons t doc ih =>
    have ht := h t List.mem_cons_self
    have hrest := ih fun u hu => h u (List.mem_cons_of_mem t hu)
    change readMarkupToken t ++ readMarkup doc = (readBackToken t ++ readBack doc).map _
    rw [List.map_append, hrest]
    refine congrArg (· ++ relabel reescape (readBack doc)) ?_
    cases t with
    | start n as =>
      simp only [readMarkupToken, readBackToken, List.map_cons, List.map_nil, Except.map,
        relabelEvent, relabel_attrs ht]
    | empty n as =>
      simp only [readMarkupToken, readBackToken, List.map_cons, List.map_nil, Except.map,
        relabelEvent, relabel_attrs ht]
    | text s =>
      rw [readMarkupToken, readBackToken]
      split_ifs <;> rfl
    | stop n => rfl

theorem admits_kindsPlain (p : String → Prop) : Admits KindsPlain p where
  kind k h a ha _ := by
    rw [List.mem_singleton.mp ha]
    simp only [kinds, List.mem_cons, List.not_mem_nil, or_false] at h
    rcases h with rfl | rfl | rfl | rfl | rfl | rfl | rfl | rfl | rfl <;> rfl
  nil a ha _ := by
    rw [List.mem_singleton.mp ha]
    rfl
  attr name key s hk _ a ha he := by
    rw [List.mem_singleton.mp ha] at he
    exact absurd he hk
  root a ha he := by
    rw [List.mem_singleton.mp ha] at he
    exact absurd he (by decide)
  bare name a ha := absurd ha List.not_mem_nil
  text s h := trivial
  numeral s h := trivial
  word b := trivial
  stop name := trivial

/-- The mirror's bytes are decoded like the own ones, with attribute values escaped its way. -/
theorem decode_render (lawful : Lawful P) {p : String → Prop} {env out : Envelope F}
    (h : Portable p env) (hw : Wellformed (Codec.envelopeTokens P env))
    (hread : ReadsMarkup P.xml (Codec.envelopeTokens P env)) :
    Codec.decodeEnvelope P (utf8 (render (Codec.envelopeTokens P env))) = .ok out ↔
      ∃ image, wireImage env = .ok image ∧ renameEnvelope reescape image = out := by
  have hown := decode_encode lawful env
  rw [Codec.decodeEnvelope, Codec.encodeEnvelope, lawful.faithful _ hw.balanced] at hown
  rw [Codec.decodeEnvelope, hread hw,
    readMarkup_eq_relabel (all_envelopeTokens (admits_kindsPlain p) h),
    (decodeReader_follows reescape_empty _).eq_ok, hown]

/-! ## Envelopes that cross unchanged -/

/-- No name is escaped inside an attribute and no text is trimmed. -/
abbrev AlikeValue : PayloadValue F → Prop :=
  EachValue AttrPlain (fun s => trimText s = s) fun _ => True

mutual

theorem rename_image_eq_self_iff : ∀ v : PayloadValue F,
    renameValue reescape (imageValue v) = v ↔ AlikeValue v
  | .record fields => by
    simp only [imageValue, renameValue, PayloadValue.record.injEq, AlikeValue, EachValue]
    exact renameFields_image_eq_self_iff fields
  | .seq items => by
    simp only [imageValue, renameValue, PayloadValue.seq.injEq, AlikeValue, EachValue]
    exact renameItems_image_eq_self_iff items
  | .text s => by
    simp only [imageValue, renameValue, PayloadValue.text.injEq, AlikeValue, EachValue]
  | .uint _ => by simp only [imageValue, renameValue, AlikeValue, EachValue]
  | .sint _ => by simp only [imageValue, renameValue, AlikeValue, EachValue]
  | .real _ => by simp only [imageValue, renameValue, AlikeValue, EachValue]
  | .boolean _ => by simp only [imageValue, renameValue, AlikeValue, EachValue]
  | .blob _ => by simp only [imageValue, renameValue, AlikeValue, EachValue]
  | .nil => by simp only [imageValue, renameValue, AlikeValue, EachValue]

theorem renameFields_image_eq_self_iff : ∀ fields : List (PayloadField F),
    renameFields reescape (imageFields fields) = fields ↔
      EachField AttrPlain (fun s => trimText s = s) (fun _ => True) fields
  | [] => by simp only [imageFields, renameFields, EachField]
  | (name, value) :: fields => by
    simp only [imageFields, renameFields, EachField, List.cons.injEq, Prod.mk.injEq,
      reescape_escape, attrRaw_eq_self_iff, rename_image_eq_self_iff value,
      renameFields_image_eq_self_iff fields, and_assoc]

theorem renameItems_image_eq_self_iff : ∀ items : List (PayloadValue F),
    renameItems reescape (imageItems items) = items ↔
      EachItem AttrPlain (fun s => trimText s = s) (fun _ => True) items
  | [] => by simp only [imageItems, renameItems, EachItem]
  | v :: items => by
    simp only [imageItems, renameItems, EachItem, List.cons.injEq, rename_image_eq_self_iff v,
      renameItems_image_eq_self_iff items]

end

theorem normalize_of_plain {s : String} (h : AttrPlain s) : normalizeValue s = s := by
  rw [← String.toList_inj, normalizeValue, String.toList_ofList]
  refine (List.map_congr_left fun c hc => ?_).trans (List.map_id _)
  have hp := h.chars c hc
  simp only [List.mem_cons, List.not_mem_nil, or_false, not_or] at hp
  simp [normalizeChar, hp]

section Normal

variable {onText : String → Prop} {onReal : F → Prop}

mutual

theorem mirrorValue_of_plain : ∀ v : PayloadValue F, EachValue AttrPlain onText onReal v →
    mirrorValue normalizeValue v = mirrorValue id v
  | .record fields, h => by rw [mirrorValue, mirrorValue, mirrorFields_of_plain fields h]
  | .seq items, h => by rw [mirrorValue, mirrorValue, mirrorItems_of_plain items h]
  | .text _, _ => rfl
  | .uint _, _ => rfl
  | .sint _, _ => rfl
  | .real _, _ => rfl
  | .boolean _, _ => rfl
  | .blob _, _ => rfl
  | .nil, _ => rfl

theorem mirrorFields_of_plain : ∀ fields : List (PayloadField F),
    EachField AttrPlain onText onReal fields →
      mirrorFields normalizeValue fields = mirrorFields id fields
  | [], _ => rfl
  | (name, value) :: fields, h => by
    rw [mirrorFields, mirrorFields, normalize_of_plain h.1, mirrorValue_of_plain value h.2.1,
      mirrorFields_of_plain fields h.2.2]
    rfl

theorem mirrorItems_of_plain : ∀ items : List (PayloadValue F),
    EachItem AttrPlain onText onReal items → mirrorItems normalizeValue items = mirrorItems id items
  | [], _ => rfl
  | v :: items, h => by
    rw [mirrorItems, mirrorItems, mirrorValue_of_plain v h.1, mirrorItems_of_plain items h.2]

end

end Normal

/-- An address that both sides read back from its text. -/
structure AlikeAddress (a : Address) : Prop where
  trimmed : trim a.display = a.display
  keys : ∀ s ∈ a.segments, PythonAddress.KeyClean s

structure Alike (env : Envelope F) : Prop where
  fromAddr : AlikeAddress env.header.fromAddr
  toAddr : ∀ a ∈ env.header.toAddr, AlikeAddress a
  thread : trim env.header.thread = env.header.thread
  tag : AttrPlain env.payload.tag
  value : AlikeValue env.payload.value

/-- The envelopes the two sides exchange: parsed addresses, a thread, XML characters without the
    carriage return, and no floating-point numbers. -/
structure Exchanged (env : Envelope F) : Prop where
  fromAddr : ∃ s, Address.parse s = .ok env.header.fromAddr
  toAddr : ∀ a ∈ env.header.toAddr, ∃ s, Address.parse s = .ok a
  thread : env.header.thread ≠ ""
  portable : Portable XmlText env

theorem Exchanged.texts {env : Envelope F} (h : Exchanged env) : Texts env.header :=
  ⟨display_ne_empty h.fromAddr, fun a ha => display_ne_empty (h.toAddr a ha), h.thread⟩

theorem alikeAddress_iff {a : Address} (ha : ∃ s, Address.parse s = .ok a)
    (hx : XmlText a.display) : PythonAddress.parse a.display = .ok a ↔ AlikeAddress a := by
  rw [PythonAddress.parse_display_iff ha hx]
  exact ⟨fun h => ⟨h.1, h.2⟩, fun h => ⟨h.trimmed, h.keys⟩⟩

theorem seenTarget_iff {t : Option Address} (ht : ∀ a ∈ t, ∃ s, Address.parse s = .ok a)
    (hx : ∀ a ∈ t, XmlText a.display) : seenTarget t = .ok t ↔ ∀ a ∈ t, AlikeAddress a := by
  cases t with
  | none => simp [seenTarget]
  | some a =>
    have h := alikeAddress_iff (ht a rfl) (hx a rfl)
    have he : seenTarget (some a) = .ok (some a) ↔ PythonAddress.parse a.display = .ok a := by
      rw [seenTarget]
      cases PythonAddress.parse a.display <;> simp [Except.map]
    rw [he, h]
    simp

/-- The mirror sees the envelope itself exactly when it reads both addresses back and no white
    space in the tag or a name was changed. -/
theorem seen_iff {env : Envelope F} : seen env = .ok (mirror env) ↔
    PythonAddress.parse env.header.fromAddr.display = .ok env.header.fromAddr ∧
      seenTarget env.header.toAddr = .ok env.header.toAddr ∧
      normalizeValue env.payload.tag = env.payload.tag ∧
      mirrorValue normalizeValue env.payload.value = mirrorValue id env.payload.value := by
  obtain ⟨⟨a, b, thread, prov⟩, ⟨tag, v⟩⟩ := env
  unfold seen mirror mirrorMeta
  dsimp only
  cases PythonAddress.parse a.display with
  | error e => simp [bind, Except.bind]
  | ok a' =>
    cases seenTarget b with
    | error e => simp [bind, Except.bind]
    | ok b' => simp [bind, Except.bind, pure, Except.pure, and_assoc]

theorem renamed_image_iff {env : Envelope F} : (∃ image, wireImage env = .ok image ∧
    renameEnvelope reescape image = env) ↔
      headerAddress env.header.fromAddr.display = .ok (some env.header.fromAddr) ∧
      headerTarget env.header.toAddr = .ok env.header.toAddr ∧
      headerText env.header.thread = some env.header.thread ∧
      attrRaw env.payload.tag = env.payload.tag ∧
      renameValue reescape (imageValue env.payload.value) = env.payload.value := by
  constructor
  · rintro ⟨image, himage, he⟩
    obtain ⟨h1, h2, h3, _, h5, h6⟩ := wireImage_eq_ok.mp himage
    obtain ⟨hheader, htag, hvalue⟩ := (renameEnvelope_eq_iff reescape).mp he
    rw [hheader] at h1 h2 h3
    rw [← h5, reescape_escape] at htag
    rw [← h6] at hvalue
    exact ⟨h1, h2, h3, htag, hvalue⟩
  · rintro ⟨h1, h2, h3, h4, h5⟩
    refine ⟨⟨env.header, ⟨escape env.payload.tag, imageValue env.payload.value⟩⟩,
      wireImage_eq_ok.mpr ⟨h1, h2, h3, rfl, rfl, rfl⟩, ?_⟩
    exact (renameEnvelope_eq_iff reescape).mpr ⟨rfl, (reescape_escape _).trans h4, h5⟩

theorem bind_orRaise_some {α β : Type} (a : α) (f : α → Except PythonAddress.PyError β) :
    (PythonCodec.orRaise (some a)).bind f = f a := rfl

/-- Both directions return the envelope exactly when it is alike on both sides. -/
theorem agree_iff (lawful : Lawful P) (hpy : PythonNumerals.Lawful py) {env : Envelope F}
    (h : Exchanged env)
    (hparse : ParsesWritten py.fromstring P.xml (Codec.envelopeTokens P env))
    (hread : ReadsMarkup P.xml (Codec.envelopeTokens P env)) :
    (PythonCodec.decodeEnvelope py (Codec.encodeEnvelope P env) = .ok (mirror env) ∧
      ∃ raw, PythonCodec.encodeEnvelope py (mirror env) = .ok raw ∧
        Codec.decodeEnvelope P raw = .ok env) ↔ Alike env := by
  have hw := wellformed_envelope (P := P) h.portable
  have hpython : PythonCodec.decodeEnvelope py (Codec.encodeEnvelope P env) = seen env := by
    rw [PythonCodec.decodeEnvelope, Codec.encodeEnvelope, hparse hw, infoset_envelope,
      bind_orRaise_some]
    exact decodeRoot_envelope hpy h.texts h.portable.value
  have hrust : (∃ raw, PythonCodec.encodeEnvelope py (mirror env) = .ok raw ∧
      Codec.decodeEnvelope P raw = .ok env) ↔
        ∃ image, wireImage env = .ok image ∧ renameEnvelope reescape image = env := by
    rw [encodeEnvelope_mirror (P := P) env h.portable.value,
      ← decode_render lawful h.portable hw hread]
    simp
  rw [hpython, hrust, seen_iff, renamed_image_iff,
    alikeAddress_iff h.fromAddr h.portable.fromAddr, seenTarget_iff h.toAddr h.portable.toAddr,
    headerAddress_eq_self_iff h.fromAddr, headerTarget_eq_self_iff h.toAddr,
    headerText_eq_self_iff h.thread, attrRaw_eq_self_iff, rename_image_eq_self_iff]
  constructor
  · rintro ⟨⟨h1, h2, _, _⟩, _, _, h3, h4, h5⟩
    exact ⟨h1, h2, h3, h4, h5⟩
  · intro ha
    exact ⟨⟨ha.fromAddr, ha.toAddr, normalize_of_plain ha.tag,
      mirrorValue_of_plain _ ha.value⟩, ha.fromAddr.trimmed,
      fun a hm => (ha.toAddr a hm).trimmed, ha.thread, ha.tag, ha.value⟩

/-! ## An order that crosses and one that does not -/

def bob : Address := ⟨[⟨"ringhub", none⟩, ⟨"bob", none⟩]⟩

def concierge : Address := ⟨[⟨"agentos", none⟩, ⟨"concierge", some "alice"⟩]⟩

def order (item : String) : Envelope UInt32 where
  header := ⟨bob, some concierge, "t-interop", ⟨8, 0⟩⟩
  payload := ⟨"Order", .record [("item", .text item), ("qty", .uint 2)]⟩

/-- A parser that knows one document, and decimal digits in ASCII. -/
def reading (x : Library) (doc : List Token) : PythonCodec.Python UInt32 where
  fromstring raw := if raw = x.write doc then infoset doc else none
  decimal c := Numerals.digitValue 10 c
  repr x := toString x.toNat
  float s := (Numerals.fromStrRadix 10 32 s).map UInt32.ofNat

theorem reading_lawful (x : Library) (doc : List Token) :
    PythonNumerals.Lawful (reading x doc) := ⟨fun _ _ => rfl⟩

theorem reading_parses (x : Library) (doc : List Token) :
    ParsesWritten (reading x doc).fromstring x doc := fun _ => if_pos rfl

theorem order_portable {p : String → Prop} {item : String} (hi : p item)
    (hp : ∀ s ∈ [bob.display, concierge.display, "t-interop", "Order", "item", "qty"], p s) :
    Portable p (order item) where
  fromAddr := hp _ (by simp [order])
  toAddr := by
    rintro a ⟨⟩
    exact hp _ (by simp)
  thread := hp _ (by simp [order])
  tag := hp _ (by simp [order])
  value := ⟨hp _ (by simp), hi, hp _ (by simp), trivial, trivial⟩

theorem order_exchanged {item : String} (hi : XmlText item) : Exchanged (order item) where
  fromAddr := ⟨"ringhub.bob", rfl⟩
  toAddr := by
    rintro a ⟨⟩
    exact ⟨"agentos.concierge[alice]", rfl⟩
  thread := by
    change "t-interop" ≠ ""
    decide
  portable := by
    apply order_portable hi
    intro s hs
    simp only [List.mem_cons, List.not_mem_nil, or_false] at hs
    rcases hs with rfl | rfl | rfl | rfl | rfl | rfl <;> decide

theorem order_readsMarkup {item : String} (hi : Quiet item) :
    ReadsMarkup PlainPlatform.plain.xml
      (Codec.envelopeTokens PlainPlatform.plain (order item)) := by
  apply plain_readsMarkup
  apply all_envelopeTokens admits_quiet
  apply order_portable hi
  intro s hs
  simp only [List.mem_cons, List.not_mem_nil, or_false] at hs
  rcases hs with rfl | rfl | rfl | rfl | rfl | rfl <;> decide

theorem bob_alike : AlikeAddress bob := ⟨by decide, by decide⟩

theorem concierge_alike : AlikeAddress concierge := ⟨by decide, by decide⟩

theorem order_alike {item : String} (hi : trimText item = item) : Alike (order item) where
  fromAddr := bob_alike
  toAddr := by
    rintro a ⟨⟩
    exact concierge_alike
  thread := by
    change trim "t-interop" = "t-interop"
    decide
  tag := by
    change AttrPlain "Order"
    decide
  value := by
    have hitem : AttrPlain "item" := by decide
    have hqty : AttrPlain "qty" := by decide
    exact ⟨hitem, hi, hqty, trivial, trivial⟩

theorem agree_order :
    PythonCodec.decodeEnvelope (reading PlainPlatform.plain.xml
        (Codec.envelopeTokens PlainPlatform.plain (order "two coffees")))
      (Codec.encodeEnvelope PlainPlatform.plain (order "two coffees")) =
        .ok (mirror (order "two coffees")) ∧
    ∃ raw, PythonCodec.encodeEnvelope (reading PlainPlatform.plain.xml
        (Codec.envelopeTokens PlainPlatform.plain (order "two coffees")))
      (mirror (order "two coffees")) = .ok raw ∧
        Codec.decodeEnvelope PlainPlatform.plain raw = .ok (order "two coffees") :=
  (agree_iff PlainPlatform.plain_lawful (reading_lawful _ _) (order_exchanged (by decide))
    (reading_parses _ _) (order_readsMarkup (by decide))).mpr (order_alike (by decide))

/-- The blank before the item is lost on the way from the mirror. -/
theorem agree_fails : Exchanged (order " two coffees") ∧
    ReadsMarkup PlainPlatform.plain.xml
      (Codec.envelopeTokens PlainPlatform.plain (order " two coffees")) ∧
    ∃ raw, PythonCodec.encodeEnvelope (reading PlainPlatform.plain.xml
        (Codec.envelopeTokens PlainPlatform.plain (order " two coffees")))
      (mirror (order " two coffees")) = .ok raw ∧
        Codec.decodeEnvelope PlainPlatform.plain raw = .ok (order "two coffees") ∧
        Codec.decodeEnvelope PlainPlatform.plain raw ≠ .ok (order " two coffees") := by
  have hex : Exchanged (order " two coffees") := order_exchanged (by decide)
  have hread : ReadsMarkup PlainPlatform.plain.xml
      (Codec.envelopeTokens PlainPlatform.plain (order " two coffees")) :=
    order_readsMarkup (by decide)
  have hw := wellformed_envelope (P := PlainPlatform.plain) hex.portable
  have hdecode : Codec.decodeEnvelope PlainPlatform.plain (utf8 (render
      (Codec.envelopeTokens PlainPlatform.plain (order " two coffees")))) =
        .ok (order "two coffees") := by
    rw [decode_render PlainPlatform.plain_lawful hex.portable hw hread]
    exact ⟨order "two coffees", rfl, rfl⟩
  refine ⟨hex, hread, _, encodeEnvelope_mirror (P := PlainPlatform.plain) _ hex.portable.value,
    hdecode, ?_⟩
  rw [hdecode]
  intro h
  have hitem : (order "two coffees").payload.value = (order " two coffees").payload.value :=
    congrArg (fun e => e.payload.value) (Except.ok.inj h)
  simp [order] at hitem

end RustPipeline.CodecAgreement
