import RustPipeline.PlainPlatform

set_option autoImplicit false

/-!
# Which envelopes survive the wire

Trimming and raw attribute values are the only losses of the codec.
-/
namespace RustPipeline.RoundTrip
open Text Xml Wire Codec CodecImage PlainPlatform

variable {F : Type}

/-- No character that the writer escapes. -/
def Unescaped (s : String) : Prop := ∀ c ∈ s.toList, special c = false

instance (s : String) : Decidable (Unescaped s) :=
  decidable_of_iff (s.toList.all (fun c => !special c) = true)
    (by simp only [Unescaped, List.all_eq_true, Bool.not_eq_true'])

mutual

def StableValue : PayloadValue F → Prop
  | .record fields => StableFields fields
  | .seq items => StableItems items
  | .text s => trimText s = s
  | _ => True

def StableFields : List (PayloadField F) → Prop
  | [] => True
  | (name, value) :: fields => Unescaped name ∧ StableValue value ∧ StableFields fields

def StableItems : List (PayloadValue F) → Prop
  | [] => True
  | v :: items => StableValue v ∧ StableItems items

end

structure Stable (env : Envelope F) : Prop where
  fromAddr : trim env.header.fromAddr.display = env.header.fromAddr.display
  toAddr : ∀ a ∈ env.header.toAddr, trim a.display = a.display
  thread : trim env.header.thread = env.header.thread
  tag : Unescaped env.payload.tag
  value : StableValue env.payload.value

mutual

theorem imageValue_eq_self_iff : ∀ v : PayloadValue F, imageValue v = v ↔ StableValue v
  | .record fields => by
    simp only [imageValue, StableValue, PayloadValue.record.injEq]
    exact imageFields_eq_self_iff fields
  | .seq items => by
    simp only [imageValue, StableValue, PayloadValue.seq.injEq]
    exact imageItems_eq_self_iff items
  | .text s => by simp only [imageValue, StableValue, PayloadValue.text.injEq]
  | .uint _ => by simp only [imageValue, StableValue]
  | .sint _ => by simp only [imageValue, StableValue]
  | .real _ => by simp only [imageValue, StableValue]
  | .boolean _ => by simp only [imageValue, StableValue]
  | .blob _ => by simp only [imageValue, StableValue]
  | .nil => by simp only [imageValue, StableValue]

theorem imageFields_eq_self_iff : ∀ fields : List (PayloadField F),
    imageFields fields = fields ↔ StableFields fields
  | [] => by simp only [imageFields, StableFields]
  | (name, value) :: fields => by
    simp only [imageFields, StableFields, List.cons.injEq, Prod.mk.injEq, escape_eq_self_iff,
      imageValue_eq_self_iff value, imageFields_eq_self_iff fields, Unescaped, and_assoc]

theorem imageItems_eq_self_iff : ∀ items : List (PayloadValue F),
    imageItems items = items ↔ StableItems items
  | [] => by simp only [imageItems, StableItems]
  | v :: items => by
    simp only [imageItems, StableItems, List.cons.injEq, imageValue_eq_self_iff v,
      imageItems_eq_self_iff items]

end

/-- A text that is not empty reads back as itself exactly when trimming leaves it alone. -/
theorem headerText_eq_self_iff {s : String} (hs : s ≠ "") : headerText s = some s ↔ trim s = s := by
  unfold headerText
  constructor
  · intro h
    by_cases hb : trimText s = ""
    · rw [if_pos hb] at h
      cases h
    · rw [if_neg hb, Option.some_inj] at h
      rw [← h, trim_idem]
  · intro h
    rw [trimText_eq_self_of_trim h, if_neg hs, h]

theorem display_ne_empty {a : Address} (ha : ∃ s, Address.parse s = .ok a) : a.display ≠ "" := by
  obtain ⟨s, hs⟩ := ha
  rw [AddressText.display_of_parse hs]
  rintro rfl
  cases hs

theorem headerAddress_eq_self_iff {a : Address} (ha : ∃ s, Address.parse s = .ok a) :
    headerAddress a.display = .ok (some a) ↔ trim a.display = a.display := by
  have hne := display_ne_empty ha
  obtain ⟨s, hs⟩ := ha
  rw [← headerText_eq_self_iff hne]
  unfold headerAddress
  constructor
  · intro h
    cases ht : headerText a.display with
    | none => simp [ht] at h
    | some t =>
      simp only [ht, parseAddress] at h
      cases hp : Address.parse t with
      | error e => simp [hp, Except.map] at h
      | ok b =>
        simp only [hp, Except.map, Except.ok.injEq, Option.some_inj] at h
        rw [← h, AddressText.display_of_parse hp]
  · intro h
    simp only [h, parseAddress, AddressText.parse_display hs, Except.map]

theorem wireImage_eq_ok {env out : Envelope F} : wireImage env = .ok out ↔
    headerAddress env.header.fromAddr.display = .ok (some out.header.fromAddr) ∧
      headerTarget env.header.toAddr = .ok out.header.toAddr ∧
      headerText env.header.thread = some out.header.thread ∧
      env.header.provenance = out.header.provenance ∧
      escape env.payload.tag = out.payload.tag ∧
      imageValue env.payload.value = out.payload.value := by
  obtain ⟨⟨f, t, th, p⟩, ⟨tag, v⟩⟩ := out
  unfold wireImage
  cases headerAddress env.header.fromAddr.display with
  | error e => simp [bind, Except.bind]
  | ok a =>
    cases headerTarget env.header.toAddr with
    | error e => simp [bind, Except.bind]
    | ok b =>
      cases a with
      | none => simp [bind, Except.bind]
      | some a =>
        cases headerText env.header.thread with
        | none => simp [bind, Except.bind]
        | some d => simp [bind, Except.bind, and_assoc]

theorem headerTarget_eq_self_iff {t : Option Address}
    (ht : ∀ a ∈ t, ∃ s, Address.parse s = .ok a) :
    headerTarget t = .ok t ↔ ∀ a ∈ t, trim a.display = a.display := by
  cases t with
  | none => simp [headerTarget]
  | some a =>
    rw [headerTarget, headerAddress_eq_self_iff (ht a rfl)]
    simp

/-- The wire returns an envelope unchanged exactly when no text of it is touched by trimming and
    no tag or field name holds a character that is escaped. -/
theorem roundTrip_iff {P : Platform F} (lawful : Lawful P) (env : Envelope F)
    (hfrom : ∃ s, Address.parse s = .ok env.header.fromAddr)
    (hto : ∀ a ∈ env.header.toAddr, ∃ s, Address.parse s = .ok a)
    (hthread : env.header.thread ≠ "") :
    decodeEnvelope P (encodeEnvelope P env) = .ok env ↔ Stable env := by
  rw [decode_encode lawful, wireImage_eq_ok, headerAddress_eq_self_iff hfrom,
    headerTarget_eq_self_iff hto, headerText_eq_self_iff hthread, escape_eq_self_iff,
    imageValue_eq_self_iff]
  constructor
  · rintro ⟨h1, h2, h3, _, h4, h5⟩
    exact ⟨h1, h2, h3, h4, h5⟩
  · intro h
    exact ⟨h.fromAddr, h.toAddr, h.thread, rfl, h.tag, h.value⟩

/-! ## Flat names -/

/-- A name that is sent and read back as it is. -/
structure Solid (n : String) : Prop where
  plain : AddressText.Plain n
  trimmed : trim n = n

theorem Solid.headerAddress {n : String} (h : Solid n) :
    headerAddress n = .ok (some (.flat n)) := by
  have he := (headerAddress_eq_self_iff ⟨n, AddressText.parse_plain h.plain⟩).mpr
  rw [AddressText.display_flat] at he
  exact he h.trimmed

/-- Only the thread, the tag and the value of a message between plain names can change. -/
theorem wireImage_named {g c thread text : String} (hg : Solid g) (hc : Solid c)
    (ht : headerText thread = some text) (p : Provenance) (payload : Payload F) :
    wireImage ⟨⟨.flat g, some (.flat c), thread, p⟩, payload⟩ =
      .ok ⟨⟨.flat g, some (.flat c), text, p⟩, ⟨escape payload.tag, imageValue payload.value⟩⟩ := by
  refine wireImage_eq_ok.mpr ⟨?_, ?_, ht, rfl, rfl, rfl⟩
  · rw [AddressText.display_flat]
    exact hg.headerAddress
  · rw [headerTarget, AddressText.display_flat]
    exact hc.headerAddress

theorem wireImage_flat {g c thread : String} (hg : Solid g) (hc : Solid c) (hne : thread ≠ "")
    (ht : trim thread = thread) (p : Provenance) (payload : Payload F) :
    wireImage ⟨⟨.flat g, some (.flat c), thread, p⟩, payload⟩ =
      .ok ⟨⟨.flat g, some (.flat c), thread, p⟩,
        ⟨escape payload.tag, imageValue payload.value⟩⟩ :=
  wireImage_named hg hc ((headerText_eq_self_iff hne).mpr ht) p payload

/-! ## A message that survives and one that does not -/

def greeting (tag text : String) : Envelope UInt32 where
  header := ⟨.flat "ringhub", some (.flat "carol"), "t1", .empty⟩
  payload := ⟨tag, .record [("text", .text text), ("items", .seq [.sint (-5), .real 3, .nil])]⟩

theorem roundTrip_greeting :
    decodeEnvelope plain (encodeEnvelope plain (greeting "Greeting" "hi there")) =
      .ok (greeting "Greeting" "hi there") := by
  have hflat (n : String) (h : AddressText.Plain n) : ∃ s, Address.parse s = .ok (.flat n) :=
    ⟨n, AddressText.parse_plain h⟩
  refine (roundTrip_iff plain_lawful (greeting "Greeting" "hi there") (hflat "ringhub" (by decide))
    ?_ (by decide)).mpr ⟨by decide, by decide, by decide, by decide, ?_⟩
  · rintro a ⟨⟩
    exact hflat "carol" (by decide)
  · refine ⟨by decide, ?_, by decide, ⟨trivial, trivial, trivial, trivial⟩, trivial⟩
    change trimText "hi there" = "hi there"
    decide

theorem roundTrip_fails :
    (∃ s, Address.parse s = .ok (greeting "Q&A" " hi").header.fromAddr) ∧
    (∀ a ∈ (greeting "Q&A" " hi").header.toAddr, ∃ s, Address.parse s = .ok a) ∧
    (greeting "Q&A" " hi").header.thread ≠ "" ∧
    decodeEnvelope plain (encodeEnvelope plain (greeting "Q&A" " hi")) =
      .ok (greeting "Q&amp;A" "hi") ∧
    decodeEnvelope plain (encodeEnvelope plain (greeting "Q&A" " hi")) ≠
      .ok (greeting "Q&A" " hi") := by
  have himage : decodeEnvelope plain (encodeEnvelope plain (greeting "Q&A" " hi")) =
      .ok (greeting "Q&amp;A" "hi") :=
    decode_of_image rfl
  refine ⟨⟨"ringhub", AddressText.parse_plain (by decide)⟩, ?_, by decide, himage, ?_⟩
  · rintro a ⟨⟩
    exact ⟨"carol", AddressText.parse_plain (by decide)⟩
  · rw [himage]
    intro h
    have htag : "Q&amp;A" = "Q&A" := congrArg (fun e => e.payload.tag) (Except.ok.inj h)
    revert htag
    decide

end RustPipeline.RoundTrip
