import RustPipeline.RoundTrip

set_option autoImplicit false

/-!
# An envelope relayed over many hops

Every hop writes the envelope and reads it back. The first hop trims the texts and settles the
header; every hop escapes the tag and the field names once more.
-/
namespace RustPipeline.WireHops
open Text Xml Wire Codec CodecImage RoundTrip PlainPlatform

variable {F : Type}

/-- The envelope after a number of hops. -/
def crossings (P : Platform F) : ℕ → Envelope F → Except Fault (Envelope F)
  | 0, env => .ok env
  | n + 1, env => do
    let next ← decodeEnvelope P (encodeEnvelope P env)
    crossings P n next

/-! ## Names escaped again -/

mutual

/-- The value with all its field names rewritten. -/
def renamed (f : String → String) : PayloadValue F → PayloadValue F
  | .record fields => .record (renamedFields f fields)
  | .seq items => .seq (renamedItems f items)
  | .text s => .text s
  | .uint n => .uint n
  | .sint n => .sint n
  | .real x => .real x
  | .boolean b => .boolean b
  | .blob bytes => .blob bytes
  | .nil => .nil

def renamedFields (f : String → String) : List (PayloadField F) → List (PayloadField F)
  | [] => []
  | (name, value) :: fields => (f name, renamed f value) :: renamedFields f fields

def renamedItems (f : String → String) : List (PayloadValue F) → List (PayloadValue F)
  | [] => []
  | v :: items => renamed f v :: renamedItems f items

end

mutual

theorem renamed_id : ∀ v : PayloadValue F, renamed id v = v
  | .record fields => congrArg _ (renamedFields_id fields)
  | .seq items => congrArg _ (renamedItems_id items)
  | .text _ => rfl
  | .uint _ => rfl
  | .sint _ => rfl
  | .real _ => rfl
  | .boolean _ => rfl
  | .blob _ => rfl
  | .nil => rfl

theorem renamedFields_id : ∀ fields : List (PayloadField F), renamedFields id fields = fields
  | [] => rfl
  | (name, value) :: fields => by
    rw [renamedFields, renamed_id value, renamedFields_id fields, id]

theorem renamedItems_id : ∀ items : List (PayloadValue F), renamedItems id items = items
  | [] => rfl
  | v :: items => by
    rw [renamedItems, renamed_id v, renamedItems_id items]

end

theorem trimText_idem (s : String) : trimText (trimText s) = trimText s := by
  rw [trimText, trimText, String.toList_ofList, trimBy_idem]

mutual

/-- A value that was read once is only renamed by the next hop. -/
theorem image_renamed (f : String → String) : ∀ v : PayloadValue F,
    imageValue (renamed f (imageValue v)) = renamed (escape ∘ f) (imageValue v)
  | .record fields => congrArg _ (image_renamedFields f fields)
  | .seq items => congrArg _ (image_renamedItems f items)
  | .text s => congrArg _ (trimText_idem s)
  | .uint _ => rfl
  | .sint _ => rfl
  | .real _ => rfl
  | .boolean _ => rfl
  | .blob _ => rfl
  | .nil => rfl

theorem image_renamedFields (f : String → String) : ∀ fields : List (PayloadField F),
    imageFields (renamedFields f (imageFields fields)) =
      renamedFields (escape ∘ f) (imageFields fields)
  | [] => rfl
  | (name, value) :: fields => by
    simp only [imageFields, renamedFields, image_renamed f value, image_renamedFields f fields,
      Function.comp_apply]

theorem image_renamedItems (f : String → String) : ∀ items : List (PayloadValue F),
    imageItems (renamedItems f (imageItems items)) = renamedItems (escape ∘ f) (imageItems items)
  | [] => rfl
  | v :: items => by
    simp only [imageItems, renamedItems, image_renamed f v, image_renamedItems f items]

end

/-- Under a renaming that keeps names apart a record has the fields it had. -/
theorem get_renamed {f : String → String} (hf : Function.Injective f) (v : PayloadValue F)
    (name : String) : (renamed f v).get (f name) = (v.get name).map (renamed f) := by
  cases v with
  | record fields =>
    change ((renamedFields f fields).find? fun g => g.1 = f name).map Prod.snd =
      ((fields.find? fun g => g.1 = name).map Prod.snd).map (renamed f)
    induction fields with
    | nil => rfl
    | cons field fields ih =>
      obtain ⟨key, value⟩ := field
      rw [renamedFields, List.find?_cons, List.find?_cons]
      by_cases hk : key = name
      · simp [hk]
      · have hne : f key ≠ f name := fun h => hk (hf h)
        simpa [hk, hne] using ih
  | seq items => rfl
  | text s => rfl
  | uint n => rfl
  | sint n => rfl
  | real x => rfl
  | boolean b => rfl
  | blob bytes => rfl
  | nil => rfl

/-! ## The header settles -/

/-- A header that the wire returns as it is. -/
structure Settled (header : Meta) : Prop where
  fromAddr : headerAddress header.fromAddr.display = .ok (some header.fromAddr)
  toAddr : headerTarget header.toAddr = .ok header.toAddr
  thread : headerText header.thread = some header.thread

theorem headerText_trimmed {s t : String} (h : headerText s = some t) : trim t = t := by
  unfold headerText at h
  split_ifs at h
  rw [← Option.some_inj.mp h, trim_idem]

theorem headerAddress_settled {s : String} {a : Address} (h : headerAddress s = .ok (some a)) :
    headerAddress a.display = .ok (some a) := by
  unfold headerAddress at h
  cases ht : headerText s with
  | none => simp [ht] at h
  | some t =>
    rw [ht] at h
    simp only [parseAddress] at h
    cases hp : Address.parse t with
    | error e => simp [hp, Except.map] at h
    | ok b =>
      simp only [hp, Except.map, Except.ok.injEq, Option.some_inj] at h
      subst h
      rw [headerAddress_eq_self_iff ⟨t, hp⟩, AddressText.display_of_parse hp]
      exact headerText_trimmed ht

/-- The header of an envelope that was read settles unless its thread was only white space. -/
theorem settled_iff {env first : Envelope F} (h : wireImage env = .ok first) :
    Settled first.header ↔ first.header.thread ≠ "" := by
  obtain ⟨hfrom, hto, hthread, _⟩ := wireImage_eq_ok.mp h
  constructor
  · intro hs he
    have hnone := hs.thread
    rw [he] at hnone
    cases hnone
  · intro hne
    refine ⟨headerAddress_settled hfrom, ?_, ?_⟩
    · cases ht : first.header.toAddr with
      | none => rfl
      | some a =>
        rw [ht] at hto
        cases hd : env.header.toAddr with
        | none =>
          rw [hd] at hto
          cases hto
        | some b =>
          rw [hd, headerTarget] at hto
          rw [headerTarget]
          exact headerAddress_settled hto
    · exact (headerText_eq_self_iff hne).mpr (headerText_trimmed hthread)

/-! ## Any number of hops -/

/-- An envelope whose names were escaped some more times. -/
def relabelled (n : ℕ) (first : Envelope F) : Envelope F :=
  ⟨first.header, ⟨escape^[n] first.payload.tag, renamed escape^[n] first.payload.value⟩⟩

variable {P : Platform F}

theorem crossing_relabelled (lawful : Lawful P) {env first : Envelope F}
    (h : wireImage env = .ok first) (hs : Settled first.header) (n : ℕ) :
    decodeEnvelope P (encodeEnvelope P (relabelled n first)) = .ok (relabelled (n + 1) first) := by
  rw [decode_encode lawful, wireImage_eq_ok]
  obtain ⟨_, _, _, _, _, hvalue⟩ := wireImage_eq_ok.mp h
  refine ⟨hs.fromAddr, hs.toAddr, hs.thread, rfl, ?_, ?_⟩
  · exact (Function.iterate_succ_apply' escape n _).symm
  · change imageValue (renamed escape^[n] first.payload.value) = renamed escape^[n + 1] _
    rw [← hvalue, image_renamed, Function.iterate_succ']

theorem crossings_relabelled (lawful : Lawful P) {env first : Envelope F}
    (h : wireImage env = .ok first) (hs : Settled first.header) (n k : ℕ) :
    crossings P n (relabelled k first) = .ok (relabelled (k + n) first) := by
  induction n generalizing k with
  | zero => rfl
  | succ n ih =>
    rw [crossings, crossing_relabelled lawful h hs k]
    change crossings P n (relabelled (k + 1) first) = _
    rw [ih, Nat.add_assoc, Nat.add_comm 1 n]

theorem relabelled_zero (first : Envelope F) : relabelled 0 first = first := by
  unfold relabelled
  rw [Function.iterate_zero, renamed_id, id]

theorem crossings_succ (lawful : Lawful P) (n : ℕ) (env out : Envelope F) :
    crossings P (n + 1) env = .ok out ↔
      ∃ first, wireImage env = .ok first ∧ crossings P n first = .ok out := by
  rw [crossings, decode_encode lawful]
  cases wireImage env with
  | error e => simp [bind, Except.bind]
  | ok first => simp [bind, Except.bind]

/-- What arrives after any number of further hops is decided by the first one: its header, its
    texts, and its names escaped once more by each hop. -/
theorem crossings_iff (lawful : Lawful P) (env out : Envelope F) (n : ℕ) :
    crossings P (n + 2) env = .ok out ↔ ∃ first, crossings P 1 env = .ok first ∧
      first.header.thread ≠ "" ∧ out = relabelled (n + 1) first := by
  have hone : ∀ first, crossings P 1 env = .ok first ↔ wireImage env = .ok first := by
    intro first
    rw [crossings_succ lawful]
    simp [crossings]
  have hfurther : ∀ first, wireImage env = .ok first → (crossings P (n + 1) first = .ok out ↔
      first.header.thread ≠ "" ∧ out = relabelled (n + 1) first) := by
    intro first hf
    by_cases hne : first.header.thread = ""
    · refine iff_of_false ?_ (fun h => h.1 hne)
      intro h
      obtain ⟨second, hsecond, _⟩ := (crossings_succ lawful n first out).mp h
      obtain ⟨_, _, hthread, _⟩ := wireImage_eq_ok.mp hsecond
      rw [hne] at hthread
      cases hthread
    · have h := crossings_relabelled lawful hf ((settled_iff hf).mpr hne) (n + 1) 0
      rw [relabelled_zero, Nat.zero_add] at h
      rw [h, Except.ok.injEq]
      simp [hne, eq_comm]
  rw [crossings_succ lawful]
  constructor
  · rintro ⟨first, hf, h⟩
    exact ⟨first, (hone first).mpr hf, (hfurther first hf).mp h⟩
  · rintro ⟨first, hf, h⟩
    have hf := (hone first).mp hf
    exact ⟨first, hf, (hfurther first hf).mpr h⟩

/-- A relayed record loses no field and none of its texts changes any more; a tag grows by four
    characters for each of its special characters at every hop. -/
theorem relayed (lawful : Lawful P) {env first out : Envelope F} (n : ℕ)
    (hf : crossings P 1 env = .ok first) (h : crossings P (n + 2) env = .ok out) :
    (∀ name, out.payload.value.get (escape^[n + 1] name) =
        (first.payload.value.get name).map (renamed escape^[n + 1])) ∧
      out.payload.tag.length = first.payload.tag.length +
        4 * (n + 1) * env.payload.tag.toList.countP special := by
  obtain ⟨f, hf', _, rfl⟩ := (crossings_iff lawful env out n).mp h
  rw [hf, Except.ok.injEq] at hf'
  subst hf'
  constructor
  · exact get_renamed (PlainXml.escape_injective.iterate _) _
  · obtain ⟨i, hi, hi'⟩ := (crossings_succ lawful 0 env first).mp hf
    obtain rfl : i = first := Except.ok.inj hi'
    obtain ⟨_, _, _, _, htag, _⟩ := wireImage_eq_ok.mp hi
    change (escape^[n + 1] i.payload.tag).length = _
    rw [← htag]
    exact length_iterate_escape (n + 1) env.payload.tag

/-! A question that is relayed over three hops. -/

theorem crossings_question :
    crossings plain 1 (greeting "Q&A" " hi") = .ok (greeting "Q&amp;A" "hi") := by
  have hd : decodeEnvelope plain (encodeEnvelope plain (greeting "Q&A" " hi")) =
      .ok (greeting "Q&amp;A" "hi") := decode_of_image rfl
  rw [crossings, hd]
  rfl

theorem crossings_iff_question : crossings plain 3 (greeting "Q&A" " hi") =
    .ok (greeting "Q&amp;amp;amp;A" "hi") :=
  (crossings_iff plain_lawful _ _ 1).mpr ⟨_, crossings_question, by decide, rfl⟩

theorem crossings_three_question : crossings plain 3 (greeting "Q&A" " hi") =
    .ok (relabelled 2 (greeting "Q&amp;A" "hi")) := by
  have hfirst : wireImage (greeting "Q&A" " hi") = .ok (greeting "Q&amp;A" "hi") := rfl
  have h := crossings_relabelled plain_lawful hfirst ⟨rfl, rfl, rfl⟩ 2 0
  rw [relabelled_zero] at h
  exact (crossings_succ plain_lawful 2 _ _).mpr ⟨_, hfirst, h⟩

theorem relayed_question :
    (relabelled 2 (greeting "Q&amp;A" "hi")).payload.value.get (escape^[2] "text") =
        some (.text "hi") ∧
      (relabelled 2 (greeting "Q&amp;A" "hi")).payload.tag.length = 15 := by
  have h := relayed plain_lawful 1 crossings_question crossings_three_question
  exact ⟨h.1 "text", h.2⟩

end RustPipeline.WireHops
