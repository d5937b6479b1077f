import RustPipeline.PlainPlatform
import RustPipeline.Validation
import RustPipeline.Foundation.EventTree

set_option autoImplicit false

/-!
# Validation of payload bytes

`validate_payload` over the events of the reader: a depth counter and the tags seen at depth two.
-/
namespace RustPipeline.ByteValidation
open Text Xml EventTree Validation

/-- What stands behind the last colon of a name; of a name that is no UTF-8, nothing. -/
def localName (name : Bytes) : String :=
  let s := (fromUtf8 name).getD ""
  String.ofList (s.toList.rtakeWhile (· != ':'))

/-- The depth is a `u32`. -/
def maxDepth : ℕ := 2 ^ 32 - 1

/-- Whether the root was found, and the tags of its children. -/
structure Found where
  root : Bool
  fields : List String

def invalid (m : ValidationMessage) : Fault := .err (.validation m)

/-- What a start tag or an empty tag is checked for at its depth. -/
def enter (schema : PayloadSchema) (depth : ℕ) (found : Found) (tag : String)
    (selfClosing : Bool) : Except Fault Found :=
  if depth = 1 then
    if tag ≠ schema.rootTag then .error (invalid (.expectedRoot schema.rootTag tag selfClosing))
    else .ok { found with root := true }
  else if depth = 2 ∧ found.root then
    if schema.strict && !schema.declares tag then
      .error (invalid (.unexpectedTag tag schema.rootTag selfClosing))
    else .ok { found with fields := found.fields ++ [tag] }
  else .ok found

/-- The loop over the events. Counting past either end of the `u32` is a panic. -/
def validateLoop (schema : PayloadSchema) : Found → ℕ → Reader → Except Fault Found
  | found, _, [] => .ok found
  | _, _, .error e :: _ => .error (invalid (.xml e))
  | found, depth, .ok (.start name _) :: r =>
    if depth = maxDepth then .error .panic
    else
      match enter schema (depth + 1) found (localName name) false with
      | .ok found => validateLoop schema found (depth + 1) r
      | .error e => .error e
  | found, depth, .ok (.empty name _) :: r =>
    if depth = maxDepth then .error .panic
    else
      match enter schema (depth + 1) found (localName name) true with
      | .ok found => validateLoop schema found depth r
      | .error e => .error e
  | found, depth, .ok (.stop _) :: r =>
    if depth = 0 then .error .panic else validateLoop schema found (depth - 1) r
  | found, depth, .ok (.text _) :: r => validateLoop schema found depth r
  | found, depth, .ok (.other _) :: r => validateLoop schema found depth r

def validatePayload (x : Library) (payloadXml : Bytes) (schema : PayloadSchema) :
    Except Fault Unit :=
  match validateLoop schema ⟨false, []⟩ 0 (x.read payloadXml) with
  | .error e => .error e
  | .ok found =>
    if found.root then
      match schema.fields.find? (fun f => f.2.required && !found.fields.contains f.1) with
      | some f => .error (invalid (.missingElement f.1 schema.rootTag))
      | none => .ok ()
    else .error (invalid .noRoot)

/-! ## Tags by depth -/

/-- The local names of the elements at a depth, among events read from another depth on. -/
def tags (level : ℕ) : ℕ → List Event → List String
  | _, [] => []
  | depth, .start name _ :: es =>
    (if depth + 1 = level then [localName name] else []) ++ tags level (depth + 1) es
  | depth, .empty name _ :: es =>
    (if depth + 1 = level then [localName name] else []) ++ tags level depth es
  | depth, .stop _ :: es => tags level (depth - 1) es
  | depth, .text _ :: es => tags level depth es
  | depth, .other _ :: es => tags level depth es

/-- No element stands deeper than the counter can say. -/
def Shallow : ℕ → List Event → Prop
  | _, [] => True
  | depth, .start _ _ :: es => depth ≠ maxDepth ∧ Shallow (depth + 1) es
  | depth, .empty _ _ :: es => depth ≠ maxDepth ∧ Shallow depth es
  | depth, .stop _ :: es => Shallow (depth - 1) es
  | depth, .text _ :: es => Shallow depth es
  | depth, .other _ :: es => Shallow depth es

/-- No end tag is counted at depth zero. -/
def Grounded : ℕ → List Event → Prop
  | _, [] => True
  | depth, .start _ _ :: es => Grounded (depth + 1) es
  | depth, .empty _ _ :: es => Grounded depth es
  | depth, .stop _ :: es => depth ≠ 0 ∧ Grounded (depth - 1) es
  | depth, .text _ :: es => Grounded depth es
  | depth, .other _ :: es => Grounded depth es

/-- Text stands inside elements only, with or without the marks of CDATA. -/
def Bare : ℕ → List Event → Prop
  | _, [] => True
  | depth, .start _ _ :: es => Bare (depth + 1) es
  | depth, .empty _ _ :: es => Bare depth es
  | depth, .stop _ :: es => Bare (depth - 1) es
  | depth, .text _ :: es => depth ≠ 0 ∧ Bare depth es
  | depth, .other kind :: es => (kind = .cdata → depth ≠ 0) ∧ Bare depth es

/-- The root tags and the tags of all their children are what the schema asks for. -/
structure Fits (schema : PayloadSchema) (es : List Event) : Prop where
  root : ∀ t ∈ tags 1 0 es, t = schema.rootTag
  some : tags 1 0 es ≠ []
  required : ∀ n, Requires schema n → n ∈ tags 2 0 es
  strict : schema.strict = true → ∀ n ∈ tags 2 0 es, Declares schema n

/-- One root, closed, and no text outside it. -/
structure Whole (es : List Event) : Prop where
  closed : openAfter [] es = some []
  single : (tags 1 0 es).length = 1
  bare : Bare 0 es

/-! ## What a valid document is -/

def tagOf : Node → Option String
  | .element name _ _ => some (localName name)
  | .hollow name _ => some (localName name)
  | .text _ => none
  | .other _ => none

def childTags : Node → List String
  | .element _ _ children => children.filterMap tagOf
  | _ => []

/-- A single complete element with the name, the required children and, where the schema is strict,
    no others; comments and declarations may stand around it. -/
def Conforms (schema : PayloadSchema) (r : Reader) : Prop :=
  ∃ (before after : List Node) (root : Node), (∀ node ∈ before ++ after, node.Aside) ∧
    r = (events (before ++ root :: after)).map .ok ∧ tagOf root = some schema.rootTag ∧
    (∀ n, Requires schema n → n ∈ childTags root) ∧
    (schema.strict = true → ∀ n ∈ childTags root, Declares schema n)

/-- The check accepts exactly the documents that conform, and its counter never underflows. -/
structure Exact (x : Library) (payloadXml : Bytes) (schema : PayloadSchema) : Prop where
  decides : validatePayload x payloadXml schema = .ok () ↔ Conforms schema (x.read payloadXml)
  grounded : ∀ es : List Event, es.map .ok <+: x.read payloadXml → Grounded 0 es

/-! ## The loop -/

theorem enter_ok_iff (schema : PayloadSchema) {depth : ℕ} {found : Found}
    (hroot : depth ≠ 0 → found.root = true) (tag : String) (selfClosing : Bool) (out : Found) :
    enter schema (depth + 1) found tag selfClosing = .ok out ↔
      (depth = 0 → tag = schema.rootTag) ∧
      (depth = 1 → schema.strict = true → Declares schema tag) ∧
      out = ⟨true, found.fields ++ if depth + 1 = 2 then [tag] else []⟩ := by
  obtain ⟨root, fields⟩ := found
  unfold enter
  by_cases h0 : depth = 0
  · subst h0
    rw [if_pos rfl]
    by_cases ht : tag = schema.rootTag
    · rw [if_neg (not_not.mpr ht), Except.ok.injEq, if_neg (by omega), List.append_nil]
      exact ⟨fun h => ⟨fun _ => ht, fun h1 => absurd h1 (by omega), h.symm⟩,
        fun h => h.2.2.symm⟩
    · rw [if_pos ht]
      simp [ht]
  · have hr : root = true := hroot h0
    subst hr
    rw [if_neg (by omega)]
    by_cases h1 : depth = 1
    · subst h1
      rw [if_pos ⟨rfl, rfl⟩]
      cases hs : schema.strict && !schema.declares tag with
      | true =>
        rw [Bool.and_eq_true, Bool.not_eq_true'] at hs
        have hd : ¬ Declares schema tag := by
          rw [← declares_iff, hs.2]
          simp
        simp [hs.1, hd]
      | false =>
        have hd : schema.strict = true → Declares schema tag := by
          intro hstrict
          rw [hstrict, Bool.true_and, Bool.not_eq_false'] at hs
          exact (declares_iff schema tag).mp hs
        rw [if_neg Bool.false_ne_true, Except.ok.injEq]
        simp only [Nat.reduceAdd, ↓reduceIte, one_ne_zero, false_implies, true_implies, true_and]
        exact ⟨fun h => ⟨hd, h.symm⟩, fun h => h.2.symm⟩
    · rw [if_neg (by omega), Except.ok.injEq, if_neg (by omega), List.append_nil]
      exact ⟨fun h => ⟨fun he => absurd he h0, fun he => absurd he h1, h.symm⟩,
        fun h => h.2.2.symm⟩

/-- What the loop checks of the rest of the events, and what it adds to what was found. -/
structure Passed (schema : PayloadSchema) (found out : Found) (depth : ℕ) (es : List Event) :
    Prop where
  shallow : Shallow depth es
  root : ∀ t ∈ tags 1 depth es, t = schema.rootTag
  strict : schema.strict = true → ∀ t ∈ tags 2 depth es, Declares schema t
  found : out = ⟨found.root || !(tags 1 depth es).isEmpty, found.fields ++ tags 2 depth es⟩

theorem enter_passed_iff {schema : PayloadSchema} {depth next : ℕ} {found out : Found}
    (hroot : depth ≠ 0 → found.root = true) {name : Bytes} (selfClosing : Bool) {es : List Event}
    {e : Event} (htags : ∀ level, tags level depth (e :: es) =
      (if depth + 1 = level then [localName name] else []) ++ tags level next es)
    (hshallow : Shallow depth (e :: es) ↔ depth ≠ maxDepth ∧ Shallow next es)
    {rest : Found → Except Fault Found}
    (hrest : ∀ found', found'.root = true →
      (rest found' = .ok out ↔ Passed schema found' out next es)) :
    (if depth = maxDepth then .error .panic
      else match enter schema (depth + 1) found (localName name) selfClosing with
        | .ok found => rest found
        | .error e => .error e) = .ok out ↔ Passed schema found out depth (e :: es) := by
  have hpassed : Passed schema found out depth (e :: es) ↔ depth ≠ maxDepth ∧
      (depth = 0 → localName name = schema.rootTag) ∧
      (depth = 1 → schema.strict = true → Declares schema (localName name)) ∧
      Passed schema ⟨true, found.fields ++ if depth + 1 = 2 then [localName name] else []⟩ out
        next es := by
    have h1 := htags 1
    have h2 := htags 2
    constructor
    · intro h
      obtain ⟨hs, hr, hst, hf⟩ := h
      rw [h1] at hr hf
      rw [h2] at hst hf
      rw [hshallow] at hs
      refine ⟨hs.1, fun h0 => ?_, fun hd hstrict => ?_, hs.2, ?_, ?_, ?_⟩
      · refine hr _ (List.mem_append_left _ ?_)
        rw [if_pos (by omega)]
        exact List.mem_singleton.mpr rfl
      · refine hst hstrict _ (List.mem_append_left _ ?_)
        rw [if_pos (by omega)]
        exact List.mem_singleton.mpr rfl
      · exact fun t ht => hr t (List.mem_append_right _ ht)
      · exact fun hstrict t ht => hst hstrict t (List.mem_append_right _ ht)
      · rw [hf, ← List.append_assoc]
        by_cases h0 : depth = 0
        · simp [h0]
        · simp [hroot h0]
    · intro h
      obtain ⟨hmax, h0, hd, hs, hr, hst, hf⟩ := h
      refine ⟨hshallow.mpr ⟨hmax, hs⟩, ?_, ?_, ?_⟩
      · rw [h1]
        intro t ht
        rcases List.mem_append.mp ht with ht | ht
        · split_ifs at ht with hl
          · rw [List.mem_singleton.mp ht]
            exact h0 (by omega)
          · cases ht
        · exact hr t ht
      · rw [h2]
        intro hstrict t ht
        rcases List.mem_append.mp ht with ht | ht
        · split_ifs at ht with hl
          · rw [List.mem_singleton.mp ht]
            exact hd (by omega) hstrict
          · cases ht
        · exact hst hstrict t ht
      · rw [hf, h1, h2, ← List.append_assoc]
        by_cases h0 : depth = 0
        · simp [h0]
        · simp [hroot h0]
  rw [hpassed]
  by_cases hmax : depth = maxDepth
  · rw [if_pos hmax]
    exact iff_of_false (by simp) fun h => h.1 hmax
  · rw [if_neg hmax]
    have henter := enter_ok_iff schema hroot (localName name) selfClosing
    cases he : enter schema (depth + 1) found (localName name) selfClosing with
    | ok found' =>
      obtain ⟨h0, hd, rfl⟩ := (henter found').mp he
      rw [hrest _ rfl]
      exact ⟨fun h => ⟨hmax, h0, hd, h⟩, fun h => h.2.2.2⟩
    | error f =>
      refine iff_of_false (by simp) fun h => ?_
      rw [(henter _).mpr ⟨h.2.1, h.2.2.1, rfl⟩] at he
      cases he

/-- The stack of open elements has the height of the counter, which therefore never underflows. -/
theorem validateLoop_ok_iff (schema : PayloadSchema) (es : List Event) {st : List Bytes}
    (hst : openAfter st es ≠ none) {found : Found} (hroot : st ≠ [] → found.root = true)
    (out : Found) : validateLoop schema found st.length (es.map .ok) = .ok out ↔
      Passed schema found out st.length es := by
  have hroot' : st.length ≠ 0 → found.root = true := fun h => hroot (by simpa using h)
  induction es generalizing st found with
  | nil =>
    rw [List.map_nil, validateLoop, Except.ok.injEq]
    constructor
    · intro h
      refine ⟨trivial, by simp [tags], by simp [tags], ?_⟩
      simp [tags, h]
    · intro h
      rw [h.found]
      simp [tags]
  | cons e es ih =>
    rw [List.map_cons]
    cases e with
    | start name attrs =>
      rw [validateLoop]
      refine enter_passed_iff hroot' false (fun level => rfl) Iff.rfl fun found' hf => ?_
      have hopen : openAfter (name :: st) es ≠ none := hst
      exact ih hopen (fun _ => hf) fun _ => hf
    | empty name attrs =>
      rw [validateLoop]
      rw [openAfter] at hst
      refine enter_passed_iff hroot' true (fun level => rfl) Iff.rfl fun found' hf => ?_
      exact ih hst (fun _ => hf) fun _ => hf
    | stop m =>
      cases st with
      | nil => exact absurd rfl hst
      | cons n st =>
        rw [openAfter] at hst
        split_ifs at hst with hm
        · rw [validateLoop, List.length_cons, if_neg (Nat.succ_ne_zero _), Nat.add_sub_cancel]
          have hf := hroot (List.cons_ne_nil n st)
          refine (ih hst (fun _ => hf) fun _ => hf).trans ?_
          exact ⟨fun h => ⟨h.1, h.2, h.3, h.4⟩, fun h => ⟨h.1, h.2, h.3, h.4⟩⟩
        · exact absurd rfl hst
    | text s =>
      rw [validateLoop]
      rw [openAfter] at hst
      refine (ih hst hroot hroot').trans ?_
      exact ⟨fun h => ⟨h.1, h.2, h.3, h.4⟩, fun h => ⟨h.1, h.2, h.3, h.4⟩⟩
    | other =>
      rw [validateLoop]
      rw [openAfter] at hst
      refine (ih hst hroot hroot').trans ?_
      exact ⟨fun h => ⟨h.1, h.2, h.3, h.4⟩, fun h => ⟨h.1, h.2, h.3, h.4⟩⟩

theorem validateLoop_error (schema : PayloadSchema) (es : List Event) (e : XmlError)
    (rest : Reader) (found : Found) (depth : ℕ) (out : Found) :
    validateLoop schema found depth (es.map .ok ++ .error e :: rest) ≠ .ok out := by
  induction es generalizing found depth with
  | nil =>
    rw [List.map_nil, List.nil_append, validateLoop]
    simp
  | cons ev es ih =>
    rw [List.map_cons, List.cons_append]
    cases ev with
    | start name attrs =>
      rw [validateLoop]
      split_ifs
      · simp
      · split
        · exact ih _ _
        · simp
    | empty name attrs =>
      rw [validateLoop]
      split_ifs
      · simp
      · split
        · exact ih _ _
        · simp
    | stop m =>
      rw [validateLoop]
      split_ifs
      · simp
      · exact ih _ _
    | text s => exact ih _ _
    | other => exact ih _ _

theorem validatePayload_ok_iff {x : Library} {payloadXml : Bytes} {es : List Event}
    (hr : x.read payloadXml = es.map .ok) (hst : openAfter [] es ≠ none)
    (schema : PayloadSchema) :
    validatePayload x payloadXml schema = .ok () ↔ Shallow 0 es ∧ Fits schema es := by
  have hstart : ([] : List Bytes) ≠ [] → Found.root ⟨false, []⟩ = true := fun h => absurd rfl h
  have hloop := validateLoop_ok_iff schema es hst hstart
  unfold validatePayload
  rw [hr]
  constructor
  · intro h
    cases hl : validateLoop schema ⟨false, []⟩ 0 (es.map .ok) with
    | error e => simp [hl] at h
    | ok out =>
      obtain ⟨hs, hroot, hstrict, rfl⟩ := (hloop out).mp hl
      simp only [hl, List.length_nil, Bool.false_or, List.nil_append] at h
      split_ifs at h with hf
      split at h
      · simp at h
      · next hreq =>
        rw [List.find?_eq_none] at hreq
        refine ⟨hs, hroot, by simpa using hf, ?_, hstrict⟩
        intro n hn
        obtain ⟨f, hf, hr⟩ := hn
        have := hreq (n, f) hf
        simpa [hr] using this
  · intro h
    obtain ⟨hs, hroot, hsome, hrequired, hstrict⟩ := h
    have hl := (hloop _).mpr ⟨hs, hroot, hstrict, rfl⟩
    rw [List.length_nil] at hl
    rw [hl]
    have hf : schema.fields.find? (fun f => f.2.required && !(tags 2 0 es).contains f.1) =
        none := by
      rw [List.find?_eq_none]
      intro f hf
      by_cases hr : f.2.required = true
      · simpa [hr] using hrequired f.1 ⟨f.2, hf, hr⟩
      · simp [hr]
    simp only [Bool.false_or, List.nil_append]
    rw [if_pos (by simpa using hsome), hf]

/-! ## Documents as forests -/

mutual

theorem tags_node_above {level depth : ℕ} (h : level ≤ depth) (node : Node) (rest : List Event) :
    tags level depth (node.events ++ rest) = tags level depth rest := by
  cases node with
  | element name attrs children =>
    rw [Node.events, List.append_assoc, List.cons_append, tags, if_neg (by omega),
      List.nil_append, tags_events_above (Nat.le_succ_of_le h)]
    rfl
  | hollow name attrs =>
    rw [Node.events, List.singleton_append, tags, if_neg (by omega), List.nil_append]
  | text s => rfl
  | other => rfl

theorem tags_events_above {level depth : ℕ} (h : level ≤ depth) (nodes : List Node)
    (rest : List Event) : tags level depth (events nodes ++ rest) = tags level depth rest := by
  cases nodes with
  | nil => rfl
  | cons node nodes =>
    rw [events, List.append_assoc, tags_node_above h, tags_events_above h]

end

theorem tags_node (depth : ℕ) (node : Node) (rest : List Event) :
    tags (depth + 1) depth (node.events ++ rest) =
      (tagOf node).toList ++ tags (depth + 1) depth rest := by
  cases node with
  | element name attrs children =>
    rw [Node.events, List.append_assoc, List.cons_append, tags, if_pos rfl,
      tags_events_above (le_refl _)]
    rfl
  | hollow name attrs =>
    rw [Node.events, List.singleton_append, tags, if_pos rfl]
    rfl
  | text s => rfl
  | other => rfl

theorem tags_events (depth : ℕ) (nodes : List Node) (rest : List Event) :
    tags (depth + 1) depth (events nodes ++ rest) =
      nodes.filterMap tagOf ++ tags (depth + 1) depth rest := by
  induction nodes with
  | nil => rfl
  | cons node nodes ih =>
    rw [events, List.append_assoc, tags_node, ih, ← List.append_assoc, List.filterMap_cons]
    cases tagOf node with
    | none => rfl
    | some t => rfl

theorem tags_children (depth : ℕ) (node : Node) (rest : List Event) :
    tags (depth + 2) depth (node.events ++ rest) =
      childTags node ++ tags (depth + 2) depth rest := by
  cases node with
  | element name attrs children =>
    rw [Node.events, List.append_assoc, List.cons_append, tags, if_neg (by omega),
      List.nil_append, tags_events]
    rfl
  | hollow name attrs =>
    rw [Node.events, List.singleton_append, tags, if_neg (by omega), List.nil_append]
    rfl
  | text s => rfl
  | other => rfl

mutual

theorem bare_node_inside {depth : ℕ} (h : depth ≠ 0) (node : Node) (rest : List Event) :
    Bare depth (node.events ++ rest) ↔ Bare depth rest := by
  cases node with
  | element name attrs children =>
    rw [Node.events, List.append_assoc, List.cons_append, Bare,
      bare_events_inside (Nat.succ_ne_zero depth)]
    exact Iff.rfl
  | hollow name attrs => exact Iff.rfl
  | text s => exact and_iff_right h
  | other kind => exact and_iff_right fun _ => h

theorem bare_events_inside {depth : ℕ} (h : depth ≠ 0) (nodes : List Node) (rest : List Event) :
    Bare depth (events nodes ++ rest) ↔ Bare depth rest := by
  cases nodes with
  | nil => exact Iff.rfl
  | cons node nodes =>
    rw [events, List.append_assoc, bare_node_inside h, bare_events_inside h]

end

/-- Outside every element there is no text exactly where no node of the forest is one. -/
theorem bare_events (nodes : List Node) :
    Bare 0 (events nodes) ↔ ∀ node ∈ nodes, ¬ node.Aside → (tagOf node).isSome = true := by
  induction nodes with
  | nil => exact iff_of_true trivial fun node h => by cases h
  | cons node nodes ih =>
    rw [events, List.forall_mem_cons, ← ih]
    cases node with
    | element name attrs children =>
      rw [Node.events, List.append_assoc, List.cons_append, Bare,
        bare_events_inside Nat.one_ne_zero]
      exact (and_iff_right fun _ => rfl).symm
    | hollow name attrs => exact (and_iff_right fun _ => rfl).symm
    | text s => exact iff_of_false (fun h => h.1 rfl) fun h => by simpa [tagOf, Node.Aside] using h.1
    | other kind =>
      refine and_congr_left fun _ => ?_
      constructor
      · intro h ha
        exact absurd (fun hk => h hk rfl) ha
      · intro h hk
        subst hk
        have := h fun hne => hne rfl
        cases this

theorem tagOf_aside {node : Node} (h : node.Aside) : tagOf node = none := by
  obtain ⟨kind, rfl⟩ := h.eq_other
  rfl

theorem tags_asides {nodes : List Node} (h : ∀ node ∈ nodes, node.Aside) (level depth : ℕ)
    (rest : List Event) : tags level depth (events nodes ++ rest) = tags level depth rest := by
  induction nodes with
  | nil => rfl
  | cons node nodes ih =>
    obtain ⟨kind, rfl⟩ := (h node List.mem_cons_self).eq_other
    rw [events, List.append_assoc]
    exact ih fun n hn => h n (List.mem_cons_of_mem _ hn)

/-- A forest of one element and nodes that are neither elements nor text. -/
theorem exists_root {nodes : List Node} (hone : (nodes.filterMap tagOf).length = 1)
    (h : ∀ node ∈ nodes, ¬ node.Aside → (tagOf node).isSome = true) :
    ∃ before root after, nodes = before ++ root :: after ∧
      (∀ node ∈ before ++ after, node.Aside) ∧ (tagOf root).isSome = true := by
  induction nodes with
  | nil => cases hone
  | cons node nodes ih =>
    rw [List.forall_mem_cons] at h
    by_cases ho : node.Aside
    · rw [List.filterMap_cons, tagOf_aside ho] at hone
      obtain ⟨before, root, after, rfl, hn, hr⟩ := ih hone h.2
      refine ⟨node :: before, root, after, rfl, ?_, hr⟩
      rw [List.cons_append, List.forall_mem_cons]
      exact ⟨ho, hn⟩
    · have hs := h.1 ho
      obtain ⟨t, ht⟩ := Option.isSome_iff_exists.mp hs
      refine ⟨[], node, nodes, rfl, ?_, hs⟩
      rw [List.filterMap_cons, ht, List.length_cons] at hone
      have hnil : nodes.filterMap tagOf = [] := List.length_eq_zero_iff.mp (by omega)
      rw [List.filterMap_eq_nil_iff] at hnil
      intro n hm
      by_contra hno
      have := h.2 n hm hno
      rw [hnil n hm] at this
      cases this

/-- Around a single root, the tags are its own and those of its children. -/
theorem tags_document {before after : List Node} (h : ∀ node ∈ before ++ after, node.Aside)
    (root : Node) :
    tags 1 0 (events (before ++ root :: after)) = (tagOf root).toList ∧
      tags 2 0 (events (before ++ root :: after)) = childTags root := by
  have hb : ∀ node ∈ before, node.Aside := fun n hn => h n (List.mem_append_left after hn)
  have ha : ∀ node ∈ after, node.Aside := fun n hn => h n (List.mem_append_right before hn)
  have hafter : ∀ level, tags level 0 (events after) = [] := by
    intro level
    have := tags_asides ha level 0 []
    rwa [List.append_nil] at this
  rw [events_append, events]
  constructor
  · rw [tags_asides hb, tags_node, hafter, List.append_nil]
  · rw [tags_asides hb, tags_children, hafter, List.append_nil]

/-- One closed root with no text outside, as a document around its root. -/
theorem whole_iff (es : List Event) : Whole es ↔ ∃ before after root,
    (∀ node ∈ before ++ after, node.Aside) ∧ es = events (before ++ root :: after) ∧
      (tagOf root).isSome = true := by
  constructor
  · intro h
    obtain ⟨nodes, rfl⟩ := (closed_iff es).mp h.closed
    have hone := h.single
    have htags := tags_events 0 nodes []
    rw [List.append_nil] at htags
    rw [htags] at hone
    simp only [tags, List.append_nil] at hone
    obtain ⟨before, root, after, rfl, hn, hr⟩ := exists_root hone ((bare_events nodes).mp h.bare)
    exact ⟨before, after, root, hn, rfl, hr⟩
  · intro h
    obtain ⟨before, after, root, ho, rfl, hr⟩ := h
    obtain ⟨t, ht⟩ := Option.isSome_iff_exists.mp hr
    refine ⟨(closed_iff _).mpr ⟨_, rfl⟩, ?_, ?_⟩
    · rw [(tags_document ho root).1, ht]
      rfl
    · rw [bare_events]
      intro node hm hno
      rcases List.mem_append.mp hm with hm | hm
      · exact absurd (ho node (List.mem_append_left _ hm)) hno
      · rcases List.mem_cons.mp hm with rfl | hm
        · exact hr
        · exact absurd (ho node (List.mem_append_right _ hm)) hno

theorem conforms_iff (schema : PayloadSchema) (es : List Event) :
    Conforms schema (es.map .ok) ↔ Whole es ∧ Fits schema es := by
  rw [whole_iff]
  constructor
  · intro h
    obtain ⟨before, after, root, ho, hes, htag, hrequired, hstrict⟩ := h
    obtain rfl := map_ok_inj hes
    obtain ⟨h1, h2⟩ := tags_document ho root
    rw [htag, Option.toList_some] at h1
    refine ⟨⟨before, after, root, ho, rfl, by rw [htag]; rfl⟩, ?_, ?_, ?_, ?_⟩
    · rw [h1]
      exact fun t ht => List.mem_singleton.mp ht
    · rw [h1]
      exact List.cons_ne_nil _ _
    · rwa [h2]
    · rwa [h2]
  · intro h
    obtain ⟨⟨before, after, root, ho, rfl, hr⟩, hf⟩ := h
    obtain ⟨h1, h2⟩ := tags_document ho root
    obtain ⟨t, ht⟩ := Option.isSome_iff_exists.mp hr
    have hroot := hf.root t (by rw [h1, ht]; exact List.mem_singleton.mpr rfl)
    have hrequired := hf.required
    have hstrict := hf.strict
    rw [h2] at hrequired hstrict
    exact ⟨before, after, root, ho, rfl, by rw [ht, hroot], hrequired, hstrict⟩

theorem not_conforms_error (schema : PayloadSchema) (es : List Event) (e : XmlError)
    (rest : Reader) : ¬ Conforms schema (es.map .ok ++ .error e :: rest) := by
  intro h
  obtain ⟨before, after, root, _, hr, _⟩ := h
  have hmem : (.error e : Except XmlError Event) ∈ es.map .ok ++ .error e :: rest :=
    List.mem_append_right _ List.mem_cons_self
  rw [hr, List.mem_map] at hmem
  obtain ⟨ev, _, hev⟩ := hmem
  cases hev

/-- The counter has the height of the stack of open elements. -/
theorem grounded_of_openAfter {es : List Event} {st : List Bytes} (h : openAfter st es ≠ none) :
    Grounded st.length es := by
  induction es generalizing st with
  | nil => trivial
  | cons e es ih =>
    cases e with
    | start name attrs =>
      have hopen : openAfter (name :: st) es ≠ none := h
      exact ih hopen
    | stop m =>
      cases st with
      | nil => exact absurd rfl h
      | cons n st =>
        rw [openAfter] at h
        split_ifs at h with hm
        · exact ⟨Nat.succ_ne_zero _, ih h⟩
        · exact absurd rfl h
    | empty name attrs =>
      rw [openAfter] at h
      exact ih h
    | text s =>
      rw [openAfter] at h
      exact ih h
    | other =>
      rw [openAfter] at h
      exact ih h

/-- The counter and the set of tags stand in for the tree only where the document is one closed
    root with no text outside it. -/
theorem exact_iff {x : Library} {payloadXml : Bytes} (ends : EndsChecked (x.read payloadXml))
    (schema : PayloadSchema) : Exact x payloadXml schema ↔
      ∀ es : List Event, x.read payloadXml = es.map .ok → Fits schema es →
        (Whole es ↔ Shallow 0 es) := by
  have hgrounded : ∀ es : List Event, es.map .ok <+: x.read payloadXml → Grounded 0 es :=
    fun es hes => grounded_of_openAfter (ends es hes)
  rcases reader_cases (x.read payloadXml) with ⟨es, hr⟩ | ⟨es, e, rest, hr⟩
  · have hst : openAfter [] es ≠ none := ends es (by rw [hr])
    have hok := validatePayload_ok_iff hr hst schema
    have hconf := conforms_iff schema es
    rw [← hr] at hconf
    constructor
    · intro h es' hr' hf
      obtain rfl := map_ok_inj (hr.symm.trans hr')
      have hd := h.decides
      rw [hok, hconf] at hd
      exact ⟨fun hw => (hd.mpr ⟨hw, hf⟩).1, fun hs => (hd.mp ⟨hs, hf⟩).1⟩
    · intro h
      refine ⟨?_, hgrounded⟩
      rw [hok, hconf]
      exact and_congr_left fun hf => (h es hr hf).symm
  · constructor
    · intro _ es' hr' _
      have hmem : (.error e : Except XmlError Event) ∈ x.read payloadXml := by
        rw [hr]
        exact List.mem_append_right _ List.mem_cons_self
      rw [hr', List.mem_map] at hmem
      obtain ⟨ev, _, hev⟩ := hmem
      cases hev
    · intro _
      refine ⟨iff_of_false ?_ ?_, hgrounded⟩
      · intro h
        unfold validatePayload at h
        cases hl : validateLoop schema ⟨false, []⟩ 0 (x.read payloadXml) with
        | error f => simp [hl] at h
        | ok out =>
          rw [hr] at hl
          exact validateLoop_error schema es e rest _ 0 out hl
      · rw [hr]
        exact not_conforms_error schema es e rest

/-! ## A greeting -/

def greetingSchema : PayloadSchema :=
  ⟨"Greeting", [("text", ⟨true⟩), ("name", ⟨false⟩)], true, by decide⟩

def greetingXml : Bytes := utf8 "<Greeting><text>Hello!</text></Greeting>"

def cutGreetingXml : Bytes := utf8 "<Greeting><text>Hello!</text>"

def cutGreeting : List Event :=
  [.start (utf8 "Greeting") [], .start (utf8 "text") [], .text (.ok "Hello!"), .stop (utf8 "text")]

def greetingEvents : List Event := cutGreeting ++ [.stop (utf8 "Greeting")]

theorem read_greeting : PlainXml.read greetingXml = greetingEvents.map .ok := by
  rw [greetingXml, PlainXml.read, fromUtf8_utf8]
  rfl

theorem read_cutGreeting : PlainXml.read cutGreetingXml = cutGreeting.map .ok := by
  rw [cutGreetingXml, PlainXml.read, fromUtf8_utf8]
  rfl

theorem shallow_cutGreeting : Shallow 0 cutGreeting := by simp [cutGreeting, Shallow, maxDepth]

theorem exact_greeting : EndsChecked (PlainPlatform.plain.xml.read greetingXml) ∧
    Exact PlainPlatform.plain.xml greetingXml greetingSchema := by
  have hends := PlainXml.endsChecked_read greetingXml
  refine ⟨hends, (exact_iff hends greetingSchema).mpr fun es hr _ => ?_⟩
  have hes : greetingEvents = es := map_ok_inj (read_greeting.symm.trans hr)
  rw [← hes]
  refine iff_of_true ⟨by decide, by decide, ?_⟩ ?_
  · simp [greetingEvents, cutGreeting, Bare]
  · simp [greetingEvents, cutGreeting, Shallow, maxDepth]

/-- What is cut off before its last end tag passes as if it were whole. -/
theorem not_exact_cutGreeting :
    ¬ Exact PlainPlatform.plain.xml cutGreetingXml greetingSchema := by
  intro h
  have hread : PlainPlatform.plain.xml.read cutGreetingXml = cutGreeting.map .ok :=
    read_cutGreeting
  have htags : tags 2 0 cutGreeting = ["text"] := by decide
  have hfits : Fits greetingSchema cutGreeting := by
    refine ⟨by decide, by decide, ?_, ?_⟩
    · intro n hn
      obtain ⟨f, hf, hr⟩ := hn
      simp only [greetingSchema, List.mem_cons, Prod.mk.injEq, List.not_mem_nil, or_false] at hf
      rcases hf with ⟨rfl, rfl⟩ | ⟨rfl, rfl⟩
      · decide
      · cases hr
    · intro _ n hn
      rw [htags, List.mem_singleton] at hn
      rw [hn]
      exact List.mem_cons_self
  have hok := (validatePayload_ok_iff hread (by decide) greetingSchema).mpr
    ⟨shallow_cutGreeting, hfits⟩
  have hconf := h.decides.mp hok
  rw [hread, conforms_iff] at hconf
  have hclosed := hconf.1.closed
  revert hclosed
  decide

end RustPipeline.ByteValidation
