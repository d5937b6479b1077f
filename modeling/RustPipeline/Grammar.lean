import RustPipeline.CodecImage
import RustPipeline.Foundation.EventTree
import RustPipeline.Foundation.HexDigits

set_option autoImplicit false

/-!
# The grammar of the wire

The documents of the codec as trees, and what an element has to hold so that no loop of the decoder
passes over a part of it, takes a later part for an earlier one or reads a text as something else.
-/
namespace RustPipeline.Grammar
open Text Xml Wire Numerals Codec CodecImage EventTree HexDigits

variable {F : Type} (P : Platform F)

/-! ## Documents -/

def headerNames : List String := ["from", "to", "thread", "provenance"]

/-- The kinds of values that may be written without content. -/
def hollowKinds : List String := ["rec", "seq", "text", "blob", "nil"]

def textOf : List Node → String
  | [] => ""
  | .text (.ok s) :: nodes => s ++ textOf nodes
  | _ :: nodes => textOf nodes

def HexText (s : String) : Prop := ∀ c ∈ s.toList, IsDigit 16 c

/-- What the text of a value of a kind is; numbers are what the standard library reads as such. -/
structure Spelled (kind s : String) : Prop where
  uint : kind = "uint" → ∃ n, fromStrRadix 10 64 s = some n
  sint : kind = "sint" → ∃ z, parseSigned 63 s = some z
  real : kind = "real" → ∃ x, P.readReal s = some x
  boolean : kind = "bool" → s = "true" ∨ s = "false"
  blob : kind = "blob" → (trim s).toList.length % 2 = 0 ∧ HexText (trim s)
  nil : kind = "nil" → s = ""

/-- A value of a documented kind; a field of a record holds one value. -/
inductive IsValue : Node → Prop where
  | record {attrs : List (Bytes × String)} {children : List Node}
      (hk : attrText attrs "k" = "rec")
      (hf : ∀ field ∈ solid children, field.name = some (utf8 "f") ∧ field.inner.length = 1)
      (hv : ∀ field ∈ solid children, ∀ value ∈ field.inner, IsValue value) :
      IsValue (.element (utf8 "v") attrs children)
  | seq {attrs : List (Bytes × String)} {children : List Node}
      (hk : attrText attrs "k" = "seq") (hv : ∀ value ∈ solid children, IsValue value) :
      IsValue (.element (utf8 "v") attrs children)
  | scalar {attrs : List (Bytes × String)} {children : List Node}
      (hk : attrText attrs "k" ∈ scalarKinds)
      (ht : ∀ node ∈ solid children, ∃ s : String, node = .text (.ok s))
      (hs : Spelled P (attrText attrs "k") (textOf children)) :
      IsValue (.element (utf8 "v") attrs children)
  | hollow {attrs : List (Bytes × String)} (hk : attrText attrs "k" ∈ hollowKinds) :
      IsValue (.hollow (utf8 "v") attrs)

structure HeaderText (name s : String) : Prop where
  address : name = "from" ∨ name = "to" → ∃ a, Address.parse s = .ok a
  provenance : name = "provenance" → s.toList.length = 32 ∧ HexText s

def IsHeaderField (node : Node) : Prop :=
  ∃ name ∈ headerNames, ∃ s : String, node.name = some (utf8 name) ∧
    node.inner = [.text (.ok s)] ∧ HeaderText name (trim s)

def childNames (node : Node) : List (Option Bytes) := node.inner.map Node.name

structure IsMeta (node : Node) : Prop where
  name : node.name = some (utf8 "meta")
  fields : ∀ field ∈ node.inner, IsHeaderField field
  sender : (childNames node).count (some (utf8 "from")) = 1
  target : (childNames node).count (some (utf8 "to")) ≤ 1
  thread : (childNames node).count (some (utf8 "thread")) = 1
  provenance : (childNames node).count (some (utf8 "provenance")) ≤ 1

def IsPayload (node : Node) : Prop :=
  node.name = some (utf8 "payload") ∧ ∃ value, node.inner = [value] ∧ IsValue P value

/-- One complete message element, its header followed by its payload. Comments and declarations may
    stand anywhere, and the grammar says nothing of attributes other than the kinds of values. -/
def InGrammar (r : Reader) : Prop :=
  ∃ (nodes : List Node) (root header payload : Node), r = (events nodes).map .ok ∧
    solid nodes = [root] ∧ root.name = some (utf8 "message") ∧ root.inner = [header, payload] ∧
    IsMeta header ∧ IsPayload P payload

/-! ## Order inside one element -/

/-- The content of a value by its kind. -/
structure OrderlyContent (kind : String) (children : List Node) : Prop where
  record : kind = "rec" → ∀ node ∈ solid children, node.name = some (utf8 "f")
  seq : kind = "seq" → ∀ node ∈ solid children,
    node.name = some (utf8 "v") ∨ ∃ attrs, node = .hollow (utf8 "v") attrs
  scalar : kind ∈ scalarKinds → ∀ node ∈ solid children, ∃ s, node = .text s
  boolean : kind = "bool" → textOf children = "true" ∨ textOf children = "false"
  blob : kind = "blob" → '+' ∉ (trim (textOf children)).toList
  nil : kind = "nil" → textOf children = ""

/-- Every element by its name: nothing stands in it that its loop does not look at, and nothing
    twice. -/
structure OrderlyElement (name : Bytes) (attrs : List (Bytes × String)) (children : List Node) :
    Prop where
  message : name = utf8 "message" →
    ((solid children).map Node.name).Sublist [some (utf8 "meta"), some (utf8 "payload")]
  header : name = utf8 "meta" → ((solid children).map Node.name).Nodup ∧
    ∀ node ∈ solid children, ∃ f ∈ headerNames, node.name = some (utf8 f)
  field : ∀ f ∈ headerNames, name = utf8 f → ∃ s, solid children = [.text s]
  provenance : name = utf8 "provenance" → '+' ∉ (trim (textOf children)).toList
  single : name = utf8 "payload" ∨ name = utf8 "f" → ∀ s, Node.text s ∉ children
  value : name = utf8 "v" → OrderlyContent (attrText attrs "k") children

/-- CDATA is text that no loop reads. -/
def Orderly : Node → Prop
  | .element name attrs children => OrderlyElement name attrs children
  | .hollow _ attrs => attrText attrs "k" ∈ hollowKinds
  | .text _ => True
  | .other kind => kind ≠ .cdata

def Tidy (node : Node) : Prop := ∀ inside, Within inside node → Orderly inside

/-- The bytes are one complete element, and there is order in all the elements inside. -/
def Regular (r : Reader) : Prop :=
  ∃ (nodes : List Node) (root : Node), r = (events nodes).map .ok ∧ solid nodes = [root] ∧
    Tidy root

/-! ## Tidy trees -/

theorem Tidy.orderly {node : Node} (h : Tidy node) : Orderly node := h node (.self node)

theorem Tidy.child {name : Bytes} {attrs : List (Bytes × String)} {children : List Node}
    (h : Tidy (.element name attrs children)) {child : Node} (hc : child ∈ children) :
    Tidy child := fun inside hi => h inside (.child hc hi)

theorem Tidy.inner {node : Node} (h : Tidy node) {child : Node} (hc : child ∈ node.inner) :
    Tidy child := by
  cases node with
  | element name attrs children => exact h.child (mem_solid.mp hc).1
  | _ => cases hc

/-- Comments are in order anyway. -/
theorem tidy_of_inner {node : Node} (h : Orderly node) (hi : ∀ child ∈ node.inner, Tidy child) :
    Tidy node := by
  intro inside hw
  cases hw with
  | self => exact h
  | @child next name attrs children hc hw =>
    by_cases ha : next.Aside
    · obtain ⟨kind, rfl⟩ := ha.eq_other
      cases hw
      exact ha
    · exact hi next (mem_solid.mpr ⟨hc, ha⟩) inside hw

theorem orderly_value {attrs : List (Bytes × String)} {children : List Node}
    (h : OrderlyContent (attrText attrs "k") children) :
    Orderly (.element (utf8 "v") attrs children) := by
  refine ⟨?_, ?_, ?_, ?_, ?_, fun _ => h⟩ <;> simp [utf8_inj, headerNames]

theorem orderly_single {name : String} (hn : name = "payload" ∨ name = "f")
    {attrs : List (Bytes × String)} {children : List Node} (h : ∀ s, Node.text s ∉ children) :
    Orderly (.element (utf8 name) attrs children) := by
  rcases hn with rfl | rfl
  · refine ⟨?_, ?_, ?_, ?_, fun _ => h, ?_⟩ <;> simp [utf8_inj, headerNames]
  · refine ⟨?_, ?_, ?_, ?_, fun _ => h, ?_⟩ <;> simp [utf8_inj, headerNames]

theorem orderly_field {name : String} (hn : name ∈ headerNames) {attrs : List (Bytes × String)}
    {children : List Node} {s : Except XmlError String} (h : solid children = [.text s])
    (hp : name = "provenance" → '+' ∉ (trim (textOf children)).toList) :
    Orderly (.element (utf8 name) attrs children) := by
  have hne : ∀ other : String, other ∉ headerNames → utf8 name ≠ utf8 other := by
    intro other ho he
    exact ho (utf8_inj.mp he ▸ hn)
  refine ⟨?_, ?_, fun _ _ _ => ⟨s, h⟩, ?_, ?_, ?_⟩
  · exact fun he => absurd he (hne "message" (by decide))
  · exact fun he => absurd he (hne "meta" (by decide))
  · exact fun he => hp (utf8_inj.mp he)
  · intro he
    rcases he with he | he
    · exact absurd he (hne "payload" (by decide))
    · exact absurd he (hne "f" (by decide))
  · exact fun he => absurd he (hne "v" (by decide))

/-! ## What the grammar says is in order -/

/-- The text of a list is that of what is content in it. -/
theorem textOf_solid (nodes : List Node) : textOf (solid nodes) = textOf nodes := by
  induction nodes with
  | nil => rfl
  | cons node nodes ih =>
    by_cases ha : node.Aside
    · rw [solid_cons_of_aside ha, ih]
      obtain ⟨kind, rfl⟩ := ha.eq_other
      rfl
    · rw [solid_cons_of_not ha]
      cases node with
      | text s =>
        cases s with
        | error e => exact ih
        | ok s => exact congrArg (s ++ ·) ih
      | _ => exact ih

theorem noSign_of_hexText {s : String} (h : HexText s) : '+' ∉ s.toList :=
  fun hs => not_isDigit_plus (h '+' hs)

theorem element_of_name {node : Node} {name : Bytes} (h : node.name = some name) :
    ∃ attrs children, node = .element name attrs children := by
  cases node with
  | element n attrs children => exact ⟨attrs, children, by rw [Option.some.inj h]⟩
  | _ => cases h

theorem text_notMem {children : List Node} (h : ∀ node ∈ solid children, ∀ s, node ≠ .text s) :
    ∀ s, Node.text s ∉ children := fun s hs => h _ (mem_solid.mpr ⟨hs, not_aside_text s⟩) s rfl

theorem IsValue.not_text {value : Node} (h : IsValue P value) (s : Except XmlError String) :
    value ≠ .text s := by
  intro he
  subst he
  cases h

variable {P}

theorem IsValue.shape {value : Node} (h : IsValue P value) : value.name = some (utf8 "v") ∨
    ∃ attrs, value = .hollow (utf8 "v") attrs := by
  cases h with
  | hollow hk => exact .inr ⟨_, rfl⟩
  | _ => exact .inl rfl

theorem IsValue.not_aside {value : Node} (h : IsValue P value) : ¬ value.Aside := by
  cases h <;> exact id

theorem IsValue.tidy {value : Node} (h : IsValue P value) : Tidy value := by
  induction h with
  | @record attrs children hk hf hv ih =>
    refine tidy_of_inner (orderly_value ⟨fun _ node hn => (hf node hn).1, ?_, ?_, ?_, ?_, ?_⟩) ?_
    · simp [hk]
    · simp [hk, scalarKinds]
    · simp [hk]
    · simp [hk]
    · simp [hk]
    · intro field hm
      obtain ⟨fieldAttrs, inside, rfl⟩ := element_of_name (hf field hm).1
      refine tidy_of_inner (orderly_single (.inr rfl) (text_notMem ?_)) (ih _ hm)
      exact fun node hn => (hv _ hm node hn).not_text P
  | @seq attrs children hk hv ih =>
    refine tidy_of_inner (orderly_value ⟨?_, fun _ node hn => (hv node hn).shape, ?_, ?_, ?_, ?_⟩) ih
    · simp [hk]
    · simp [hk, scalarKinds]
    · simp [hk]
    · simp [hk]
    · simp [hk]
  | @scalar attrs children hk ht hs =>
    refine tidy_of_inner (orderly_value ⟨?_, ?_, ?_, hs.boolean, ?_, hs.nil⟩) ?_
    · intro he
      rw [he] at hk
      exact absurd hk (by decide)
    · intro he
      rw [he] at hk
      exact absurd hk (by decide)
    · intro _ node hn
      obtain ⟨s, rfl⟩ := ht node hn
      exact ⟨.ok s, rfl⟩
    · exact fun he => noSign_of_hexText (hs.blob he).2
    · intro node hn
      obtain ⟨s, rfl⟩ := ht node hn
      exact tidy_of_inner trivial fun child hc => by cases hc
  | hollow hk => exact tidy_of_inner hk fun child hc => by cases hc

theorem IsHeaderField.tidy {field : Node} (h : IsHeaderField field) : Tidy field := by
  obtain ⟨name, hn, s, hname, hinner, ht⟩ := h
  obtain ⟨attrs, children, rfl⟩ := element_of_name hname
  change solid children = _ at hinner
  refine tidy_of_inner (orderly_field hn hinner ?_) ?_
  · intro hp
    have htext : textOf children = s := by
      rw [← textOf_solid, hinner, textOf, textOf, String.append_empty]
    rw [htext]
    exact noSign_of_hexText (ht.provenance hp).2
  · change ∀ child ∈ solid children, _
    rw [hinner]
    intro child hc
    rw [List.mem_singleton.mp hc]
    exact tidy_of_inner trivial fun child hc => by cases hc

theorem IsMeta.count_le_one {node : Node} (h : IsMeta node) {f : String} (hf : f ∈ headerNames) :
    (childNames node).count (some (utf8 f)) ≤ 1 := by
  simp only [headerNames, List.mem_cons, List.not_mem_nil, or_false] at hf
  rcases hf with rfl | rfl | rfl | rfl
  · exact h.sender.le
  · exact h.target
  · exact h.thread.le
  · exact h.provenance

theorem IsMeta.tidy {node : Node} (h : IsMeta node) : Tidy node := by
  have hcount : ∀ f ∈ headerNames, (childNames node).count (some (utf8 f)) ≤ 1 :=
    fun f hf => h.count_le_one hf
  obtain ⟨attrs, children, rfl⟩ := element_of_name h.name
  have hfield : ∀ child ∈ solid children, ∃ f ∈ headerNames, child.name = some (utf8 f) := by
    intro child hc
    obtain ⟨f, hf, _, hname, _⟩ := h.fields child hc
    exact ⟨f, hf, hname⟩
  refine tidy_of_inner ⟨?_, fun _ => ⟨?_, hfield⟩, ?_, ?_, ?_, ?_⟩ fun child hc =>
    (h.fields child hc).tidy
  · simp [utf8_inj]
  · rw [List.nodup_iff_count_le_one]
    intro n
    by_cases hn : n ∈ (solid children).map Node.name
    · obtain ⟨child, hc, rfl⟩ := List.mem_map.mp hn
      obtain ⟨f, hf, hname⟩ := hfield child hc
      rw [hname]
      exact hcount f hf
    · rw [List.count_eq_zero_of_not_mem hn]
      exact Nat.zero_le 1
  · simp [utf8_inj, headerNames]
  · simp [utf8_inj]
  · simp [utf8_inj]
  · simp [utf8_inj]

theorem IsPayload.tidy {node : Node} (h : IsPayload P node) : Tidy node := by
  obtain ⟨hname, value, hinner, hv⟩ := h
  obtain ⟨attrs, children, rfl⟩ := element_of_name hname
  change solid children = _ at hinner
  refine tidy_of_inner (orderly_single (.inl rfl) (text_notMem ?_)) ?_
  · intro node hn
    rw [hinner] at hn
    rw [List.mem_singleton.mp hn]
    exact hv.not_text P
  · change ∀ child ∈ solid children, _
    rw [hinner]
    intro child hc
    rw [List.mem_singleton.mp hc]
    exact hv.tidy

theorem InGrammar.regular {r : Reader} (h : InGrammar P r) : Regular r := by
  obtain ⟨nodes, root, header, payload, hr, hroot, hname, hinner, hm, hp⟩ := h
  refine ⟨nodes, root, hr, hroot, ?_⟩
  obtain ⟨attrs, children, rfl⟩ := element_of_name hname
  change solid children = _ at hinner
  refine tidy_of_inner ⟨fun _ => ?_, ?_, ?_, ?_, ?_, ?_⟩ ?_
  · rw [hinner, List.map_cons, List.map_cons, hm.name, hp.1]
    exact List.Sublist.refl _
  · simp [utf8_inj]
  · simp [utf8_inj, headerNames]
  · simp [utf8_inj]
  · simp [utf8_inj]
  · simp [utf8_inj]
  · change ∀ child ∈ solid children, _
    rw [hinner]
    intro child hc
    simp only [List.mem_cons, List.not_mem_nil, or_false] at hc
    rcases hc with rfl | rfl
    · exact hm.tidy
    · exact hp.tidy

end RustPipeline.Grammar
