import RustPipeline.Foundation.Xml

set_option autoImplicit false

/-!
# The tree behind a stream of events

A pull reader that checks its end tags leaves a stack of open elements behind every event. Where
nothing is left open at the end, the events are those of a forest.
-/
namespace RustPipeline.EventTree
open Text Xml

inductive Node where
  | element (name : Bytes) (attrs : List (Bytes × String)) (children : List Node)
  | hollow (name : Bytes) (attrs : List (Bytes × String))
  | text (unescaped : Except XmlError String)
  | other (kind : Other)

mutual

def Node.events : Node → List Event
  | .element name attrs children => .start name attrs :: events children ++ [.stop name]
  | .hollow name attrs => [.empty name attrs]
  | .text s => [.text s]
  | .other kind => [.other kind]

def events : List Node → List Event
  | [] => []
  | node :: nodes => node.events ++ events nodes

end

/-- Comments and declarations, which are no content. -/
def Node.Aside : Node → Prop
  | .other kind => kind ≠ .cdata
  | _ => False

instance : DecidablePred Node.Aside
  | .element _ _ _ => isFalse id
  | .hollow _ _ => isFalse id
  | .text _ => isFalse id
  | .other kind => inferInstanceAs (Decidable (kind ≠ .cdata))

/-- The nodes that are content. -/
def solid (nodes : List Node) : List Node := nodes.filter fun node => ¬ node.Aside

/-- The name of an element that is opened and closed. -/
def Node.name : Node → Option Bytes
  | .element name _ _ => some name
  | _ => none

def Node.inner : Node → List Node
  | .element _ _ children => solid children
  | _ => []

/-- A node, or one at any depth inside an element. -/
inductive Within : Node → Node → Prop where
  | self (node : Node) : Within node node
  | child {node inside : Node} {name : Bytes} {attrs : List (Bytes × String)}
      {children : List Node} (hi : inside ∈ children) (h : Within node inside) :
      Within node (.element name attrs children)

theorem events_append (a b : List Node) : events (a ++ b) = events a ++ events b := by
  induction a with
  | nil => rfl
  | cons node nodes ih => rw [List.cons_append, events, events, ih, List.append_assoc]

theorem events_singleton (node : Node) : events [node] = node.events := by
  rw [events, events, List.append_nil]

/-- The elements open after some events, innermost first, where every end tag matches. -/
def openAfter : List Bytes → List Event → Option (List Bytes)
  | st, [] => some st
  | st, .start n _ :: es => openAfter (n :: st) es
  | [], .stop _ :: _ => none
  | n :: st, .stop m :: es => if m = n then openAfter st es else none
  | st, .empty _ _ :: es => openAfter st es
  | st, .text _ :: es => openAfter st es
  | st, .other _ :: es => openAfter st es

/-- The end tags read before any error match. -/
def EndsChecked (r : Reader) : Prop :=
  ∀ es : List Event, es.map .ok <+: r → openAfter [] es ≠ none

/-- The events close the elements of the stack one after the other, with forests between. -/
def Closes : List Bytes → List Event → Prop
  | [], es => ∃ nodes, es = events nodes
  | n :: st, es => ∃ nodes rest, es = events nodes ++ .stop n :: rest ∧ Closes st rest

theorem Closes.cons_node {st : List Bytes} {es : List Event} (h : Closes st es) (node : Node) :
    Closes st (node.events ++ es) := by
  cases st with
  | nil =>
    obtain ⟨nodes, rfl⟩ := h
    exact ⟨node :: nodes, by rw [events]⟩
  | cons n st =>
    obtain ⟨nodes, rest, rfl, hr⟩ := h
    exact ⟨node :: nodes, rest, by rw [events, List.append_assoc], hr⟩

theorem closes_of_openAfter {st : List Bytes} {es : List Event} (h : openAfter st es = some []) :
    Closes st es := by
  induction es generalizing st with
  | nil =>
    rw [openAfter, Option.some_inj] at h
    subst h
    exact ⟨[], rfl⟩
  | cons e es ih =>
    cases e with
    | start n attrs =>
      have hopen : openAfter (n :: st) es = some [] := h
      obtain ⟨nodes, rest, rfl, hr⟩ := ih hopen
      have := hr.cons_node (.element n attrs nodes)
      rw [Node.events, List.append_assoc] at this
      exact this
    | stop m =>
      cases st with
      | nil => cases h
      | cons n st =>
        rw [openAfter] at h
        split_ifs at h with hm
        subst hm
        exact ⟨[], es, rfl, ih h⟩
    | empty n attrs =>
      rw [openAfter] at h
      exact (ih h).cons_node (.hollow n attrs)
    | text s =>
      rw [openAfter] at h
      exact (ih h).cons_node (.text s)
    | other kind =>
      rw [openAfter] at h
      exact (ih h).cons_node (.other kind)

mutual

theorem openAfter_node (st : List Bytes) (node : Node) (rest : List Event) :
    openAfter st (node.events ++ rest) = openAfter st rest := by
  cases node with
  | element name attrs children =>
    rw [Node.events, List.append_assoc, List.cons_append, openAfter, openAfter_events]
    exact if_pos rfl
  | hollow name attrs => rw [Node.events, List.singleton_append, openAfter]
  | text s => rw [Node.events, List.singleton_append, openAfter]
  | other kind => rw [Node.events, List.singleton_append, openAfter]

theorem openAfter_events (st : List Bytes) (nodes : List Node) (rest : List Event) :
    openAfter st (events nodes ++ rest) = openAfter st rest := by
  cases nodes with
  | nil => rfl
  | cons node nodes =>
    rw [events, List.append_assoc, openAfter_node, openAfter_events]

end

/-- Nothing is left open exactly where the events are those of a forest. -/
theorem closed_iff (es : List Event) : openAfter [] es = some [] ↔ ∃ nodes, es = events nodes := by
  constructor
  · exact closes_of_openAfter
  · intro h
    obtain ⟨nodes, rfl⟩ := h
    have := openAfter_events [] nodes []
    rwa [List.append_nil] at this

/-- A reader is a list of events, with an error behind it or without. -/
theorem reader_cases (r : Reader) : (∃ es : List Event, r = es.map .ok) ∨
    ∃ (es : List Event) (e : XmlError) (rest : Reader), r = es.map .ok ++ .error e :: rest := by
  induction r with
  | nil => exact .inl ⟨[], rfl⟩
  | cons x r ih =>
    cases x with
    | error e => exact .inr ⟨[], e, r, rfl⟩
    | ok ev =>
      rcases ih with ⟨es, rfl⟩ | ⟨es, e, rest, rfl⟩
      · exact .inl ⟨ev :: es, rfl⟩
      · exact .inr ⟨ev :: es, e, rest, rfl⟩

theorem map_ok_inj {a b : List Event} (h : (a.map .ok : Reader) = b.map .ok) : a = b :=
  List.map_injective_iff.mpr (fun _ _ => Except.ok.inj) h

/-! ## Content -/

theorem Node.Aside.eq_other {node : Node} (h : node.Aside) : ∃ kind, node = .other kind := by
  cases node with
  | other kind => exact ⟨kind, rfl⟩
  | _ => exact absurd h id

theorem mem_solid {node : Node} {nodes : List Node} :
    node ∈ solid nodes ↔ node ∈ nodes ∧ ¬ node.Aside := by
  rw [solid, List.mem_filter, decide_eq_true_eq]

theorem solid_cons_of_aside {node : Node} (h : node.Aside) (nodes : List Node) :
    solid (node :: nodes) = solid nodes := by
  rw [solid, List.filter_cons_of_neg (by simpa using h), solid]

theorem solid_cons_of_not {node : Node} (h : ¬ node.Aside) (nodes : List Node) :
    solid (node :: nodes) = node :: solid nodes := by
  rw [solid, List.filter_cons_of_pos (by simpa using h), solid]

@[simp] theorem not_aside_element (name : Bytes) (attrs : List (Bytes × String))
    (children : List Node) : ¬ (Node.element name attrs children).Aside := id

@[simp] theorem not_aside_hollow (name : Bytes) (attrs : List (Bytes × String)) :
    ¬ (Node.hollow name attrs).Aside := id

@[simp] theorem not_aside_text (s : Except XmlError String) : ¬ (Node.text s).Aside := id

/-- Comments apart, a list with one node has asides before and after it. -/
theorem solid_eq_singleton {nodes : List Node} {node : Node} (h : solid nodes = [node]) :
    ∃ before after, nodes = before ++ node :: after ∧ (∀ n ∈ before, n.Aside) ∧
      (∀ n ∈ after, n.Aside) := by
  rw [solid, List.filter_eq_cons_iff] at h
  obtain ⟨before, after, hn, hb, _, ha⟩ := h
  rw [List.filter_eq_nil_iff] at ha
  exact ⟨before, after, hn, fun n hm => by simpa using hb n hm, fun n hm => by simpa using ha n hm⟩

/-! ## A forest in front of what else is to be read -/

def ahead (nodes : List Node) (rest : Reader) : Reader := (events nodes).map .ok ++ rest

@[simp] theorem ahead_nil (rest : Reader) : ahead [] rest = rest := rfl

@[simp] theorem ahead_element (name : Bytes) (attrs : List (Bytes × String))
    (children nodes : List Node) (rest : Reader) :
    ahead (.element name attrs children :: nodes) rest =
      .ok (.start name attrs) :: ahead children (.ok (.stop name) :: ahead nodes rest) := by
  simp [ahead, events, Node.events]

@[simp] theorem ahead_hollow (name : Bytes) (attrs : List (Bytes × String)) (nodes : List Node)
    (rest : Reader) :
    ahead (.hollow name attrs :: nodes) rest = .ok (.empty name attrs) :: ahead nodes rest := rfl

@[simp] theorem ahead_text (s : Except XmlError String) (nodes : List Node) (rest : Reader) :
    ahead (.text s :: nodes) rest = .ok (.text s) :: ahead nodes rest := rfl

@[simp] theorem ahead_other (kind : Other) (nodes : List Node) (rest : Reader) :
    ahead (.other kind :: nodes) rest = .ok (.other kind) :: ahead nodes rest := rfl

theorem ahead_append (a b : List Node) (rest : Reader) :
    ahead (a ++ b) rest = ahead a (ahead b rest) := by
  rw [ahead, ahead, ahead, events_append, List.map_append, List.append_assoc]

end RustPipeline.EventTree
