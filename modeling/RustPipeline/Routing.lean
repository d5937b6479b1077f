import RustPipeline.Error
import Mathlib.Logic.Function.Basic

set_option autoImplicit false

/-!
# Routing and peer enforcement

The table keyed by `name.tag`, with `str::to_lowercase` as a parameter.
-/
namespace RustPipeline.Routing

structure ListenerEntry where
  name : String
  isAgent : Bool
  peers : Finset String
  routeKey : String

structure RoutingTable where
  routes : String → List ListenerEntry
  byName : String → Option ListenerEntry

def routeKey (lower : String → String) (name payloadTag : String) : String :=
  lower name ++ "." ++ lower payloadTag

namespace RoutingTable

def new : RoutingTable := ⟨fun _ => [], fun _ => none⟩

def register (lower : String → String) (t : RoutingTable) (name payloadTag : String)
    (isAgent : Bool) (peers : List String) : RoutingTable :=
  let key := routeKey lower name payloadTag
  let entry : ListenerEntry := ⟨name, isAgent, peers.toFinset, key⟩
  { routes := Function.update t.routes key (t.routes key ++ [entry])
    byName := Function.update t.byName name (some entry) }

/-- The key a message is looked up under; without a destination it is the bare tag. -/
def lookupKey (lower : String → String) (toId : Option String) (payloadTag : String) : String :=
  match toId with
  | some name => routeKey lower name payloadTag
  | none => lower payloadTag

/-- The first entry under the key; an empty vector counts as no route. -/
def resolve (lower : String → String) (t : RoutingTable) (toId : Option String)
    (payloadTag : String) : Except PipelineError ListenerEntry :=
  match t.routes (lookupKey lower toId payloadTag) with
  | entry :: _ => .ok entry
  | [] => .error (.noRoute (lookupKey lower toId payloadTag))

theorem routes_register_of_ne {lower : String → String} {t : RoutingTable}
    {name payloadTag : String} (isAgent : Bool) (peers : List String) {k : String}
    (h : k ≠ routeKey lower name payloadTag) :
    (t.register lower name payloadTag isAgent peers).routes k = t.routes k :=
  Function.update_of_ne h _ _

/-- The first listener under a key is the one that is found. -/
theorem resolve_register_of_free {lower : String → String} {t : RoutingTable}
    {name payloadTag : String} (isAgent : Bool) (peers : List String)
    (h : t.routes (routeKey lower name payloadTag) = []) :
    (t.register lower name payloadTag isAgent peers).resolve lower (some name) payloadTag =
      .ok ⟨name, isAgent, peers.toFinset, routeKey lower name payloadTag⟩ := by
  simp only [resolve, register, lookupKey, Function.update_self, h, List.nil_append]

/-- Registering another key leaves a route alone. -/
theorem resolve_register_of_ne {lower : String → String} {t : RoutingTable}
    {name payloadTag : String} (isAgent : Bool) (peers : List String) {toId : Option String}
    {tag : String} (h : lookupKey lower toId tag ≠ routeKey lower name payloadTag) :
    (t.register lower name payloadTag isAgent peers).resolve lower toId tag =
      t.resolve lower toId tag := by
  unfold resolve
  rw [routes_register_of_ne isAgent peers h]

def enforcePeers (t : RoutingTable) (fromAgent toAgent : String) : Except PipelineError Unit :=
  match t.byName fromAgent with
  | none => .ok ()
  | some sender =>
    if sender.isAgent then
      if toAgent ∈ sender.peers then .ok ()
      else .error (.peerViolation fromAgent toAgent sender.peers)
    else .ok ()

/-- An agent that does not list the other. -/
def Refuses (t : RoutingTable) (fromAgent toAgent : String) : Prop :=
  ∃ sender, t.byName fromAgent = some sender ∧ sender.isAgent = true ∧ toAgent ∉ sender.peers

theorem enforcePeers_ok_iff (t : RoutingTable) (fromAgent toAgent : String) :
    t.enforcePeers fromAgent toAgent = .ok () ↔ ¬ t.Refuses fromAgent toAgent := by
  unfold enforcePeers Refuses
  cases t.byName fromAgent with
  | none => simp
  | some sender =>
    cases sender.isAgent with
    | false => simp
    | true => by_cases h : toAgent ∈ sender.peers <;> simp [h]

theorem enforcePeers_of_refuses {t : RoutingTable} {fromAgent toAgent : String}
    (h : t.Refuses fromAgent toAgent) : ∃ allowed,
      t.enforcePeers fromAgent toAgent = .error (.peerViolation fromAgent toAgent allowed) := by
  obtain ⟨sender, hs, ha, hp⟩ := h
  refine ⟨sender.peers, ?_⟩
  simp only [enforcePeers, hs, ha, ↓reduceIte, hp]

end RoutingTable

end RustPipeline.Routing
