import RustPipeline.Pipeline
import RustPipeline.PlainPlatform

set_option autoImplicit false

/-!
# The schema gate

Validation finds a schema by the exact tag, routing finds a listener by the lower-cased one. A
listener sees only values of its own schema where the schema in force for the message's tag is at
least as strict.
-/
namespace RustPipeline.SchemaGate
open Wire Codec Handling Validation Registry Thread Federation Pipeline PlainPlatform

variable {F : Type}

/-- The validation and route stages hand the message to the listener. -/
def Passes (P : Platform F) (registry : ListenerRegistry F) (federation : Option PeerDirectory)
    (threads : ThreadRegistry) (env : Envelope F) (listener : String) : Prop :=
  ∃ msg routed, validateStage registry env = .ok msg ∧
    (routeStage P registry federation threads msg).2 = .forwarded routed ∧
    routed.targetName = listener

/-- Where the route stage alone would send a message with this header and tag. -/
def RoutesTo (P : Platform F) (registry : ListenerRegistry F) (federation : Option PeerDirectory)
    (header : Meta) (tag listener : String) : Prop :=
  isRemote federation header.toAddr = false ∧
    ∃ target, routeTarget P registry header tag = .ok target ∧ target.name = listener

theorem passes_iff (P : Platform F) (registry : ListenerRegistry F)
    (federation : Option PeerDirectory) (threads : ThreadRegistry) (env : Envelope F)
    (listener : String) : Passes P registry federation threads env listener ↔
      validatePayloadValue env.payload.value (registry.schemas.inForce env.payload.tag) = .ok () ∧
        RoutesTo P registry federation env.header env.payload.tag listener := by
  unfold Passes RoutesTo
  constructor
  · rintro ⟨msg, routed, hv, hr, rfl⟩
    obtain ⟨rfl, hval⟩ := (validateStage_ok_iff registry env msg).mp hv
    obtain ⟨hremote, target, ht, rfl⟩ := (routeStage_forwarded_iff _ _ _ _ _ _).mp hr
    exact ⟨hval, hremote, target, ht, rfl⟩
  · rintro ⟨hv, hremote, target, ht, rfl⟩
    have hpass := (validateStage_ok_iff registry env _).mpr ⟨rfl, hv⟩
    exact ⟨_, _, hpass, (routeStage_forwarded_iff P registry federation threads _ _).mpr
      ⟨hremote, target, ht, rfl⟩, rfl⟩

/-- Every value that passes to the listener under a header and a tag satisfies the listener's
    schema exactly when the listener is not reached that way or the schema in force for the tag is
    at least as strict as its own. -/
theorem schemaGate_iff (P : Platform F) (ls : List (Registration F))
    (federation : Option PeerDirectory) (threads : ThreadRegistry) (header : Meta) (tag : String)
    (listener : Registration F) (s : PayloadSchema) :
    (∀ value, Passes P (.build P.lowercase ls) federation threads ⟨header, ⟨tag, value⟩⟩
        listener.name → validatePayloadValue value s = .ok ()) ↔
      ¬ RoutesTo P (.build P.lowercase ls) federation header tag listener.name ∨
        AtLeastAsStrict ((ListenerRegistry.build P.lowercase ls).schemas.inForce tag) s := by
  simp only [passes_iff]
  by_cases h : RoutesTo P (.build P.lowercase ls) federation header tag listener.name
  · rw [or_iff_right (not_not.mpr h), ← atLeastAsStrict_iff (F := F)]
    constructor
    · intro hall v hv
      exact hall v ⟨hv, h⟩
    · rintro hall v ⟨hv, _⟩
      exact hall v hv
  · refine iff_of_true ?_ (Or.inl h)
    rintro v ⟨_, hr⟩
    exact absurd hr h

/-- A listener whose tag is spelled exactly, and whose schema is the one in force, is guarded. -/
theorem guarded_of_inForce (P : Platform F) (registry : ListenerRegistry F)
    (federation : Option PeerDirectory) (threads : ThreadRegistry) (env : Envelope F)
    (listener : String) {s : PayloadSchema} (hs : registry.schemas.schemas env.payload.tag = some s)
    (h : Passes P registry federation threads env listener) :
    validatePayloadValue env.payload.value s = .ok () := by
  have hv := ((passes_iff P registry federation threads env listener).mp h).1
  rw [SchemaRegistry.inForce, hs] at hv
  exact hv

/-! ## A tag in lower case -/

def greetingSchema : PayloadSchema := ⟨"Greeting", [("text", ⟨true⟩)], true, by simp⟩

def greeter : Registration UInt32 where
  name := "greeter"
  payloadTag := "Greeting"
  handler _ _ := .ok .none
  isAgent := false
  peers := []
  schema := some greetingSchema

def shouted : Envelope UInt32 :=
  ⟨⟨.flat "system", some (.flat "greeter"), "t1", .empty⟩, ⟨"greeting", .record [("x", .nil)]⟩⟩

theorem schemaGate_open :
    greeter ∈ [greeter] ∧ greeter.schema = some greetingSchema ∧
      greetingSchema.rootTag = greeter.payloadTag ∧
      Passes plain (.build plain.lowercase [greeter]) none .new shouted greeter.name ∧
      validatePayloadValue shouted.payload.value greetingSchema ≠ .ok () := by
  refine ⟨List.mem_singleton.mpr rfl, rfl, rfl, ?_, ?_⟩
  · exact ⟨_, _, rfl, rfl, rfl⟩
  · intro h
    cases h

end RustPipeline.SchemaGate
