import RustPipeline.AnswerGate
import RustPipeline.FederationGate

set_option autoImplicit false

/-!
# Peer containment

What keeps the calls of an agent among its peers. The peer list is consulted for the organism
segment of the destination, the federation directory for the leading one.
-/
namespace RustPipeline.PeerContainment
open Text Wire Codec CodecImage Handling Routing Registry Thread Federation Validation Pipeline
open PipelineEffects Ingress RoundTrip PlainPlatform

variable {F : Type} (P : Platform F)

/-- The item does not leave the node, and no listener outside the set receives it. -/
structure Contained (registry : ListenerRegistry F) (federation : Option PeerDirectory)
    (threads : ThreadRegistry) (raw : Bytes) (peers : Finset String) : Prop where
  stays : ∀ env, (ingress P registry federation threads raw).2 ≠ .routed (.egress env)
  inside : ∀ routed, (ingress P registry federation threads raw).2 =
    .routed (.forwarded routed) → routed.targetName ∈ peers

/-- The destination does not lead with a peer namespace. A sender that reads back under another name
than the listener's own reaches no other listener than the set's. -/
structure Kept (registry : ListenerRegistry F) (federation : Option PeerDirectory)
    (listener : String) (peers : Finset String) (raw : Bytes) (env : Envelope F) : Prop where
  near : isRemote federation env.header.toAddr = false
  renamed : env.header.fromAddr.organismName ≠ listener →
    ∀ target, Resolves P registry federation raw env target →
      registry.routing.Refuses env.header.fromAddr.organismName target.name ∨
        target.name ∈ peers

theorem contained_iff {registry : ListenerRegistry F} {listener : String} {sender : ListenerEntry}
    (hs : registry.routing.byName listener = some sender) (ha : sender.isAgent = true)
    (federation : Option PeerDirectory) (threads : ThreadRegistry) (raw : Bytes) :
    Contained P registry federation threads raw sender.peers ↔
      ∀ env, decodeEnvelope P raw = .ok env →
        validatePayloadValue env.payload.value (registry.schemas.inForce env.payload.tag) =
          .ok () →
        Kept P registry federation listener sender.peers raw env := by
  constructor
  · intro h env hd hv
    constructor
    · by_contra hn
      refine h.stays env ((ingress_egress_iff P registry federation threads raw env).mpr
        ⟨hd, hv, ?_⟩)
      simpa using hn
    · intro _ target hres
      by_cases hr : registry.routing.Refuses env.header.fromAddr.organismName target.name
      · exact .inl hr
      · exact .inr (h.inside _ ((ingress_forwarded_iff P registry federation threads raw _).mpr
          ⟨env, target, hres, hr, rfl⟩))
  · intro h
    constructor
    · intro env he
      obtain ⟨hd, hv, hremote⟩ := (ingress_egress_iff P _ _ _ _ _).mp he
      rw [(h env hd hv).near] at hremote
      cases hremote
    · intro routed hf
      obtain ⟨env, target, hres, hn, rfl⟩ := (ingress_forwarded_iff P _ _ _ _ _).mp hf
      by_cases hname : env.header.fromAddr.organismName = listener
      · by_contra hmem
        rw [hname] at hn
        exact hn ⟨sender, hs, ha, hmem⟩
      · exact ((h env hres.decoded hres.valid).renamed hname target hres).resolve_left hn

/-- The calls of an agent stay among its peers exactly when each of them, read back, is kept. -/
theorem calls_contained_iff (ctx : DispatchCtx F) (federation : Option PeerDirectory)
    (threads later : ThreadRegistry) (fresh : String) (msg : RoutedMsg F) (sender : ListenerEntry)
    (hs : ctx.registry.routing.byName msg.targetName = some sender)
    (ha : sender.isAgent = true) :
    (∀ out raw, .call out raw ∈ (processMessage P ctx threads fresh msg).2 →
        Contained P ctx.registry federation later raw sender.peers) ↔
      ∀ out, Calls ctx threads fresh msg out →
        ∀ env, decodeEnvelope P (encodeEnvelope P out) = .ok env →
          validatePayloadValue env.payload.value
            (ctx.registry.schemas.inForce env.payload.tag) = .ok () →
          Kept P ctx.registry federation msg.targetName sender.peers (encodeEnvelope P out) env := by
  constructor
  · intro h out hc
    have hm := (call_mem_iff P ctx threads fresh msg out _).mpr ⟨hc, rfl⟩
    exact (contained_iff P hs ha federation later _).mp (h out _ hm)
  · intro h out raw hm
    obtain ⟨hc, rfl⟩ := (call_mem_iff P ctx threads fresh msg out raw).mp hm
    exact (contained_iff P hs ha federation later _).mpr (h out hc)

/-- The calls of a listener whose name reads back as itself are kept when they stay on the node. -/
theorem kept_iff_near {P : Platform F} (lawful : Lawful P) {registry : ListenerRegistry F}
    {federation : Option PeerDirectory} {peers : Finset String} {msg : RoutedMsg F}
    {toAddr : Address} {thread : String} {payload : Payload F} {env : Envelope F}
    (hL : Solid msg.targetName)
    (hd : decodeEnvelope P (encodeEnvelope P (callEnvelope msg toAddr thread payload)) = .ok env) :
    Kept P registry federation msg.targetName peers
        (encodeEnvelope P (callEnvelope msg toAddr thread payload)) env ↔
      isRemote federation env.header.toAddr = false := by
  have hfrom : env.header.fromAddr.organismName = msg.targetName := by
    rw [decode_encode lawful, wireImage_eq_ok] at hd
    have hread := hd.1
    change headerAddress (Address.flat msg.targetName).display = _ at hread
    rw [AddressText.display_flat, hL.headerAddress] at hread
    rw [← Option.some_inj.mp (Except.ok.inj hread), AddressText.organismName_flat]
  constructor
  · intro h
    exact h.near
  · intro h
    exact ⟨h, fun hne => absurd hfrom hne⟩

/-- A call to a plain name that is no peer namespace is kept. -/
theorem kept_of_flat {P : Platform F} (lawful : Lawful P) {registry : ListenerRegistry F}
    {federation : Option PeerDirectory} {peers : Finset String} {msg : RoutedMsg F}
    {peer thread : String} {payload : Payload F} {env : Envelope F} (hL : Solid msg.targetName)
    (hp : Solid peer) (hnear : isRemote federation (some (.flat peer)) = false)
    (hd : decodeEnvelope P (encodeEnvelope P (callEnvelope msg (.flat peer) thread payload)) =
      .ok env) :
    Kept P registry federation msg.targetName peers
      (encodeEnvelope P (callEnvelope msg (.flat peer) thread payload)) env := by
  apply (kept_iff_near lawful hL hd).mpr
  rw [decode_encode lawful, wireImage_eq_ok] at hd
  have hto := hd.2.1
  change headerAddress (Address.flat peer).display = _ at hto
  rw [AddressText.display_flat, hp.headerAddress] at hto
  rw [← Except.ok.inj hto]
  exact hnear

/-! ## A flat destination, and a keyed segment behind a peer namespace -/

/-- An agent that sends an order to an address. -/
def courier (toAddr : Address) : Registration UInt32 where
  name := "coder"
  payloadTag := "Greeting"
  handler _ _ := .ok (.send toAddr ⟨"Order", .nil⟩)
  isAgent := true
  peers := ["bob"]
  schema := none

def bob : Registration UInt32 where
  name := "bob"
  payloadTag := "Order"
  handler _ _ := .ok .none
  isAgent := false
  peers := []
  schema := none

def depot (toAddr : Address) : DispatchCtx UInt32 :=
  ⟨.build plain.lowercase [courier toAddr, bob], []⟩

def remotes : Option PeerDirectory := some (PeerDirectory.new.register FederationGate.ringhub)

def courierEntry : ListenerEntry :=
  ⟨"coder", true, List.toFinset ["bob"], routeKey plain.lowercase "coder" "Greeting"⟩

theorem courier_sends (toAddr : Address) : handlerResult (depot toAddr) AnswerGate.taskRouted =
    some (.ok (.send toAddr ⟨"Order", .nil⟩)) := rfl

def parcel (toAddr : Address) : Envelope UInt32 :=
  ⟨⟨.flat "coder", some toAddr, "u1", .empty⟩, ⟨"Order", .nil⟩⟩

theorem courier_contained :
    Contained plain (depot (.flat "bob")).registry remotes AnswerGate.routedThreads
      (encodeEnvelope plain (parcel (.flat "bob"))) courierEntry.peers := by
  have hm : .call (parcel (.flat "bob")) (encodeEnvelope plain (parcel (.flat "bob"))) ∈
      (processMessage plain (depot (.flat "bob")) AnswerGate.routedThreads "u1"
        AnswerGate.taskRouted).2 :=
    (call_mem_iff plain _ _ _ _ _ _).mpr ⟨.call _ _ (.inl (courier_sends _)) rfl, rfl⟩
  refine (calls_contained_iff plain (depot (.flat "bob")) remotes AnswerGate.routedThreads _ "u1"
    AnswerGate.taskRouted courierEntry rfl rfl).mpr ?_ _ _ hm
  rintro _ ⟨toAddr, payload, h, _⟩ env hd _
  rw [courier_sends] at h
  rcases h with h | h
  · cases h
    exact kept_of_flat plain_lawful AnswerGate.solid_coder ⟨by decide, by decide⟩ rfl hd
  · cases h

def keyed : Address := ⟨[⟨"ringhub", none⟩, ⟨"bob", some "alice"⟩]⟩

/-- An agent with the one peer `bob`, a local listener, sends to `ringhub.bob[alice]`, and the
    envelope is handed to the federation egress. -/
theorem call_not_contained :
    (depot keyed).registry.routing.byName "coder" = some courierEntry ∧
      (∀ p ∈ courierEntry.peers, ((depot keyed).registry.routing.byName p).isSome ∧
        isRemote remotes (some (.flat p)) = false) ∧
      .call (parcel keyed) (encodeEnvelope plain (parcel keyed)) ∈
        (processMessage plain (depot keyed) AnswerGate.routedThreads "u1"
          AnswerGate.taskRouted).2 ∧
      (ingress plain (depot keyed).registry remotes AnswerGate.routedThreads
        (encodeEnvelope plain (parcel keyed))).2 = .routed (.egress (parcel keyed)) ∧
      ¬ Contained plain (depot keyed).registry remotes AnswerGate.routedThreads
        (encodeEnvelope plain (parcel keyed)) courierEntry.peers := by
  have hdecode : decodeEnvelope plain (encodeEnvelope plain (parcel keyed)) = .ok (parcel keyed) :=
    decode_of_image rfl
  have hegress : (ingress plain (depot keyed).registry remotes AnswerGate.routedThreads
      (encodeEnvelope plain (parcel keyed))).2 = .routed (.egress (parcel keyed)) :=
    (ingress_egress_iff plain _ _ _ _ _).mpr ⟨hdecode, rfl, rfl⟩
  refine ⟨rfl, ?_, ?_, hegress, fun h => h.stays (parcel keyed) hegress⟩
  · intro p hp
    have hb : p = "bob" := by simpa [courierEntry] using hp
    subst hb
    exact ⟨rfl, rfl⟩
  · exact (call_mem_iff plain _ _ _ _ _ _).mpr ⟨.call _ _ (.inl (courier_sends keyed)) rfl, rfl⟩

end RustPipeline.PeerContainment
