import RustPipeline.CallReturn
import RustPipeline.Deliverability

set_option autoImplicit false

/-!
# The handoff of a spawn

What an accepted `Spawn` says about its work. The acknowledgement depends on the peer list alone;
the work then meets the parse, validation and route stages.
-/
namespace RustPipeline.SpawnHandoff
open Text Xml Wire Codec CodecImage Handling Routing Registry Thread Federation Validation Pipeline
open PipelineEffects Ingress RoundTrip CallReturn Deliverability PlainPlatform

variable {F : Type} (P : Platform F)

/-! ## Delivery -/

/-- A listener receives the item, or the federation egress does. -/
def Delivered (registry : ListenerRegistry F) (federation : Option PeerDirectory)
    (threads : ThreadRegistry) (raw : Bytes) : Prop :=
  (∃ routed, (ingress P registry federation threads raw).2 = .routed (.forwarded routed)) ∨
    ∃ env, (ingress P registry federation threads raw).2 = .routed (.egress env)

/-- The chain of a call: the caller's, with the destination's organism behind it. -/
def callChain (threads : ThreadRegistry) (msg : RoutedMsg F) (toAddr : Address) : String :=
  ThreadRegistry.extendedChain ((threads.lookup msg.envelope.header.thread).getD "")
    toAddr.organismName

/-- The work leaves for a peer or reaches a listener, and its thread is not blank. -/
structure Deliverable (lower : String → String) (ls : List (Registration F))
    (federation : Option PeerDirectory) (threads : ThreadRegistry) (msg : RoutedMsg F)
    (toAddr : Address) (payload : Payload F) : Prop where
  thread : Unblank threads (callChain threads msg toAddr)
  taken : Leaves ls federation msg.targetName toAddr payload.tag (presentNames payload.value) ∨
    ∃ listener, Reaches lower ls federation msg.targetName toAddr payload.tag
      (presentNames payload.value) listener

variable {P}

theorem delivered_call_iff (lawful : Lawful P) (ls : List (Registration F))
    (federation : Option PeerDirectory) (threads later : ThreadRegistry) {fresh : String}
    (hf : trimText fresh ≠ "") (msg : RoutedMsg F) (toAddr : Address) (payload : Payload F) :
    Delivered P (.build P.lowercase ls) federation later (encodeEnvelope P (callEnvelope msg toAddr
        (threads.extendChain msg.envelope.header.thread toAddr.organismName fresh).1 payload)) ↔
      Deliverable P.lowercase ls federation threads msg toAddr payload := by
  have hthread : trimText (threads.extendChain msg.envelope.header.thread toAddr.organismName
      fresh).1 ≠ "" ↔ Unblank threads (callChain threads msg toAddr) :=
    getOrCreate_unblank hf threads _
  have hforward := forwarded_iff lawful ls federation later msg.targetName toAddr
    (threads.extendChain msg.envelope.header.thread toAddr.organismName fresh).1
    msg.envelope.header.provenance payload
  have hegress := egress_iff lawful ls federation later msg.targetName toAddr
    (threads.extendChain msg.envelope.header.thread toAddr.organismName fresh).1
    msg.envelope.header.provenance payload
  unfold Delivered callEnvelope
  constructor
  · intro h
    rcases h with ⟨routed, h⟩ | h
    · obtain ⟨hid, hreach⟩ := (hforward routed.targetName).mp ⟨routed, h, rfl⟩
      exact ⟨hthread.mp hid, .inr ⟨_, hreach⟩⟩
    · obtain ⟨hid, hleave⟩ := hegress.mp h
      exact ⟨hthread.mp hid, .inl hleave⟩
  · intro h
    obtain ⟨hid, hleave | ⟨listener, hreach⟩⟩ := h
    · exact .inr (hegress.mpr ⟨hthread.mpr hid, hleave⟩)
    · obtain ⟨routed, h, _⟩ := (hforward listener).mpr ⟨hthread.mpr hid, hreach⟩
      exact .inl ⟨routed, h⟩

/-! ## What the acknowledgement promises -/

variable (P)

/-- A `SpawnAck` that accepts comes with work that is delivered, whatever the registry is by
    then. -/
def SpawnHonest (ctx : DispatchCtx F) (federation : Option PeerDirectory)
    (threads : ThreadRegistry) (fresh : String) (msg : RoutedMsg F) (toName : String) : Prop :=
  ∀ raw, .answer (spawnAckEnvelope msg toName true) raw ∈
      (processMessage P ctx threads fresh msg).2 →
    ∃ work bytes, .call work bytes ∈ (processMessage P ctx threads fresh msg).2 ∧
      ∀ later, Delivered P ctx.registry federation later bytes

/-- An accepting acknowledgement is sent exactly when the peer list lets the destination's name
    pass. -/
theorem accepted_iff {ctx : DispatchCtx F} {msg : RoutedMsg F} {toAddr : Address}
    {payload : Payload F} (hs : handlerResult ctx msg = some (.ok (.spawn toAddr payload)))
    (threads : ThreadRegistry) (fresh : String) :
    (∃ raw, .answer (spawnAckEnvelope msg toAddr.organismName true) raw ∈
        (processMessage P ctx threads fresh msg).2) ↔
      ¬ ctx.registry.routing.Refuses msg.targetName toAddr.organismName := by
  rw [← RoutingTable.enforcePeers_ok_iff]
  constructor
  · intro h
    obtain ⟨raw, hm⟩ := h
    by_contra hn
    unfold processMessage at hm
    rw [hs] at hm
    unfold respond spawnCall at hm
    dsimp only at hm
    cases he : ctx.registry.routing.enforcePeers msg.targetName toAddr.organismName with
    | ok u => exact hn he
    | error e =>
      rw [he] at hm
      have hack := (Effect.answer.inj (List.mem_singleton.mp hm)).1
      have hvalue := congrArg (fun e : Envelope F => e.payload) hack
      simp [spawnAckEnvelope, spawnAck] at hvalue
  · intro h
    exact ⟨_, (answer_mem_iff P _ _ _ _ _ _).mpr ⟨.spawned toAddr payload hs h, rfl⟩⟩

/-- What carries the work of a spawn that the peer list lets pass. -/
theorem call_of_spawn {ctx : DispatchCtx F} {msg : RoutedMsg F} {toAddr : Address}
    {payload : Payload F} (hs : handlerResult ctx msg = some (.ok (.spawn toAddr payload)))
    (ha : ctx.registry.routing.enforcePeers msg.targetName toAddr.organismName = .ok ())
    (threads : ThreadRegistry) (fresh : String) (work : Envelope F) (bytes : Bytes) :
    .call work bytes ∈ (processMessage P ctx threads fresh msg).2 ↔
      work = callEnvelope msg toAddr (threads.extendChain msg.envelope.header.thread
        toAddr.organismName fresh).1 payload ∧ bytes = encodeEnvelope P work := by
  rw [call_mem_iff]
  refine and_congr_left fun _ => ?_
  constructor
  · intro h
    cases h with
    | call b p h' hb =>
      rw [hs] at h'
      rcases h' with h' | h'
      · cases h'
      · cases h'
        rfl
  · intro h
    rw [h]
    exact .call toAddr payload (.inr hs) ha

variable {P}

/-- The acknowledgement of a spawn keeps its promise exactly when the spawner is barred from the
    destination's name or the work is deliverable. -/
theorem spawn_honest_iff (lawful : Lawful P) (ls : List (Registration F))
    (middleware : List (Middleware F)) (federation : Option PeerDirectory)
    (threads : ThreadRegistry) {fresh : String} (hf : trimText fresh ≠ "") (msg : RoutedMsg F)
    (toAddr : Address) (payload : Payload F)
    (hs : handlerResult ⟨.build P.lowercase ls, middleware⟩ msg =
      some (.ok (.spawn toAddr payload))) :
    SpawnHonest P ⟨.build P.lowercase ls, middleware⟩ federation threads fresh msg
        toAddr.organismName ↔
      Barred ls msg.targetName toAddr.organismName ∨
        Deliverable P.lowercase ls federation threads msg toAddr payload := by
  rw [← refuses_iff P.lowercase, or_iff_not_imp_left]
  constructor
  · intro h hr
    obtain ⟨raw, hm⟩ := (accepted_iff P hs threads fresh).mpr hr
    obtain ⟨work, bytes, hc, hd⟩ := h raw hm
    obtain ⟨rfl, rfl⟩ := (call_of_spawn P hs ((RoutingTable.enforcePeers_ok_iff _ _ _).mpr hr)
      threads fresh work bytes).mp hc
    exact (delivered_call_iff lawful ls federation threads threads hf msg toAddr payload).mp
      (hd threads)
  · intro h raw hm
    have hr := (accepted_iff P hs threads fresh).mp ⟨raw, hm⟩
    refine ⟨_, _, (call_of_spawn P hs ((RoutingTable.enforcePeers_ok_iff _ _ _).mpr hr)
      threads fresh _ _).mpr ⟨rfl, rfl⟩, ?_⟩
    intro later
    exact (delivered_call_iff lawful ls federation threads later hf msg toAddr payload).mpr (h hr)

/-- Between plain names, with nothing to escape, the work is deliverable when its fields fit the
    schema and the name is a peer's, or a listener is registered under the name and the tag that
    does not bar the spawner. -/
theorem deliverable_plain_iff (lower : String → String) (ls : List (Registration F))
    (federation : Option PeerDirectory) (threads : ThreadRegistry) {msg : RoutedMsg F}
    {name : String} {payload : Payload F} (hspawner : Solid msg.targetName) (hname : Solid name)
    (htag : Unescaped payload.tag) (hfields : ∀ n ∈ presentNames payload.value, Unescaped n) :
    Deliverable lower ls federation threads msg (.flat name) payload ↔
      Unblank threads (callChain threads msg (.flat name)) ∧
      Fits ls payload.tag (presentNames payload.value) ∧
      (isRemote federation (some (.flat name)) = true ∨
        ∃ l, firstUnder lower ls (some name) payload.tag = some l ∧
          ¬ Barred ls msg.targetName l.name) := by
  have hleaves := leaves_plain_iff ls federation hspawner hname htag hfields
  have hreaches := reaches_plain_iff lower ls federation hspawner hname htag hfields
  constructor
  · intro h
    obtain ⟨hthread, h | ⟨listener, h⟩⟩ := h
    · obtain ⟨hfits, hremote⟩ := hleaves.mp h
      exact ⟨hthread, hfits, .inl hremote⟩
    · obtain ⟨hfits, _, ⟨l, hl, rfl⟩, hb⟩ := (hreaches listener).mp h
      exact ⟨hthread, hfits, .inr ⟨l, hl, hb⟩⟩
  · intro h
    obtain ⟨hthread, hfits, h⟩ := h
    refine ⟨hthread, ?_⟩
    cases hremote : isRemote federation (some (.flat name)) with
    | true => exact .inl (hleaves.mpr ⟨hfits, hremote⟩)
    | false =>
      obtain ⟨l, hl, hb⟩ := h.resolve_left (by simp [hremote])
      exact .inr ⟨l.name, (hreaches l.name).mpr ⟨hfits, hremote, ⟨l, hl, rfl⟩, hb⟩⟩

/-! ## A destination with and without a listener -/

/-- A listener that delegates its messages to an address. -/
def delegator (toAddr : Address) : Registration UInt32 :=
  { front toAddr with handler := fun _ _ => .ok (.spawn toAddr ⟨"Order", .nil⟩) }

def agency (toAddr : Address) : DispatchCtx UInt32 :=
  ⟨.build plain.lowercase [delegator toAddr, waiter], []⟩

theorem agency_spawns (toAddr : Address) : handlerResult (agency toAddr) visitRouted =
    some (.ok (.spawn toAddr ⟨"Order", .nil⟩)) := rfl

theorem agency_routing (toAddr : Address) :
    (agency toAddr).registry.routing = (desk toAddr).registry.routing := rfl

theorem agency_ingress (toAddr : Address) (threads : ThreadRegistry) (raw : Bytes) :
    ingress plain (agency toAddr).registry none threads raw =
      ingress plain (desk toAddr).registry none threads raw := rfl

theorem agency_no_agent (toAddr : Address) (f g : String) :
    ¬ (agency toAddr).registry.routing.Refuses f g := by
  rw [agency_routing]
  exact desk_no_agent toAddr f g

theorem agency_bars_none (toAddr : Address) (f g : String) :
    ¬ Barred [delegator toAddr, waiter] f g := by
  intro h
  exact agency_no_agent toAddr f g ((refuses_iff plain.lowercase _ f g).mpr h)

theorem spawn_honest_bob :
    SpawnHonest plain (agency (.flat "bob")) none booked "u1" visitRouted "bob" := by
  have hfits : Fits [delegator (.flat "bob"), waiter] "Order" [] := by
    intro s hs
    cases hs
  have hfirst : firstUnder plain.lowercase [delegator (.flat "bob"), waiter] (some "bob") "Order" =
      some waiter := rfl
  have hfree : Unblank booked (callChain booked visitRouted (.flat "bob")) := by
    intro id hid
    cases hid
  apply (spawn_honest_iff plain_lawful [delegator (.flat "bob"), waiter] [] none booked
    (by decide) visitRouted (.flat "bob") ⟨"Order", .nil⟩ rfl).mpr
  refine .inr ⟨hfree, .inr ⟨"bob", .flat "alice", some (.flat "bob"), ?_, rfl, ⟨waiter, hfirst, rfl⟩,
    agency_bars_none _ _ _⟩⟩
  constructor
  · exact (headerAddress_iff _ _).mp rfl
  · exact (headerAddress_iff _ _).mp rfl
  · exact hfits

theorem decode_asked_nobody :
    decodeEnvelope plain (encodeEnvelope plain (asked (.flat "nobody"))) =
      .ok (asked (.flat "nobody")) :=
  decode_of_image rfl

/-- A spawn to a name without a listener is accepted, and its work is dropped. -/
theorem spawn_not_honest :
    (∃ raw, .answer (spawnAckEnvelope visitRouted "nobody" true) raw ∈
      (processMessage plain (agency (.flat "nobody")) booked "u1" visitRouted).2) ∧
    (∀ work bytes, .call work bytes ∈
        (processMessage plain (agency (.flat "nobody")) booked "u1" visitRouted).2 →
      ∀ later, (ingress plain (agency (.flat "nobody")).registry none later bytes).2 =
        .routed (.dropped (.noRoute "nobody.order"))) ∧
    ¬ SpawnHonest plain (agency (.flat "nobody")) none booked "u1" visitRouted "nobody" := by
  have hack : ∃ raw, .answer (spawnAckEnvelope visitRouted "nobody" true) raw ∈
      (processMessage plain (agency (.flat "nobody")) booked "u1" visitRouted).2 :=
    (accepted_iff plain (agency_spawns _) booked "u1").mpr (agency_no_agent _ _ _)
  have hdrop : ∀ work bytes, .call work bytes ∈
        (processMessage plain (agency (.flat "nobody")) booked "u1" visitRouted).2 →
      ∀ later, (ingress plain (agency (.flat "nobody")).registry none later bytes).2 =
        .routed (.dropped (.noRoute "nobody.order")) := by
    intro work bytes hc later
    obtain ⟨hw, hb⟩ := (call_of_spawn plain (agency_spawns _)
      ((RoutingTable.enforcePeers_ok_iff _ _ _).mpr (agency_no_agent _ _ _)) booked "u1"
        work bytes).mp hc
    have hroute : routeTarget plain (agency (.flat "nobody")).registry
        (asked (.flat "nobody")).header "Order" = .error (.noRoute "nobody.order") := by
      rfl
    have hwork : callEnvelope visitRouted (.flat "nobody") (booked.extendChain
        visitRouted.envelope.header.thread (Address.flat "nobody").organismName "u1").1
        ⟨"Order", .nil⟩ = asked (.flat "nobody") := rfl
    rw [hb, hw, hwork]
    exact (ingress_routed_iff plain _ _ _ _ _).mpr ⟨asked (.flat "nobody"), _,
      decode_asked_nobody, (validateStage_ok_iff _ _ _).mpr ⟨rfl, rfl⟩,
      (routeStage_dropped_iff plain _ _ _ _ _).mpr ⟨rfl, hroute⟩⟩
  refine ⟨hack, hdrop, ?_⟩
  intro h
  obtain ⟨raw, hm⟩ := hack
  obtain ⟨work, bytes, hc, hd⟩ := h raw hm
  rcases hd booked with ⟨routed, he⟩ | ⟨env, he⟩
  · rw [hdrop work bytes hc booked] at he
    cases he
  · rw [hdrop work bytes hc booked] at he
    cases he

end RustPipeline.SpawnHandoff
