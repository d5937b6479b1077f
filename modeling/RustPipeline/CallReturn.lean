import RustPipeline.Conversations
import RustPipeline.RoundTrip

set_option autoImplicit false

/-!
# Calls and their returns

A `Send` appends one hop to the chain of its thread, and the callee's reply cuts one part off. The
two undo each other exactly when the hop is a single part.
-/
namespace RustPipeline.CallReturn
open Text Wire Codec CodecImage Handling Routing Registry Thread Federation Pipeline PipelineEffects
open Ingress PipelineRuns Conversations RoundTrip PlainPlatform Separated TransitionSystem Relation

variable {F : Type} {P : Platform F}

/-- The reply of a message's handler is built, goes to the listener and carries the thread. -/
def ReturnsTo (P : Platform F) (ctx : DispatchCtx F) (threads : ThreadRegistry) (fresh : String)
    (msg : RoutedMsg F) (listener thread : String) : Prop :=
  ∃ out raw, .answer out raw ∈ (processMessage P ctx threads fresh msg).2 ∧
    out.header.toAddr = some (.flat listener) ∧ out.header.thread = thread

/-! ## The chain of a call -/

theorem extendedChain_of_ne {chain : String} (hne : chain ≠ "") (hop : String) :
    ThreadRegistry.extendedChain chain hop = chain ++ String.singleton '.' ++ hop := by
  unfold ThreadRegistry.extendedChain
  rw [if_neg hne]
  rfl

/-- The thread of a call stands for the caller's chain with the hop appended. -/
theorem extendChain_lookup {threads : ThreadRegistry} (h : Sound threads) {id chain hop fresh : String}
    (hl : threads.lookup id = some chain) (hf : FreshUuid threads fresh) :
    (threads.extendChain id hop fresh).2.lookup (threads.extendChain id hop fresh).1 =
      some (ThreadRegistry.extendedChain chain hop) := by
  unfold ThreadRegistry.extendChain
  rw [show threads.uuidToChain id = some chain from hl]
  exact ((h.getOrCreate _ hf).consistent _ _).mpr (getOrCreate_chain _ _ _)

theorem extendChain_trimmed {threads : ThreadRegistry} (h : Sound threads) {id chain hop fresh : String}
    (hl : threads.lookup id = some chain) (hf : FreshUuid threads fresh) :
    trim (threads.extendChain id hop fresh).1 = (threads.extendChain id hop fresh).1 := by
  have hs : Sound (threads.extendChain id hop fresh).2 := h.getOrCreate _ hf
  exact hs.trimmed _ _ (extendChain_lookup h hl hf)

/-- A chain is found under the thread it belongs to, and no other chain is. -/
theorem getOrCreate_eq_iff {threads : ThreadRegistry} (h : Sound threads) {id chain fresh : String}
    (hl : threads.lookup id = some chain) (hf : FreshUuid threads fresh) (c : String) :
    (threads.getOrCreate c fresh).1 = id ↔ c = chain := by
  constructor
  · intro he
    unfold ThreadRegistry.getOrCreate at he
    cases hc : threads.chainToUuid c with
    | some uuid =>
      rw [hc] at he
      change uuid = id at he
      subst he
      have hu := (h.consistent uuid c).mpr hc
      exact Option.some_inj.mp (hu.symm.trans hl)
    | none =>
      rw [hc] at he
      change fresh = id at he
      subst he
      rw [ThreadRegistry.lookup, hf.unused] at hl
      cases hl
  · rintro rfl
    rw [getOrCreate_of_some fresh ((h.consistent id c).mp hl)]

/-- The reply on a chain that ends in a hop goes back to the listener before the hop, on its
    thread, exactly when the hop is a single part. -/
theorem returnsTo_iff {ctx : DispatchCtx F} {threads : ThreadRegistry} (h : Sound threads)
    {msg : RoutedMsg F} {payload : Payload F} (hr : replies ctx msg payload)
    {fresh chain hop id listener : String} (hf : FreshUuid threads fresh)
    (hN : threads.lookup msg.envelope.header.thread = some (chain ++ String.singleton '.' ++ hop))
    (hT : threads.lookup id = some chain) (hlast : (split '.' chain).getLast? = some listener) :
    ReturnsTo P ctx threads fresh msg listener id ↔ '.' ∉ hop.toList := by
  have hd : '.' ∈ (chain ++ String.singleton '.' ++ hop).toList := by simp
  have hprune := pruneForResponse_some fresh hN hd
  constructor
  · rintro ⟨out, raw, hm, _, hthread⟩
    obtain ⟨prune, hp, rfl⟩ := answers_of_replies hr ((answer_mem_iff P _ _ _ _ _ _).mp hm).1
    rw [hprune, Option.some_inj] at hp
    subst hp
    exact (parent_append_iff chain hop).mp ((getOrCreate_eq_iff h hT hf _).mp hthread)
  · intro hn
    have htarget : (split '.' (chain ++ String.singleton '.' ++ hop)).dropLast.getLastD "" =
        listener := by
      rw [split_append_part hn, List.dropLast_concat, List.getLastD_eq_getLast?, hlast]
      rfl
    have hthread := (getOrCreate_eq_iff h hT hf _).mpr (parent_append_part chain hn)
    rw [htarget, hthread] at hprune
    refine ⟨_, _, (answer_mem_iff P ctx threads fresh msg _ _).mpr
      ⟨.reply ⟨listener, id⟩ payload hr (by rw [hprune]), rfl⟩, rfl, rfl⟩

/-! ## A call on the wire -/

theorem headerText_of_trimmed {s t : String} (hs : trim s = s) (h : headerText s = some t) :
    s = t := by
  have hne : s ≠ "" := by
    rintro rfl
    cases h
  rw [(headerText_eq_self_iff hne).mpr hs, Option.some_inj] at h
  exact h

/-- A call that reads back keeps its thread, and its sender has a name. -/
theorem call_decoded (lawful : Lawful P) {msg : RoutedMsg F} {toAddr : Address} {thread : String}
    {payload : Payload F} {env : Envelope F} (ht : trim thread = thread)
    (h : decodeEnvelope P (encodeEnvelope P (callEnvelope msg toAddr thread payload)) = .ok env) :
    thread = env.header.thread ∧ msg.targetName ≠ "" := by
  rw [decode_encode lawful, wireImage_eq_ok] at h
  obtain ⟨hfrom, _, hthread, _⟩ := h
  refine ⟨headerText_of_trimmed ht hthread, ?_⟩
  intro he
  change headerAddress (Address.flat msg.targetName).display = _ at hfrom
  rw [AddressText.display_flat, he] at hfrom
  cases hfrom

theorem chain_ne_empty {chain listener : String} (hlast : (split '.' chain).getLast? = some listener)
    (hne : listener ≠ "") : chain ≠ "" := by
  rintro rfl
  rw [split_of_notMem (by simp)] at hlast
  exact hne (Option.some_inj.mp hlast).symm

/-! ## A call and the reply to it, in a run -/

/-- A message on a live thread whose chain ends in its handler, the handler's `Send`, the routing
    of the call at some later registry, and a reply of the callee while the thread is live. -/
structure Exchange (P : Platform F) (ctx : DispatchCtx F) (federation : Option PeerDirectory) where
  start : ThreadRegistry
  reachable : Reachable (pipeline P ctx federation) start
  msg : RoutedMsg F
  chain : String
  live : start.lookup msg.envelope.header.thread = some chain
  last : (split '.' chain).getLast? = some msg.targetName
  toAddr : Address
  payload : Payload F
  sends : handlerResult ctx msg = some (.ok (.send toAddr payload))
  callUuid : String
  callFresh : FreshUuid start callUuid
  call : Envelope F
  raw : Bytes
  called : .call call raw ∈ (processMessage P ctx start callUuid msg).2
  arrival : ThreadRegistry
  travel : ReflTransGen (Step P ctx federation) (processMessage P ctx start callUuid msg).1 arrival
  routed : RoutedMsg F
  routes : (ingress P ctx.registry federation arrival raw).2 = .routed (.forwarded routed)
  late : ThreadRegistry
  wait : ReflTransGen (Step P ctx federation) (ingress P ctx.registry federation arrival raw).1 late
  stillLive : late.lookup msg.envelope.header.thread = some chain
  reply : Payload F
  callee : replies ctx routed reply
  replyUuid : String
  replyFresh : FreshUuid late replyUuid

variable {ctx : DispatchCtx F} {federation : Option PeerDirectory}

theorem Exchange.reachable_late (x : Exchange P ctx federation) :
    Reachable (pipeline P ctx federation) x.late := by
  have h1 : Reachable (pipeline P ctx federation) x.arrival :=
    (Reachable.next x.reachable (Step.process x.start x.msg x.callUuid x.callFresh)).trans x.travel
  exact (Reachable.next h1 (Step.ingress x.arrival x.raw)).trans x.wait

/-- The callee runs on the caller's chain with the destination's organism appended. -/
theorem Exchange.callee_chain (lawful : Lawful P) (x : Exchange P ctx federation) :
    x.late.lookup x.routed.envelope.header.thread =
      some (x.chain ++ String.singleton '.' ++ x.toAddr.organismName) := by
  have hs := sound_of_reachable P x.reachable
  obtain ⟨hc, hraw⟩ := (call_mem_iff P _ _ _ _ _ _).mp x.called
  obtain ⟨ha, hcall⟩ := calls_of_send x.sends hc
  obtain ⟨hd, _⟩ := ingress_forwarded P x.routes
  rw [hraw, hcall] at hd
  obtain ⟨hthread, hname⟩ := call_decoded lawful (extendChain_trimmed hs x.live x.callFresh) hd
  have hlookup : (x.start.extendChain x.msg.envelope.header.thread x.toAddr.organismName
      x.callUuid).2.lookup _ = some _ := extendChain_lookup hs x.live x.callFresh
  rw [extendedChain_of_ne (chain_ne_empty x.last hname), hthread,
    ← processMessage_of_send P x.sends ha x.start x.callUuid] at hlookup
  have hdot : '.' ∈ (x.chain ++ String.singleton '.' ++ x.toAddr.organismName).toList := by simp
  have hrun : ReflTransGen (Step P ctx federation)
      (processMessage P ctx x.start x.callUuid x.msg).1 x.late :=
    x.travel.trans (.head (Step.ingress x.arrival x.raw) x.wait)
  exact lookup_of_run P hrun hlookup hdot

/-- The reply returns to the sender on its thread exactly when the organism of the destination it
    named is free of dots. -/
theorem reply_returns_iff (lawful : Lawful P) (x : Exchange P ctx federation) :
    ReturnsTo P ctx x.late x.replyUuid x.routed x.msg.targetName x.msg.envelope.header.thread ↔
      '.' ∉ x.toAddr.organismName.toList :=
  returnsTo_iff (sound_of_reachable P x.reachable_late) x.callee x.replyFresh
    (x.callee_chain lawful) x.stillLive x.last

/-! ## A destination without and with a dot -/

/-- A listener that passes its messages on to an address. -/
def front (toAddr : Address) : Registration UInt32 where
  name := "alice"
  payloadTag := "Greeting"
  handler _ _ := .ok (.send toAddr ⟨"Order", .nil⟩)
  isAgent := false
  peers := []
  schema := none

def waiter : Registration UInt32 where
  name := "bob"
  payloadTag := "Order"
  handler _ _ := .ok (.reply ⟨"OrderReply", .nil⟩)
  isAgent := false
  peers := []
  schema := none

def desk (toAddr : Address) : DispatchCtx UInt32 :=
  ⟨.build plain.lowercase [front toAddr, waiter], []⟩

def visit : Envelope UInt32 :=
  ⟨⟨.flat "user", some (.flat "alice"), "t1", .empty⟩, ⟨"Greeting", .nil⟩⟩

def visitRouted : RoutedMsg UInt32 := ⟨visit, ⟨"Greeting", .nil⟩, "alice"⟩

def asked (toAddr : Address) : Envelope UInt32 :=
  ⟨⟨.flat "alice", some toAddr, "u1", .empty⟩, ⟨"Order", .nil⟩⟩

def askedRouted (toAddr : Address) : RoutedMsg UInt32 :=
  ⟨asked toAddr, ⟨"Order", .nil⟩, "bob"⟩

/-- The registry once the visit is routed. -/
def booked : ThreadRegistry := registerThread .new "t1" "user" "alice"

theorem desk_no_agent (toAddr : Address) (f g : String) :
    ¬ (desk toAddr).registry.routing.Refuses f g :=
  ListenerRegistry.not_refuses_build (by simp [front, waiter]) f g

theorem visit_forwarded (toAddr : Address) (threads : ThreadRegistry) :
    (ingress plain (desk toAddr).registry none threads (encodeEnvelope plain visit)).2 =
      .routed (.forwarded visitRouted) := by
  have hdecode : decodeEnvelope plain (encodeEnvelope plain visit) = .ok visit :=
    decode_of_image rfl
  have hroute : (desk toAddr).registry.routing.resolve plain.lowercase (some "alice") "Greeting" =
      .ok ⟨"alice", false, List.toFinset [], routeKey plain.lowercase "alice" "Greeting"⟩ :=
    (RoutingTable.resolve_register_of_ne false [] (by decide)).trans
      (RoutingTable.resolve_register_of_free false [] rfl)
  exact (ingress_forwarded_iff plain _ _ _ _ _).mpr
    ⟨visit, _, ⟨hdecode, rfl, rfl, hroute⟩, desk_no_agent _ _ _, rfl⟩

theorem desk_routes_bob (toAddr : Address) :
    (desk toAddr).registry.routing.resolve plain.lowercase (some "bob") "Order" =
      .ok ⟨"bob", false, List.toFinset [], routeKey plain.lowercase "bob" "Order"⟩ := by
  have hne : routeKey plain.lowercase "bob" "Order" ≠
      routeKey plain.lowercase "alice" "Greeting" := by
    decide
  exact RoutingTable.resolve_register_of_free false []
    (RoutingTable.routes_register_of_ne false [] hne)

/-- Whatever reads back as an order for bob is forwarded to him. -/
theorem desk_forwards_order {toAddr : Address} {raw : Bytes} {header : Meta}
    (hd : decodeEnvelope plain raw = .ok (⟨header, ⟨"Order", .nil⟩⟩ : Envelope UInt32))
    (ho : header.toAddr.bind Address.organism = some "bob") (threads : ThreadRegistry) :
    (ingress plain (desk toAddr).registry none threads raw).2 =
      .routed (.forwarded ⟨⟨header, ⟨"Order", .nil⟩⟩, ⟨"Order", .nil⟩, "bob"⟩) := by
  have hroute : (desk toAddr).registry.routing.resolve plain.lowercase
      (header.toAddr.bind Address.organism) "Order" =
        .ok ⟨"bob", false, List.toFinset [], routeKey plain.lowercase "bob" "Order"⟩ := by
    rw [ho]
    exact desk_routes_bob toAddr
  exact (ingress_forwarded_iff plain _ _ _ _ _).mpr
    ⟨_, _, ⟨hd, rfl, rfl, hroute⟩, desk_no_agent _ _ _, rfl⟩

theorem asked_forwarded {toAddr dest : Address}
    (hd : decodeEnvelope plain (encodeEnvelope plain (asked toAddr)) = .ok (asked dest))
    (ho : dest.organism = some "bob") (threads : ThreadRegistry) :
    (ingress plain (desk toAddr).registry none threads (encodeEnvelope plain (asked toAddr))).2 =
      .routed (.forwarded (askedRouted dest)) :=
  desk_forwards_order hd ho threads

theorem booked_reachable (toAddr : Address) :
    Reachable (pipeline plain (desk toAddr) none) booked := by
  have hb : (ingress plain (desk toAddr).registry none .new (encodeEnvelope plain visit)).1 =
      booked := (ingress_forwarded plain (visit_forwarded toAddr .new)).2
  rw [← hb]
  exact .next (.start .new) (Step.ingress .new (encodeEnvelope plain visit))

theorem fresh_booked : FreshUuid booked "u1" := ⟨rfl, by decide⟩

/-- The registry once the call is made. -/
def called (toAddr : Address) : ThreadRegistry :=
  (booked.extendChain "t1" toAddr.organismName "u1").2

theorem called_eq (toAddr : Address) :
    (processMessage plain (desk toAddr) booked "u1" visitRouted).1 = called toAddr :=
  processMessage_of_send plain rfl
    ((RoutingTable.enforcePeers_ok_iff _ _ _).mpr (desk_no_agent _ _ _)) booked "u1"

/-- Alice asks the address, the question reaches `bob`, and `bob` replies at once. -/
def exchange (toAddr dest : Address)
    (hd : decodeEnvelope plain (encodeEnvelope plain (asked toAddr)) = .ok (asked dest))
    (ho : dest.organism = some "bob")
    (hcall : (booked.extendChain "t1" toAddr.organismName "u1").1 = "u1")
    (hkeep : registerThread (called toAddr) "u1" "alice" "bob" = called toAddr)
    (hfresh : (called toAddr).uuidToChain "u2" = none) :
    Exchange plain (desk toAddr) none where
  start := booked
  reachable := booked_reachable toAddr
  msg := visitRouted
  chain := "user.alice"
  live := rfl
  last := rfl
  toAddr := toAddr
  payload := ⟨"Order", .nil⟩
  sends := rfl
  callUuid := "u1"
  callFresh := fresh_booked
  call := asked toAddr
  raw := encodeEnvelope plain (asked toAddr)
  called := by
    refine (call_mem_iff plain _ _ _ _ _ _).mpr ⟨?_, rfl⟩
    have hc : Calls (desk toAddr) booked "u1" visitRouted _ := .call toAddr ⟨"Order", .nil⟩
      (.inl rfl) ((RoutingTable.enforcePeers_ok_iff _ _ _).mpr (desk_no_agent _ _ _))
    change Calls (desk toAddr) booked "u1" visitRouted (callEnvelope visitRouted toAddr
      (booked.extendChain "t1" toAddr.organismName "u1").1 _) at hc
    rw [hcall] at hc
    exact hc
  arrival := called toAddr
  travel := by
    rw [called_eq]
  routed := askedRouted dest
  routes := asked_forwarded hd ho _
  late := called toAddr
  wait := by
    have hlate := (ingress_forwarded plain (asked_forwarded hd ho (called toAddr))).2
    change _ = registerThread (called toAddr) "u1" "alice" "bob" at hlate
    rw [hlate, hkeep]
  stillLive := lookup_getOrCreate rfl rfl
  reply := ⟨"OrderReply", .nil⟩
  callee := rfl
  replyUuid := "u2"
  replyFresh := ⟨hfresh, by decide⟩

theorem decode_asked_bob : decodeEnvelope plain (encodeEnvelope plain (asked (.flat "bob"))) =
    .ok (asked (.flat "bob")) :=
  decode_of_image rfl

def askBob : Exchange plain (desk (.flat "bob")) none :=
  exchange (.flat "bob") (.flat "bob") decode_asked_bob rfl rfl rfl rfl

theorem reply_returns_bob : ReturnsTo plain (desk (.flat "bob")) askBob.late askBob.replyUuid
    askBob.routed askBob.msg.targetName askBob.msg.envelope.header.thread :=
  (reply_returns_iff plain_lawful askBob).mpr (by decide)

theorem decode_asked_dotted :
    decodeEnvelope plain (encodeEnvelope plain (asked (.flat "bob.x"))) =
      .ok (asked ⟨[⟨"bob", none⟩, ⟨"x", none⟩]⟩) :=
  decode_of_image rfl

/-- `Address::from("bob.x")` has one segment when it is sent and two when it is read. -/
def askDotted : Exchange plain (desk (.flat "bob.x")) none :=
  exchange (.flat "bob.x") ⟨[⟨"bob", none⟩, ⟨"x", none⟩]⟩ decode_asked_dotted rfl rfl rfl rfl

theorem dotted_prune :
    (askDotted.late.pruneForResponse askDotted.routed.envelope.header.thread
      askDotted.replyUuid).1 = some ⟨"bob", "u2"⟩ := by
  rfl

/-- The reply to a call to `bob.x` is addressed to `bob`, on a new thread. -/
theorem reply_strays :
    (∃ out raw, .answer out raw ∈ (processMessage plain (desk (.flat "bob.x")) askDotted.late
      askDotted.replyUuid askDotted.routed).2 ∧ out.header.toAddr = some (.flat "bob") ∧
      out.header.thread = "u2") ∧
    ¬ ReturnsTo plain (desk (.flat "bob.x")) askDotted.late askDotted.replyUuid askDotted.routed
      askDotted.msg.targetName askDotted.msg.envelope.header.thread := by
  constructor
  · exact ⟨_, _, (answer_mem_iff plain _ _ _ _ _ _).mpr
      ⟨.reply _ ⟨"OrderReply", .nil⟩ rfl dotted_prune, rfl⟩, rfl, rfl⟩
  · rintro ⟨out, raw, hm, hto, _⟩
    obtain ⟨prune, hp, rfl⟩ := answers_of_replies askDotted.callee
      ((answer_mem_iff plain _ _ _ _ _ _).mp hm).1
    rw [dotted_prune, Option.some_inj] at hp
    subst hp
    have hname : "bob" = "alice" := congrArg Address.organismName (Option.some_inj.mp hto)
    revert hname
    decide

end RustPipeline.CallReturn
