import RustPipeline.CallReturn
import RustPipeline.FederationGate
import RustPipeline.Switchboard

set_option autoImplicit false

/-!
# Replies to a federated peer

A peer's frame, its delivery through the switchboard, and the way of the reply. The re-rooted
sender is reduced to its organism for the chain, so the peer's name comes back only when the
organism is the peer.
-/
namespace RustPipeline.FederatedReply
open Text Xml Wire Codec CodecImage Handling Routing Registry Thread Federation Validation Pipeline
open PipelineEffects Ingress PipelineRuns Conversations RoundTrip PlainPlatform Separated
open TransitionSystem

variable {F : Type} {P : Platform F}

/-- A frame of an authenticated peer, delivered through a switchboard whose materializer returns an
    unused thread id, and a local handler that replies to it. -/
structure Visit (P : Platform F) (ctx : DispatchCtx F) (directory : PeerDirectory) where
  server : FederationServer F
  frame : Bytes
  sent : Envelope F
  peer : String
  opened : openFrame P server.aead frame server.directory = .ok (sent, peer)
  env : Envelope F
  delivered : .deliver env ∈ (receive P server frame).1
  known : directory.isRemote peer = true
  resolve : Switchboard.Materializer
  raw : Bytes
  injected : Switchboard.route P resolve env = .ok raw
  threads : ThreadRegistry
  reachable : Reachable (pipeline P ctx (some directory)) threads
  unused : ∀ a id, env.header.toAddr = some a → resolve a = .ok id → threads.lookup id = none
  routed : RoutedMsg F
  routes : (ingress P ctx.registry (some directory) threads raw).2 = .routed (.forwarded routed)
  reply : Payload F
  callee : replies ctx routed reply
  replyUuid : String
  replyFresh : FreshUuid (ingress P ctx.registry (some directory) threads raw).1 replyUuid

variable {ctx : DispatchCtx F} {directory : PeerDirectory}

/-- The part of a chain that a reply goes to: the one before the last. -/
def returnHop (chain : String) : String := (split '.' chain).dropLast.getLastD ""

namespace Visit

/-- The registry once the message is routed. -/
def after (x : Visit P ctx directory) : ThreadRegistry :=
  (ingress P ctx.registry (some directory) x.threads x.raw).1

/-- The reply is built, and the route stage hands it to the egress with the peer as its node. -/
def GoesHome (x : Visit P ctx directory) : Prop :=
  ∃ out raw home, .answer out raw ∈ (processMessage P ctx x.after x.replyUuid x.routed).2 ∧
    (ingress P ctx.registry (some directory)
      (processMessage P ctx x.after x.replyUuid x.routed).1 raw).2 = .routed (.egress home) ∧
    home.header.toAddr.bind Address.node = some x.peer

/-- The chain of the message's thread: the one it has, or else the one of its two listeners, when
    that is free. -/
def ThreadChain (x : Visit P ctx directory) (chain : String) : Prop :=
  x.threads.lookup x.routed.envelope.header.thread = some chain ∨
    x.threads.lookup x.routed.envelope.header.thread = none ∧
      x.threads.chainToUuid (x.threads.rootedChain
        x.routed.envelope.header.fromAddr.organismName x.routed.targetName) = none ∧
      x.threads.rootedChain x.routed.envelope.header.fromAddr.organismName
        x.routed.targetName = chain

/-- The reply on a chain. -/
def replyOn (x : Visit P ctx directory) (chain : String) : Envelope F :=
  answerEnvelope x.routed ⟨returnHop chain,
    (x.after.getOrCreate (parent '.' chain) x.replyUuid).1⟩ x.reply

theorem after_eq (x : Visit P ctx directory) : x.after =
    registerThread x.threads x.routed.envelope.header.thread
      x.routed.envelope.header.fromAddr.organismName x.routed.targetName :=
  (ingress_forwarded P x.routes).2

theorem threadChain_iff (x : Visit P ctx directory) (chain : String) :
    x.after.lookup x.routed.envelope.header.thread = some chain ↔ x.ThreadChain chain := by
  rw [after_eq]
  exact registerThread_lookup_iff _ _ _ _ _

theorem answer_iff (x : Visit P ctx directory) (out : Envelope F) (raw : Bytes) :
    .answer out raw ∈ (processMessage P ctx x.after x.replyUuid x.routed).2 ↔
      ∃ chain, x.ThreadChain chain ∧ '.' ∈ chain.toList ∧ out = x.replyOn chain ∧
        raw = encodeEnvelope P (x.replyOn chain) := by
  constructor
  · intro hm
    obtain ⟨ha, rfl⟩ := (answer_mem_iff P _ _ _ _ _ _).mp hm
    obtain ⟨prune, hp, rfl⟩ := answers_of_replies x.callee ha
    have hsome : (x.after.pruneForResponse x.routed.envelope.header.thread x.replyUuid).1.isSome :=
      Option.isSome_iff_exists.mpr ⟨prune, hp⟩
    obtain ⟨chain, hc, hd⟩ := (pruneForResponse_isSome _ _ _).mp hsome
    rw [pruneForResponse_some _ hc hd, Option.some_inj] at hp
    subst hp
    exact ⟨chain, (x.threadChain_iff chain).mp hc, hd, rfl, rfl⟩
  · rintro ⟨chain, hc, hd, rfl, rfl⟩
    have hp := pruneForResponse_some x.replyUuid ((x.threadChain_iff chain).mpr hc) hd
    exact (answer_mem_iff P _ _ _ _ _ _).mpr ⟨.reply _ x.reply x.callee (congrArg Prod.fst hp), rfl⟩

/-- A reply on the chain reads back as a valid message that leads with the peer. -/
structure Homeward (x : Visit P ctx directory) (chain : String) : Prop where
  caller : '.' ∈ chain.toList
  home : ∃ a, headerAddress (returnHop chain) = .ok (some a) ∧ a.node = some x.peer
  named : ∃ a, headerAddress x.routed.targetName = .ok (some a)
  thread : (headerText (x.after.getOrCreate (parent '.' chain) x.replyUuid).1).isSome
  valid : validatePayloadValue (imageValue x.reply.value)
    (ctx.registry.schemas.inForce (escape x.reply.tag)) = .ok ()

/-- How a reply on a chain reads back. -/
theorem decode_replyOn (lawful : Lawful P) (x : Visit P ctx directory) (chain : String)
    (home : Envelope F) : decodeEnvelope P (encodeEnvelope P (x.replyOn chain)) = .ok home ↔
      headerAddress x.routed.targetName = .ok (some home.header.fromAddr) ∧
      headerAddress (returnHop chain) = .ok home.header.toAddr ∧
      headerText (x.after.getOrCreate (parent '.' chain) x.replyUuid).1 =
        some home.header.thread ∧
      x.routed.envelope.header.provenance = home.header.provenance ∧
      escape x.reply.tag = home.payload.tag ∧ imageValue x.reply.value = home.payload.value := by
  rw [decode_encode lawful, wireImage_eq_ok]
  unfold replyOn answerEnvelope headerTarget
  simp only [AddressText.display_flat]

end Visit

/-- The reply goes home exactly when the thread has a chain on which it does. -/
theorem reply_goes_home_iff (lawful : Lawful P) (x : Visit P ctx directory) :
    x.GoesHome ↔ ∃ chain, x.ThreadChain chain ∧ x.Homeward chain := by
  constructor
  · rintro ⟨out, raw, home, hm, he, hn⟩
    obtain ⟨chain, hc, hd, rfl, rfl⟩ := (x.answer_iff out raw).mp hm
    obtain ⟨hdecode, hvalid, _⟩ := (ingress_egress_iff P _ _ _ _ _).mp he
    obtain ⟨hfrom, hto, hthread, _, htag, hvalue⟩ := (x.decode_replyOn lawful chain home).mp hdecode
    obtain ⟨a, ha, hna⟩ := Option.bind_eq_some_iff.mp hn
    refine ⟨chain, hc, hd, ⟨a, hto.trans (by rw [ha]), hna⟩, ⟨_, hfrom⟩, ?_, ?_⟩
    · rw [hthread]
      rfl
    · rw [htag, hvalue]
      exact hvalid
  · rintro ⟨chain, hc, hd, ⟨a, ha, hna⟩, ⟨b, hb⟩, hthread, hvalid⟩
    obtain ⟨id, hid⟩ := Option.isSome_iff_exists.mp hthread
    have hm := (x.answer_iff _ _).mpr ⟨chain, hc, hd, rfl, rfl⟩
    have hdecode := (x.decode_replyOn lawful chain
      ⟨⟨b, some a, id, x.routed.envelope.header.provenance⟩,
        ⟨escape x.reply.tag, imageValue x.reply.value⟩⟩).mpr ⟨hb, ha, hid, rfl, rfl, rfl⟩
    have hremote : isRemote (some directory) (some a) = true := by
      unfold isRemote
      rw [Option.bind_some, hna]
      exact x.known
    exact ⟨_, _, _, hm, (ingress_egress_iff P _ _ _ _ _).mpr ⟨hdecode, hvalid, hremote⟩, hna⟩

/-! ## The organism of a re-rooted sender -/

/-- Without keys the re-rooted sender is known by the peer's name. -/
theorem organism_rerootOrigin {a : Address} (h : ∀ s ∈ a.segments, s.key = none) (peer : String) :
    (rerootOrigin a peer).organismName = peer := by
  have hnone : (rerootOrigin a peer).segments.findIdx? (fun s => s.key.isSome) = none := by
    rw [List.findIdx?_eq_none_iff]
    intro s hs
    unfold rerootOrigin at hs
    rcases List.mem_cons.mp hs with rfl | hs
    · rfl
    · split_ifs at hs
      · rw [h s (List.mem_of_mem_drop hs)]
        rfl
      · rw [h s hs]
        rfl
  unfold Address.organismName Address.organism Address.organismIndex
  rw [hnone]
  rfl

/-- The reply on the chain of two plain listeners goes to the first of them. -/
theorem returnHop_rootedChain (threads : ThreadRegistry) {f g : String} (hf : '.' ∉ f.toList)
    (hg : '.' ∉ g.toList) : returnHop (threads.rootedChain f g) = f := by
  have hsplit (s : String) : split '.' (s ++ "." ++ (f ++ "." ++ g)) = split '.' s ++ [f] ++ [g] := by
    have h1 := split_append_part (s := s ++ "." ++ f) hg
    rw [show s ++ "." ++ f ++ String.singleton '.' ++ g = s ++ "." ++ (f ++ "." ++ g) by
      simp only [String.append_assoc]; rfl] at h1
    rw [h1]
    exact congrArg (· ++ [g]) (split_append_part (s := s) hf)
  unfold returnHop ThreadRegistry.rootedChain
  split_ifs
  · rw [hsplit, List.dropLast_concat, List.getLastD_concat]
  · rw [show f ++ "." ++ g = f ++ String.singleton '.' ++ g from rfl, split_append_part hg,
      List.dropLast_concat, split_of_notMem hf]
    rfl

/-- Between plain names the way home is open exactly when the sender's organism is the peer. -/
theorem home_iff_organism {f : String} (hf : Solid f) (peer : String) :
    (∃ a, headerAddress f = .ok (some a) ∧ a.node = some peer) ↔ f = peer := by
  rw [hf.headerAddress]
  constructor
  · rintro ⟨a, ha, hn⟩
    obtain rfl := Option.some_inj.mp (Except.ok.inj ha)
    exact Option.some_inj.mp hn
  · rintro rfl
    exact ⟨_, rfl, rfl⟩

/-! ## A sender without and with a key -/

def concierge : Registration UInt32 where
  name := "concierge"
  payloadTag := "Order"
  handler _ _ := .ok (.reply ⟨"OrderReply", .nil⟩)
  isAgent := false
  peers := []
  schema := none

def localBob : Registration UInt32 where
  name := "bob"
  payloadTag := "OrderReply"
  handler _ _ := .ok .none
  isAgent := false
  peers := []
  schema := none

def hotel : DispatchCtx UInt32 := ⟨.build plain.lowercase [concierge, localBob], []⟩

def hubs : PeerDirectory := PeerDirectory.new.register FederationGate.ringhub

def order (sender : Address) (thread : String) : Envelope UInt32 :=
  ⟨⟨sender, some (.flat "concierge"), thread, .empty⟩, ⟨"Order", .nil⟩⟩

def orderRouted (sender : Address) : RoutedMsg UInt32 :=
  ⟨order sender "t1", ⟨"Order", .nil⟩, "concierge"⟩

theorem hotel_no_agent (f g : String) : ¬ hotel.registry.routing.Refuses f g :=
  ListenerRegistry.not_refuses_build (by simp [concierge, localBob]) f g

theorem order_forwarded {sender : Address}
    (hd : decodeEnvelope plain (encodeEnvelope plain (order sender "t1")) =
      .ok (order sender "t1")) (threads : ThreadRegistry) :
    (ingress plain hotel.registry (some hubs) threads (encodeEnvelope plain
      (order sender "t1"))).2 = .routed (.forwarded (orderRouted sender)) := by
  have hroute : hotel.registry.routing.resolve plain.lowercase (some "concierge") "Order" =
      .ok ⟨"concierge", false, List.toFinset [], routeKey plain.lowercase "concierge" "Order"⟩ :=
    (RoutingTable.resolve_register_of_ne false [] (by decide)).trans
      (RoutingTable.resolve_register_of_free false [] rfl)
  exact (ingress_forwarded_iff plain _ _ _ _ _).mpr
    ⟨order sender "t1", _, ⟨hd, rfl, rfl, hroute⟩, hotel_no_agent _ _, rfl⟩

theorem order_stamped (env : Envelope UInt32) (sender : Address) :
    stamp (FederationGate.agentos env).directory (order sender "t0") "ringhub" =
      order (rerootOrigin sender "ringhub") "t0" := by
  have hedge : (((FederationGate.agentos env).directory.get "ringhub").map
      Peer.inboundProvenance).getD .empty = .empty := rfl
  unfold stamp
  simp only [hedge, Provenance.union_empty]
  rfl

/-- An order of a sender at `ringhub`, whose reply is asked for at once. -/
def orderVisit (sender : Address)
    (hsent : decodeEnvelope plain (encodeEnvelope plain (order sender "t0")) =
      .ok (order sender "t0"))
    (harrived : decodeEnvelope plain (encodeEnvelope plain
      (order (rerootOrigin sender "ringhub") "t1")) =
        .ok (order (rerootOrigin sender "ringhub") "t1")) : Visit plain hotel hubs where
  server := FederationGate.agentos (order sender "t0")
  frame := FederationGate.ringhubFrame
  sent := order sender "t0"
  peer := "ringhub"
  opened := FederationGate.agentos_opens hsent
  env := order (rerootOrigin sender "ringhub") "t0"
  delivered := by
    have hcalls : (receive plain (FederationGate.agentos (order sender "t0"))
        FederationGate.ringhubFrame).1 =
          [.authorize (rerootOrigin sender "ringhub") (.flat "concierge"),
            .deliver (order (rerootOrigin sender "ringhub") "t0")] := by
      rw [receive_of_open (FederationGate.agentos_opens hsent), order_stamped]
      rfl
    rw [hcalls]
    exact List.mem_cons_of_mem _ List.mem_cons_self
  known := rfl
  resolve _ := .ok "t1"
  raw := encodeEnvelope plain (order (rerootOrigin sender "ringhub") "t1")
  injected := rfl
  threads := .new
  reachable := .start .new
  unused _ _ _ _ := rfl
  routed := orderRouted (rerootOrigin sender "ringhub")
  routes := order_forwarded harrived .new
  reply := ⟨"OrderReply", .nil⟩
  callee := rfl
  replyUuid := "u1"
  replyFresh := by
    rw [(ingress_forwarded plain (order_forwarded harrived .new)).2]
    exact ⟨rfl, by decide⟩

def bobFlat : Address := .flat "bob"

def bobKeyed : Address := ⟨[⟨"ringhub", none⟩, ⟨"bob", some "alice"⟩]⟩

theorem decode_order_flat : decodeEnvelope plain (encodeEnvelope plain (order bobFlat "t0")) =
    .ok (order bobFlat "t0") :=
  decode_of_image rfl

theorem decode_arrived_flat : decodeEnvelope plain (encodeEnvelope plain
    (order (rerootOrigin bobFlat "ringhub") "t1")) =
      .ok (order (rerootOrigin bobFlat "ringhub") "t1") :=
  decode_of_image rfl

theorem decode_order_keyed : decodeEnvelope plain (encodeEnvelope plain (order bobKeyed "t0")) =
    .ok (order bobKeyed "t0") :=
  decode_of_image rfl

theorem decode_arrived_keyed : decodeEnvelope plain (encodeEnvelope plain
    (order (rerootOrigin bobKeyed "ringhub") "t1")) =
      .ok (order (rerootOrigin bobKeyed "ringhub") "t1") :=
  decode_of_image rfl

def flatVisit : Visit plain hotel hubs := orderVisit bobFlat decode_order_flat decode_arrived_flat

def keyedVisit : Visit plain hotel hubs :=
  orderVisit bobKeyed decode_order_keyed decode_arrived_keyed

theorem reply_goes_home_flat : flatVisit.GoesHome := by
  refine (reply_goes_home_iff plain_lawful flatVisit).mpr ⟨"ringhub.concierge",
    .inr ⟨rfl, rfl, rfl⟩, by decide, ⟨.flat "ringhub", rfl, rfl⟩, ⟨_, rfl⟩, ?_, rfl⟩
  rw [Visit.after_eq]
  rfl

def strayReply : Envelope UInt32 :=
  ⟨⟨.flat "concierge", some (.flat "bob"), "u1", .empty⟩, ⟨"OrderReply", .nil⟩⟩

/-- The reply to `ringhub.bob[alice]` is dispatched to the local listener `bob`. -/
theorem reply_stays_local :
    .answer strayReply (encodeEnvelope plain strayReply) ∈
        (processMessage plain hotel keyedVisit.after keyedVisit.replyUuid keyedVisit.routed).2 ∧
      (ingress plain hotel.registry (some hubs)
        (processMessage plain hotel keyedVisit.after keyedVisit.replyUuid keyedVisit.routed).1
        (encodeEnvelope plain strayReply)).2 =
          .routed (.forwarded ⟨strayReply, ⟨"OrderReply", .nil⟩, "bob"⟩) ∧
      ¬ keyedVisit.GoesHome := by
  have hreply : keyedVisit.replyOn "bob.concierge" = strayReply := by
    unfold Visit.replyOn
    rw [Visit.after_eq]
    rfl
  have hchain : ∀ chain, keyedVisit.ThreadChain chain → chain = "bob.concierge" := by
    rintro chain (h | ⟨_, _, h⟩)
    · cases h
    · exact h.symm
  have hdecode : decodeEnvelope plain (encodeEnvelope plain strayReply) = .ok strayReply :=
    decode_of_image rfl
  have hroute : hotel.registry.routing.resolve plain.lowercase (some "bob") "OrderReply" =
      .ok ⟨"bob", false, List.toFinset [], routeKey plain.lowercase "bob" "OrderReply"⟩ :=
    RoutingTable.resolve_register_of_free false []
      (RoutingTable.routes_register_of_ne false [] (by decide))
  have hlocal (threads : ThreadRegistry) : (ingress plain hotel.registry (some hubs) threads
      (encodeEnvelope plain strayReply)).2 =
        .routed (.forwarded ⟨strayReply, ⟨"OrderReply", .nil⟩, "bob"⟩) :=
    (ingress_forwarded_iff plain _ _ _ _ _).mpr
      ⟨strayReply, _, ⟨hdecode, rfl, rfl, hroute⟩, hotel_no_agent _ _, rfl⟩
  refine ⟨?_, hlocal _, ?_⟩
  · refine (keyedVisit.answer_iff _ _).mpr ⟨"bob.concierge", .inr ⟨rfl, rfl, rfl⟩, by decide,
      hreply.symm, ?_⟩
    rw [hreply]
  · rintro ⟨out, raw, home, hm, he, _⟩
    obtain ⟨chain, hc, _, rfl, rfl⟩ := (keyedVisit.answer_iff out raw).mp hm
    rw [hchain chain hc, hreply, hlocal] at he
    cases he

end RustPipeline.FederatedReply
