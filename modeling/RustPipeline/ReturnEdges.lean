import RustPipeline.AnswerGate
import RustPipeline.ConversationPartner
import RustPipeline.OrderedRuns

set_option autoImplicit false

/-!
# Return edges

A reply or an acknowledgement should run against a call. The chain of a thread names the caller as
long as the thread is registered by calls; an exhausted thread is dropped, and a late response to it
is registered as a conversation of its own.
-/
namespace RustPipeline.ReturnEdges
open Text Wire Codec CodecImage Handling Routing Registry Thread Federation Pipeline PipelineEffects
open Ingress PipelineRuns Conversations FederatedReply ReturnHops ConversationPartner PlainPlatform
open Separated Runs Validation OrderedRuns

variable {F : Type} (P : Platform F)

/-! ## Calls and answers -/

/-- One listener has called the other on the thread. -/
def Toward (calls : List Call) (c g id : String) : Prop :=
  ∃ call ∈ calls, call.thread = id ∧ SameName P call.caller c ∧ SameName P call.callee g

/-- The handler replies, or returns `None`, which is acknowledged. -/
def Upward (result : Option (Except PipelineError (HandlerResponse F))) : Prop :=
  result = some (.ok .none) ∨ ∃ payload, result = some (.ok (.reply payload))

/-- A reply or acknowledgement goes from the listener to one that has called it on the thread. -/
def EdgeReturned (registry : ListenerRegistry F) (s : Traffic F) : Event F → Prop
  | .handle i result fresh => ∀ w, s.waiting[i]? = some w → Upward result →
      ∀ out raw, .answer out raw ∈ (processResult P registry s.threads fresh w.msg result).2 →
        out.header.fromAddr = .flat w.msg.targetName ∧
          ∃ c, out.header.toAddr = some (.flat c) ∧
            Toward P s.calls c w.msg.targetName (thread w.msg)
  | .route _ => True
  | .deliver _ _ => True
  | .inject _ => True

variable {P} {registry : ListenerRegistry F} {federation : Option PeerDirectory}

theorem edgeReturned_of_inv {s : Traffic F} (h : Inv P s) {e : Event F}
    (horder : InOrder P registry federation s e) : EdgeReturned P registry s e := by
  cases e with
  | deliver resolve env => trivial
  | inject raw => trivial
  | route i => trivial
  | handle i result fresh =>
    intro w hw hup out raw hm
    have hmem := List.mem_of_getElem? hw
    have hchain : ∃ chain, s.threads.lookup (thread w.msg) = some chain ∧ '.' ∈ chain.toList ∧
        out.header.fromAddr = .flat w.msg.targetName ∧
        out.header.toAddr = some (.flat (returnHop chain)) ∧ ¬ UnderRoot s.threads chain := by
      rcases hup with rfl | ⟨payload, rfl⟩
      · obtain ⟨chain, hl, hd, hfrom, hto⟩ := answer_up toolAck hm
        exact ⟨chain, hl, hd, hfrom, hto, horder w .none hw rfl chain hl⟩
      · obtain ⟨chain, hl, hd, hfrom, hto⟩ := answer_up payload hm
        exact ⟨chain, hl, hd, hfrom, hto, horder w (.reply payload) hw rfl chain hl⟩
    obtain ⟨chain, hl, hd, hfrom, hto, hroot⟩ := hchain
    have hnot : ¬ Short s.threads chain := not_or.mpr ⟨not_not.mpr hd, hroot⟩
    obtain ⟨call, hcall, hid, hcaller, hcallee⟩ := (h.opened _ chain hl).resolve_left hnot
    exact ⟨hfrom, _, hto, call, hcall, hid, hcaller, hcallee.trans (h.targets w hmem chain hl)⟩

/-- In every run in which messages arrive in order, whatever the handlers answer, each reply and
    each acknowledgement goes to a listener that has called the answering one on the thread. -/
theorem edges_returned {boot : ThreadRegistry} (hb : Boot boot) {events : List (Event F)}
    (hfresh : Along (Traffic.perform P registry federation) FreshAt (Traffic.boot boot) events)
    (horder : Along (Traffic.perform P registry federation) (InOrder P registry federation)
      (Traffic.boot boot) events) :
    Along (Traffic.perform P registry federation) (EdgeReturned P registry) (Traffic.boot boot)
      events := by
  have hstep : ∀ (s : Traffic F) e, Inv P s → FreshAt s e ∧ InOrder P registry federation s e →
      Inv P (s.perform P registry federation e) := fun s e h hg => h.perform hg.1 hg.2
  exact Along.of_invariant hstep (fun s e h hg => edgeReturned_of_inv h hg.2)
    (hfresh.and horder) (inv_of_boot hb)

/-! ## An exchange, and a second response to an exhausted thread -/

def carol : Registration UInt32 := { bob with name := "carol", payloadTag := "Order" }

/-- Alice's listener hears of replies. -/
def villa : ListenerRegistry UInt32 := .build plain.lowercase [bob, carol, AnswerGate.alice]

def order : Payload UInt32 := ⟨"Order", .nil⟩

def orderEnvelope : Envelope UInt32 :=
  ⟨⟨.flat "bob", some (.flat "carol"), "u1", .empty⟩, order⟩

def confirmation : Payload UInt32 := ⟨"Greeting", .text "hi"⟩

def confirmed : Envelope UInt32 :=
  ⟨⟨.flat "carol", some (.flat "bob"), "t1", .empty⟩, confirmation⟩

def answered (id : String) : Envelope UInt32 :=
  ⟨⟨.flat "bob", some (.flat "alice"), id, .empty⟩, greetingReply⟩

def orderRouted : RoutedMsg UInt32 := ⟨orderEnvelope, ⟨"Order", .nil⟩, "carol"⟩

def confirmedRouted : RoutedMsg UInt32 := ⟨confirmed, ⟨"Greeting", .text "hi"⟩, "bob"⟩

def answeredRouted (id : String) : RoutedMsg UInt32 :=
  ⟨answered id, ⟨"GreetingReply", .text "hi"⟩, "alice"⟩

theorem villa_no_agent (f g : String) : ¬ villa.routing.Refuses f g :=
  ListenerRegistry.not_refuses_build (by simp [bob, carol, AnswerGate.alice]) f g

theorem villa_forwards {env : Envelope UInt32} {name : String} {toName : String}
    (hd : decodeEnvelope plain (encodeEnvelope plain env) = .ok env)
    (hto : env.header.toAddr = some (.flat toName))
    (hv : validatePayloadValue env.payload.value (villa.schemas.inForce env.payload.tag) = .ok ())
    (hfirst : ∃ l, Deliverability.firstUnder plain.lowercase [bob, carol, AnswerGate.alice]
      (some toName) env.payload.tag = some l ∧ l.name = name) (threads : ThreadRegistry) :
    (ingress plain villa none threads (encodeEnvelope plain env)).2 =
      .routed (.forwarded ⟨env, ⟨env.payload.tag, env.payload.value⟩, name⟩) := by
  obtain ⟨entry, hroute, rfl⟩ := (Deliverability.resolve_iff _ _ _ (· = name)).mpr hfirst
  have hnear : isRemote none env.header.toAddr = false := rfl
  apply (ingress_forwarded_iff plain _ _ _ _ _).mpr
  refine ⟨env, entry, ⟨hd, hv, hnear, ?_⟩, villa_no_agent _ _, rfl⟩
  rw [hto]
  exact hroute

theorem hello_forwarded_villa (threads : ThreadRegistry) :
    (ingress plain villa none threads (encodeEnvelope plain (hello "t1"))).2 =
      .routed (.forwarded (helloRouted "t1")) :=
  villa_forwards decode_hello_first rfl rfl ⟨bob, rfl, rfl⟩ threads

theorem decode_order : decodeEnvelope plain (encodeEnvelope plain orderEnvelope) =
    .ok orderEnvelope :=
  decode_of_image rfl

theorem decode_confirmed : decodeEnvelope plain (encodeEnvelope plain confirmed) = .ok confirmed :=
  decode_of_image rfl

theorem decode_answered : decodeEnvelope plain (encodeEnvelope plain (answered "u1")) =
    .ok (answered "u1") :=
  decode_of_image rfl

theorem decode_answered_late : decodeEnvelope plain (encodeEnvelope plain (answered "u3")) =
    .ok (answered "u3") :=
  decode_of_image rfl

theorem order_forwarded_villa (threads : ThreadRegistry) :
    (ingress plain villa none threads (encodeEnvelope plain orderEnvelope)).2 =
      .routed (.forwarded orderRouted) :=
  villa_forwards decode_order rfl rfl ⟨carol, rfl, rfl⟩ threads

theorem confirmed_forwarded (threads : ThreadRegistry) :
    (ingress plain villa none threads (encodeEnvelope plain confirmed)).2 =
      .routed (.forwarded confirmedRouted) :=
  villa_forwards decode_confirmed rfl rfl ⟨bob, rfl, rfl⟩ threads

theorem answered_forwarded (threads : ThreadRegistry) {id : String}
    (hd : decodeEnvelope plain (encodeEnvelope plain (answered id)) = .ok (answered id)) :
    (ingress plain villa none threads (encodeEnvelope plain (answered id))).2 =
      .routed (.forwarded (answeredRouted id)) := by
  have hfirst : Deliverability.firstUnder plain.lowercase [bob, carol, AnswerGate.alice]
      (some "alice") "GreetingReply" = some AnswerGate.alice := rfl
  exact villa_forwards hd rfl rfl ⟨AnswerGate.alice, hfirst, rfl⟩ threads

/-- The registry once the greeting is routed. -/
def greetedOnce : ThreadRegistry := registerThread .new "t1" "alice" "bob"

/-- It gives bob's order a chain of its own. -/
def ordering : ThreadRegistry := greetedOnce.insert "alice.bob.carol" "u1"

/-- It gives alice a chain of her own once bob has replied. -/
def served : ThreadRegistry := ordering.insert "alice" "u3"

def helloItem : Item := ⟨encodeEnvelope plain (hello "t1"), .injected⟩

def aliceToBob : Call := ⟨"alice", "bob", "t1"⟩

def bobToCarol : Call := ⟨"bob", "carol", "u1"⟩

def calls : List Call := [aliceToBob, bobToCarol, bobToCarol]

def greetedState : Traffic UInt32 :=
  ⟨greetedOnce, [], [⟨helloRouted "t1", .injected⟩], [aliceToBob]⟩

def orderedState : Traffic UInt32 :=
  ⟨ordering, [⟨encodeEnvelope plain orderEnvelope, .call⟩], [], [aliceToBob, bobToCarol]⟩

def carolBusy : Traffic UInt32 := ⟨ordering, [], [⟨orderRouted, .call⟩], calls⟩

def confirmedState : Traffic UInt32 :=
  ⟨ordering, [⟨encodeEnvelope plain confirmed, .answer⟩], [], calls⟩

def bobAgain : Traffic UInt32 := ⟨ordering, [], [⟨confirmedRouted, .answer⟩], calls⟩

def answeredState : Traffic UInt32 :=
  ⟨served, [⟨encodeEnvelope plain (answered "u3"), .answer⟩], [], calls⟩

def aliceHears : Traffic UInt32 := ⟨served, [], [⟨answeredRouted "u3", .answer⟩], calls⟩

theorem bob_orders : respond plain villa greetedOnce "u1" (helloRouted "t1")
    (.send (.flat "carol") order) = (ordering, [emitCall plain orderEnvelope,
      .onOpen "bob" "carol" "u1" .sync]) := by
  have hallowed : villa.routing.enforcePeers (helloRouted "t1").targetName
      (Address.flat "carol").organismName = .ok () :=
    (RoutingTable.enforcePeers_ok_iff _ _ _).mpr (villa_no_agent _ _)
  change sendCall plain villa greetedOnce "u1" (helloRouted "t1") (.flat "carol") order = _
  unfold sendCall
  rw [hallowed]
  rfl

theorem carol_confirms : respond plain villa ordering "u2" orderRouted (.reply confirmation) =
    (ordering, [.onClose "u1", emitAnswer plain confirmed]) := by
  have hl : ordering.lookup (thread orderRouted) = some "alice.bob.carol" := rfl
  exact (answerUp_of_chain hl (by decide) "u2" confirmation).trans rfl

theorem bob_answers : respond plain villa ordering "u3" confirmedRouted (.reply greetingReply) =
    (served, [.onClose "t1", emitAnswer plain (answered "u3")]) := by
  have hl : ordering.lookup (thread confirmedRouted) = some "alice.bob" := rfl
  exact (answerUp_of_chain hl (by decide) "u3" greetingReply).trans rfl

/-- Alice greets bob, who orders from carol and answers alice once carol has confirmed. -/
def exchange : List (Event UInt32) :=
  [.inject (encodeEnvelope plain (hello "t1")), .route 0,
    .handle 0 (some (.ok (.send (.flat "carol") order))) "u1", .route 0,
    .handle 0 (some (.ok (.reply confirmation))) "u2", .route 0,
    .handle 0 (some (.ok (.reply greetingReply))) "u3", .route 0,
    .handle 0 (some (.ok .none)) "u4"]

theorem exchange_in_order : Along (Traffic.perform plain villa none)
    (fun s e => FreshAt s e ∧ InOrder plain villa none s e) (.boot .new) exchange := by
  have hnew : Fitting plain (⟨.new, [helloItem], [], []⟩ : Traffic UInt32) .injected
      (helloRouted "t1") :=
    fitting_of_new rfl (by decide) (by decide) (fun _ hw => nomatch hw)
  have horder : Fitting plain orderedState .call orderRouted := fitting_of_known
    (show orderedState.threads.lookup (thread orderRouted) = some "alice.bob.carol" from rfl) rfl
  have hconfirmed : Fitting plain confirmedState .answer confirmedRouted := fitting_of_known
    (show confirmedState.threads.lookup (thread confirmedRouted) = some "alice.bob" from rfl) rfl
  have hanswered : Fitting plain answeredState .answer (answeredRouted "u3") := fitting_of_known
    (show answeredState.threads.lookup (thread (answeredRouted "u3")) = some "alice" from rfl) rfl
  have hbob : Plainly villa greetedOnce (helloRouted "t1") (.send (.flat "carol") order) :=
    fun _ => by decide
  have hcarol : Plainly villa ordering orderRouted (.reply confirmation) :=
    fun chain _ => not_underRoot rfl chain
  have hagain : Plainly villa ordering confirmedRouted (.reply greetingReply) :=
    fun chain _ => not_underRoot rfl chain
  have hsilent : Plainly villa served (answeredRouted "u3") .none :=
    fun chain _ => not_underRoot rfl chain
  refine .cons (t := ⟨.new, [helloItem], [], []⟩) ⟨trivial, trivial⟩ rfl ?_
  refine .cons (t := greetedState)
    ⟨trivial, inOrder_route rfl (hello_forwarded_villa _) hnew⟩
    (perform_route_eq rfl (hello_forwarded_villa _) rfl) ?_
  refine .cons (t := orderedState) ⟨freshFor_one rfl (by decide),
    inOrder_handle (w := ⟨helloRouted "t1", .injected⟩) rfl hbob "u1"⟩
    (perform_handle_eq rfl bob_orders rfl) ?_
  refine .cons (t := carolBusy) ⟨trivial, inOrder_route rfl (order_forwarded_villa _) horder⟩
    (perform_route_eq rfl (order_forwarded_villa _) rfl) ?_
  refine .cons (t := confirmedState) ⟨freshFor_one rfl (by decide),
    inOrder_handle (w := ⟨orderRouted, .call⟩) rfl hcarol "u2"⟩
    (perform_handle_eq rfl carol_confirms rfl) ?_
  refine .cons (t := bobAgain) ⟨trivial, inOrder_route rfl (confirmed_forwarded _) hconfirmed⟩
    (perform_route_eq rfl (confirmed_forwarded _) rfl) ?_
  refine .cons (t := answeredState) ⟨freshFor_one rfl (by decide),
    inOrder_handle (w := ⟨confirmedRouted, .answer⟩) rfl hagain "u3"⟩
    (perform_handle_eq rfl bob_answers rfl) ?_
  refine .cons (t := aliceHears)
    ⟨trivial, inOrder_route rfl (answered_forwarded _ decode_answered_late) hanswered⟩
    (perform_route_eq rfl (answered_forwarded _ decode_answered_late) rfl) ?_
  exact ⟨⟨freshFor_one rfl (by decide), inOrder_handle (w := ⟨answeredRouted "u3", .answer⟩) rfl
    hsilent "u4"⟩, trivial⟩

/-- The two replies of the run go to bob and to alice, who have called. -/
theorem edges_returned_exchange :
    Along (Traffic.perform plain villa none) FreshAt (.boot .new) exchange ∧
    Along (Traffic.perform plain villa none) (InOrder plain villa none) (.boot .new) exchange ∧
    Along (Traffic.perform plain villa none) (EdgeReturned plain villa) (.boot .new) exchange := by
  have hfresh := exchange_in_order.imp fun _ _ h => h.1
  have horder := exchange_in_order.imp fun _ _ h => h.2
  exact ⟨hfresh, horder, edges_returned .new hfresh horder⟩

/-- Alice's own chain once bob has replied to the first of two greetings. -/
def repliedOnce : ThreadRegistry := greetedOnce.insert "alice" "u1"

/-- It is dropped when she has nothing to say to the reply. -/
def exhausted : ThreadRegistry := repliedOnce.cleanup "u1"

def answeredItem : Item := ⟨encodeEnvelope plain (answered "u1"), .answer⟩

def greetings : List Call := [aliceToBob, aliceToBob]

def greetedTwice : Traffic UInt32 :=
  ⟨greetedOnce, [], [⟨helloRouted "t1", .injected⟩, ⟨helloRouted "t1", .injected⟩], greetings⟩

def halfAnswered : Traffic UInt32 :=
  ⟨repliedOnce, [answeredItem], [⟨helloRouted "t1", .injected⟩], greetings⟩

def answeredTwice : Traffic UInt32 := ⟨repliedOnce, [answeredItem, answeredItem], [], greetings⟩

def firstHeard : Traffic UInt32 :=
  ⟨repliedOnce, [answeredItem], [⟨answeredRouted "u1", .answer⟩], greetings⟩

def dropped : Traffic UInt32 := ⟨exhausted, [answeredItem], [], greetings⟩

/-- The late reply is registered as bob's conversation with alice. -/
def backwards : Traffic UInt32 :=
  ⟨registerThread exhausted "u1" "bob" "alice", [], [⟨answeredRouted "u1", .answer⟩], greetings⟩

/-- Two greetings of alice on one thread, bob's reply to each, and alice's handling of the first
    reply before the second one is routed. -/
def lateReply : List (Event UInt32) :=
  [.inject (encodeEnvelope plain (hello "t1")), .inject (encodeEnvelope plain (hello "t1")),
    .route 0, .route 0, .handle 0 (some (.ok (.reply greetingReply))) "u1",
    .handle 0 (some (.ok (.reply greetingReply))) "u2", .route 0,
    .handle 0 (some (.ok .none)) "u3", .route 0]

theorem bob_answers_first : respond plain villa greetedOnce "u1" (helloRouted "t1")
    (.reply greetingReply) = (repliedOnce, [.onClose "t1", emitAnswer plain (answered "u1")]) := by
  have hl : greetedOnce.lookup (thread (helloRouted "t1")) = some "alice.bob" := rfl
  exact (answerUp_of_chain hl (by decide) "u1" greetingReply).trans rfl

theorem bob_answers_second : respond plain villa repliedOnce "u2" (helloRouted "t1")
    (.reply greetingReply) = (repliedOnce, [.onClose "t1", emitAnswer plain (answered "u1")]) := by
  have hl : repliedOnce.lookup (thread (helloRouted "t1")) = some "alice.bob" := rfl
  exact (answerUp_of_chain hl (by decide) "u2" greetingReply).trans rfl

theorem alice_silent : respond plain villa repliedOnce "u3" (answeredRouted "u1") .none =
    (exhausted, [.onClose "u1"]) := by
  have hprune : repliedOnce.pruneForResponse (answeredRouted "u1").envelope.header.thread "u3" =
      (none, exhausted) := rfl
  change answerUp plain repliedOnce "u3" (answeredRouted "u1") toolAck = _
  unfold answerUp
  dsimp only
  rw [hprune]
  rfl

theorem after_lateReply : (Traffic.boot .new).after plain villa none lateReply = backwards := by
  have h3 : (⟨.new, [helloItem, helloItem], [], []⟩ : Traffic UInt32).perform plain villa none
      (.route 0) = ⟨greetedOnce, [helloItem], [⟨helloRouted "t1", .injected⟩], [aliceToBob]⟩ :=
    perform_route_eq rfl (hello_forwarded_villa _) rfl
  have h4 : (⟨greetedOnce, [helloItem], [⟨helloRouted "t1", .injected⟩], [aliceToBob]⟩ :
      Traffic UInt32).perform plain villa none (.route 0) = greetedTwice :=
    perform_route_eq rfl (hello_forwarded_villa _) rfl
  have h5 : greetedTwice.perform plain villa none
      (.handle 0 (some (.ok (.reply greetingReply))) "u1") = halfAnswered :=
    perform_handle_eq rfl bob_answers_first rfl
  have h6 : halfAnswered.perform plain villa none
      (.handle 0 (some (.ok (.reply greetingReply))) "u2") = answeredTwice :=
    perform_handle_eq rfl bob_answers_second rfl
  have h7 : answeredTwice.perform plain villa none (.route 0) = firstHeard :=
    perform_route_eq rfl (answered_forwarded _ decode_answered) rfl
  have h8 : firstHeard.perform plain villa none (.handle 0 (some (.ok .none)) "u3") = dropped :=
    perform_handle_eq rfl alice_silent rfl
  have h9 : dropped.perform plain villa none (.route 0) = backwards :=
    perform_route_eq rfl (answered_forwarded _ decode_answered) rfl
  have h2 : ((Traffic.boot .new).perform plain villa none
      (.inject (encodeEnvelope plain (hello "t1")))).perform plain villa none
        (.inject (encodeEnvelope plain (hello "t1"))) = ⟨.new, [helloItem, helloItem], [], []⟩ := rfl
  rw [lateReply, after_cons, after_cons, h2, after_cons, h3, after_cons, h4, after_cons, h5,
    after_cons, h6, after_cons, h7, after_cons, h8, after_cons, h9, after_nil]

/-- Alice's silence is then acknowledged to bob, who has never called her. -/
theorem edge_reversed :
    (Traffic.boot .new).after plain villa none lateReply = backwards ∧
    (∃ out raw, .answer out raw ∈ (respond plain villa backwards.threads "u4"
        (answeredRouted "u1") .none).2 ∧
      out.header.fromAddr = .flat "alice" ∧ out.header.toAddr = some (.flat "bob")) ∧
    (∀ id, ¬ Toward plain backwards.calls "bob" "alice" id) ∧
    ¬ Along (Traffic.perform plain villa none) (EdgeReturned plain villa) (.boot .new)
      (lateReply ++ [.handle 0 (some (.ok .none)) "u4"]) := by
  have hchain : backwards.threads.lookup (thread (answeredRouted "u1")) = some "bob.alice" := rfl
  have hnot : ∀ id, ¬ Toward plain backwards.calls "bob" "alice" id := by
    intro id h
    obtain ⟨call, hcall, _, hc, _⟩ := h
    have hpair : call = aliceToBob := by
      simpa [backwards, greetings] using hcall
    rw [hpair] at hc
    revert hc
    unfold SameName
    decide
  obtain ⟨out, raw, hm, hto⟩ := answer_of_chain (P := plain) hchain (by decide) "u4" toolAck
  obtain ⟨_, _, _, hfrom, _⟩ := answer_up toolAck hm
  refine ⟨after_lateReply, ⟨out, raw, hm, hfrom, hto⟩, hnot, ?_⟩
  intro h
  have hlast := h.at
  change EdgeReturned plain villa ((Traffic.boot .new).after plain villa none lateReply) _ at hlast
  rw [after_lateReply] at hlast
  obtain ⟨_, c, hc, hcalled⟩ := hlast ⟨answeredRouted "u1", .answer⟩ rfl (.inl rfl) out raw hm
  rw [hto] at hc
  obtain rfl := flat_inj (Option.some_inj.mp hc)
  exact hnot _ hcalled

end RustPipeline.ReturnEdges
