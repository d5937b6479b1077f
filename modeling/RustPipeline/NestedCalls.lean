import RustPipeline.CallReturn
import RustPipeline.CallStack

set_option autoImplicit false

/-!
# Nested calls in a run

A conversation that goes down through calls and up through answers, with any other traffic of the
pipeline in between. The callers waiting in it form a stack, and an answer goes to the caller on top.
-/
namespace RustPipeline.NestedCalls
open Text Wire Codec CodecImage Handling Routing Registry Thread Federation Pipeline PipelineEffects
open Ingress PipelineRuns Conversations RoundTrip PlainPlatform Separated TransitionSystem Relation
open CallReturn
open CallStack (Stacked callChain callers lastSegment)

variable {F : Type} {P : Platform F}

/-! ## Traffic -/

/-- Bytes are routed and messages are handled, whatever their handlers answer. -/
inductive Passes (P : Platform F) (registry : ListenerRegistry F)
    (federation : Option PeerDirectory) : ThreadRegistry → ThreadRegistry → Prop where
  | ingress (threads : ThreadRegistry) (raw : Bytes) :
      Passes P registry federation threads (ingress P registry federation threads raw).1
  | handle (threads : ThreadRegistry) (msg : RoutedMsg F)
      (result : Option (Except PipelineError (HandlerResponse F))) (fresh : String)
      (h : FreshUuid threads fresh) :
      Passes P registry federation threads (processResult P registry threads fresh msg result).1

def traffic (P : Platform F) (registry : ListenerRegistry F) (federation : Option PeerDirectory) :
    System ThreadRegistry where
  init := Boot
  step := Passes P registry federation

variable {registry : ListenerRegistry F} {federation : Option PeerDirectory}

theorem Passes.respond {threads : ThreadRegistry} {fresh : String} (hf : FreshUuid threads fresh)
    (msg : RoutedMsg F) (response : HandlerResponse F) :
    Passes P registry federation threads (respond P registry threads fresh msg response).1 :=
  .handle threads msg (some (.ok response)) fresh hf

theorem Passes.change {threads later : ThreadRegistry}
    (h : Passes P registry federation threads later) : Change threads later := by
  cases h with
  | ingress raw => exact ingress_change P registry federation threads raw
  | handle msg result fresh hf =>
    exact (processResult_handled P registry threads fresh msg result).change hf

theorem sound_of_traffic {threads : ThreadRegistry}
    (h : Reachable (traffic P registry federation) threads) : Sound threads :=
  h.invariant (fun _ hb => Boot.sound hb) fun threads later hs
    (hstep : Passes P registry federation threads later) => hs.change hstep.change

/-- Chains with a caller outlast it. -/
theorem lookup_of_traffic {threads later : ThreadRegistry}
    (hr : ReflTransGen (Passes P registry federation) threads later) {id chain : String}
    (h : threads.lookup id = some chain) (hd : '.' ∈ chain.toList) :
    later.lookup id = some chain := by
  induction hr with
  | refl => exact h
  | tail _ hs ih => exact hs.change.lookup ih hd

/-! ## The conversation -/

/-- A caller that waits: the name it was called by and its thread. -/
structure Frame where
  listener : String
  thread : String

/-- The responses that are answers up the chain, with what they carry. -/
inductive Upward : HandlerResponse F → Payload F → Prop where
  | none : Upward .none toolAck
  | reply (payload : Payload F) : Upward (.reply payload) payload

/-- What was put on the ingress is forwarded to a listener, after any other steps. -/
inductive Delivered (P : Platform F) (registry : ListenerRegistry F)
    (federation : Option PeerDirectory) (threads : ThreadRegistry) (raw : Bytes) :
    ThreadRegistry → RoutedMsg F → Prop where
  | forwarded {arrival : ThreadRegistry} {routed : RoutedMsg F}
      (hrun : ReflTransGen (Passes P registry federation) threads arrival)
      (hr : (ingress P registry federation arrival raw).2 = .routed (.forwarded routed)) :
      Delivered P registry federation threads raw
        (ingress P registry federation arrival raw).1 routed

/-- A message on a live thread whose chain has a caller and ends in the message's listener. -/
structure Opening (P : Platform F) (registry : ListenerRegistry F)
    (federation : Option PeerDirectory) where
  threads : ThreadRegistry
  reachable : Reachable (traffic P registry federation) threads
  msg : RoutedMsg F
  chain : String
  live : threads.lookup msg.envelope.header.thread = some chain
  dotted : '.' ∈ chain.toList
  last : lastSegment chain = msg.targetName

/-- The conversation that an opening starts: the message it has come to, the name under which its
listener was called, and the callers that wait, the latest first. A call, of a `Send` or of a
`Spawn`, leaves its sender waiting; an answer takes the latest one off; the acknowledgement of a
`Spawn` goes on with its sender. -/
inductive Conversing (o : Opening P registry federation) :
    ThreadRegistry → RoutedMsg F → String → List Frame → Prop where
  | opened : Conversing o o.threads o.msg o.msg.targetName []
  | waits {threads later : ThreadRegistry} {msg : RoutedMsg F} {name : String} {frames : List Frame}
      (h : Conversing o threads msg name frames)
      (hs : Passes P registry federation threads later) : Conversing o later msg name frames
  | calls {threads later : ThreadRegistry} {msg routed : RoutedMsg F} {name fresh : String}
      {frames : List Frame} {response : HandlerResponse F} {toAddr : Address} {out : Envelope F}
      {raw : Bytes} (h : Conversing o threads msg name frames) (hf : FreshUuid threads fresh)
      (hm : .call out raw ∈ (respond P registry threads fresh msg response).2)
      (hto : out.header.toAddr = some toAddr) (hn : '.' ∉ toAddr.organismName.toList)
      (hd : Delivered P registry federation (respond P registry threads fresh msg response).1 raw
        later routed) :
      Conversing o later routed toAddr.organismName
        (⟨name, msg.envelope.header.thread⟩ :: frames)
  | answers {threads later : ThreadRegistry} {msg routed : RoutedMsg F} {name fresh : String}
      {caller : Frame} {frames : List Frame} {response : HandlerResponse F} {payload : Payload F}
      {out : Envelope F} {raw : Bytes} (h : Conversing o threads msg name (caller :: frames))
      (hf : FreshUuid threads fresh) (hup : Upward response payload)
      (hm : .answer out raw ∈ (respond P registry threads fresh msg response).2)
      (hd : Delivered P registry federation (respond P registry threads fresh msg response).1 raw
        later routed) :
      Conversing o later routed caller.listener frames
  | acknowledged {threads later : ThreadRegistry} {msg routed : RoutedMsg F} {name fresh : String}
      {frames : List Frame} {toAddr : Address} {payload : Payload F} {out : Envelope F} {raw : Bytes}
      (h : Conversing o threads msg name frames) (hf : FreshUuid threads fresh)
      (hm : .answer out raw ∈ (respond P registry threads fresh msg (.spawn toAddr payload)).2)
      (hd : Delivered P registry federation
        (respond P registry threads fresh msg (.spawn toAddr payload)).1 raw later routed) :
      Conversing o later routed name frames

/-! ## What a response does -/

theorem respond_of_upward {response : HandlerResponse F} {payload : Payload F}
    (h : Upward response payload) (threads : ThreadRegistry) (fresh : String) (msg : RoutedMsg F) :
    respond P registry threads fresh msg response = answerUp P threads fresh msg payload := by
  cases h with
  | none => rfl
  | reply => rfl

/-- A call extends the chain by its destination. -/
theorem respond_of_call {threads : ThreadRegistry} {fresh : String} {msg : RoutedMsg F}
    {response : HandlerResponse F} {out : Envelope F} {raw : Bytes}
    (h : .call out raw ∈ (respond P registry threads fresh msg response).2) :
    ∃ toAddr payload, out = callEnvelope msg toAddr (threads.extendChain
        msg.envelope.header.thread toAddr.organismName fresh).1 payload ∧
      raw = encodeEnvelope P out ∧ (respond P registry threads fresh msg response).1 =
        (threads.extendChain msg.envelope.header.thread toAddr.organismName fresh).2 := by
  cases response with
  | none => exact absurd h (call_notMem_answerUp P _ _ _ _ _ _)
  | reply payload => exact absurd h (call_notMem_answerUp P _ _ _ _ _ _)
  | spawn toAddr payload =>
    refine ⟨toAddr, payload, ?_⟩
    unfold respond spawnCall at h ⊢
    dsimp only at h ⊢
    cases ha : registry.routing.enforcePeers msg.targetName toAddr.organismName with
    | error e => simp [ha, emitAnswer] at h
    | ok u =>
      simp only [ha, emitAnswer, emitCall, List.mem_cons, List.not_mem_nil, reduceCtorEq,
        Effect.call.injEq, or_false] at h
      obtain ⟨rfl, rfl⟩ := h
      exact ⟨rfl, rfl, rfl⟩
  | send toAddr payload =>
    refine ⟨toAddr, payload, ?_⟩
    unfold respond sendCall at h ⊢
    dsimp only at h ⊢
    cases ha : registry.routing.enforcePeers msg.targetName toAddr.organismName with
    | error e => simp [ha] at h
    | ok u =>
      simp only [ha, emitCall, List.mem_cons, List.not_mem_nil, reduceCtorEq,
        Effect.call.injEq, or_false] at h
      obtain ⟨rfl, rfl⟩ := h
      exact ⟨rfl, rfl, rfl⟩

theorem ne_empty_of_dotted {c : String} (hc : '.' ∈ c.toList) : c ≠ "" := by
  rintro rfl
  cases hc

theorem callChain_dotted {c : String} (hc : '.' ∈ c.toList) (hops : List String) :
    '.' ∈ (callChain c hops).toList := by
  cases hops with
  | nil => exact hc
  | cons h hops => simp [callChain]

theorem lastSegment_callChain (c : String) {h : String} (hh : '.' ∉ h.toList)
    (hops : List String) : lastSegment (callChain c (h :: hops)) = h := by
  have hsplit : split '.' (callChain c hops ++ "." ++ h) = split '.' (callChain c hops) ++ [h] :=
    split_append_part hh
  change (split '.' (callChain c hops ++ "." ++ h)).getLastD "" = h
  rw [hsplit]
  simp

/-- Chains with a caller outlast any other traffic. -/
theorem stacked_of_traffic {threads later : ThreadRegistry} {c : String} (hc : '.' ∈ c.toList)
    {ids hops : List String} (hs : Stacked threads c ids hops)
    (hr : ReflTransGen (Passes P registry federation) threads later) :
    Stacked later c ids hops := by
  induction hs with
  | bottom hl => exact .bottom (lookup_of_traffic hr hl hc)
  | @call id h ids hops hs hl ih =>
    exact .call ih (lookup_of_traffic hr hl (callChain_dotted hc (h :: hops)))

/-- The waiting callers and the chains of their threads. -/
structure Nested (o : Opening P registry federation) (threads : ThreadRegistry)
    (msg : RoutedMsg F) (name : String) (frames : List Frame) (hops : List String) : Prop where
  reachable : Reachable (traffic P registry federation) threads
  plain : ∀ h ∈ hops, '.' ∉ h.toList
  stacked : Stacked threads o.chain
    (msg.envelope.header.thread :: frames.map Frame.thread) hops
  named : lastSegment (callChain o.chain hops) = name
  listeners : callers o.chain hops = frames.map Frame.listener

variable {o : Opening P registry federation}

theorem Delivered.run {threads later : ThreadRegistry} {raw : Bytes} {routed : RoutedMsg F}
    (h : Delivered P registry federation threads raw later routed) :
    ReflTransGen (Passes P registry federation) threads later ∧
      decodeEnvelope P raw = .ok routed.envelope := by
  cases h with
  | forwarded hrun hr =>
    exact ⟨hrun.tail (Passes.ingress _ raw), (ingress_forwarded P hr).1⟩

/-- An envelope keeps a thread id without white space around it. -/
theorem thread_decoded (lawful : Lawful P) {out env : Envelope F}
    (h : decodeEnvelope P (encodeEnvelope P out) = .ok env)
    (ht : trim out.header.thread = out.header.thread) :
    env.header.thread = out.header.thread := by
  rw [decode_encode lawful, wireImage_eq_ok] at h
  obtain ⟨_, _, hthread, _⟩ := h
  exact (headerText_of_trimmed ht hthread).symm

theorem Nested.later {threads later : ThreadRegistry} {msg : RoutedMsg F} {name : String}
    {frames : List Frame} {hops : List String} (h : Nested o threads msg name frames hops)
    (hr : ReflTransGen (Passes P registry federation) threads later) :
    Nested o later msg name frames hops :=
  ⟨h.reachable.trans hr, h.plain, stacked_of_traffic o.dotted h.stacked hr, h.named, h.listeners⟩

theorem Nested.trimmed {threads : ThreadRegistry} {msg : RoutedMsg F} {name : String}
    {frames : List Frame} {hops : List String} (h : Nested o threads msg name frames hops) :
    trim msg.envelope.header.thread = msg.envelope.header.thread :=
  (sound_of_traffic h.reachable).trimmed _ _ h.stacked.head

/-! ## A call -/

/-- A call puts its sender on the stack. -/
theorem Nested.call (lawful : Lawful P) {threads later : ThreadRegistry} {msg routed : RoutedMsg F}
    {name fresh : String} {frames : List Frame} {hops : List String}
    {response : HandlerResponse F} {toAddr : Address} {out : Envelope F} {raw : Bytes}
    (h : Nested o threads msg name frames hops) (hf : FreshUuid threads fresh)
    (hm : .call out raw ∈ (respond P registry threads fresh msg response).2)
    (hto : out.header.toAddr = some toAddr) (hn : '.' ∉ toAddr.organismName.toList)
    (hd : Delivered P registry federation (respond P registry threads fresh msg response).1 raw
      later routed) :
    Nested o later routed toAddr.organismName (⟨name, msg.envelope.header.thread⟩ :: frames)
      (toAddr.organismName :: hops) := by
  have hsound := sound_of_traffic h.reachable
  have hstep : Passes P registry federation threads _ := .respond hf msg response
  obtain ⟨dest, payload, hout, hraw, hthreads⟩ := respond_of_call hm
  rw [hout] at hto
  obtain rfl : dest = toAddr := Option.some_inj.mp hto
  obtain ⟨hrun, hdecode⟩ := hd.run
  have hpushed := h.stacked.extendChain hsound.consistent
    (ne_empty_of_dotted o.dotted) (h := dest.organismName) hf.unused
  rw [← hthreads] at hpushed
  have hthread : routed.envelope.header.thread = (threads.extendChain
      msg.envelope.header.thread dest.organismName fresh).1 := by
    rw [hraw, hout] at hdecode
    apply thread_decoded lawful hdecode
    exact extendChain_trimmed hsound h.stacked.head hf
  constructor
  · exact (h.reachable.next hstep).trans hrun
  · intro hop hmem
    rcases List.mem_cons.mp hmem with rfl | hmem
    · exact hn
    · exact h.plain hop hmem
  · rw [hthread]
    exact stacked_of_traffic o.dotted hpushed hrun
  · exact lastSegment_callChain o.chain hn hops
  · exact congrArg₂ List.cons h.named h.listeners

/-! ## An answer -/

/-- The caller on top is what a prune finds. -/
theorem Nested.pruned {threads : ThreadRegistry} {msg : RoutedMsg F} {name : String}
    {caller : Frame} {frames : List Frame} {hops : List String}
    (h : Nested o threads msg name (caller :: frames) hops) (fresh : String) :
    threads.pruneForResponse msg.envelope.header.thread fresh =
      (some ⟨caller.listener, caller.thread⟩, threads) := by
  have hconsistent := (sound_of_traffic h.reachable).consistent
  have hstacked := h.stacked
  have hplain := h.plain
  have hlisteners := h.listeners
  cases hops with
  | nil => cases hlisteners
  | cons hop hops =>
    rw [hstacked.pruneForResponse hconsistent (hplain hop List.mem_cons_self) fresh,
      (List.cons.inj hlisteners).1]

/-- What the listener answers, and only that, is for the caller on top. -/
theorem Nested.answer_mem_iff {threads : ThreadRegistry} {msg : RoutedMsg F} {name : String}
    {caller : Frame} {frames : List Frame} {hops : List String}
    (h : Nested o threads msg name (caller :: frames) hops) {response : HandlerResponse F}
    {payload : Payload F} (hup : Upward response payload) (fresh : String) (out : Envelope F)
    (raw : Bytes) : .answer out raw ∈ (respond P registry threads fresh msg response).2 ↔
      out = answerEnvelope msg ⟨caller.listener, caller.thread⟩ payload ∧
        raw = encodeEnvelope P out := by
  rw [respond_of_upward hup, mem_answerUp_iff, h.pruned fresh]
  constructor
  · rintro ⟨⟨prune, hp, hout⟩, hraw⟩
    rw [← Option.some_inj.mp hp] at hout
    exact ⟨hout, hraw⟩
  · rintro ⟨hout, hraw⟩
    exact ⟨⟨_, rfl, hout⟩, hraw⟩

/-- An answer takes the caller on top off the stack. -/
theorem Nested.answer (lawful : Lawful P) {threads later : ThreadRegistry}
    {msg routed : RoutedMsg F} {name fresh : String} {caller : Frame} {frames : List Frame}
    {hops : List String} {response : HandlerResponse F} {payload : Payload F} {out : Envelope F}
    {raw : Bytes} (h : Nested o threads msg name (caller :: frames) hops)
    (hup : Upward response payload)
    (hm : .answer out raw ∈ (respond P registry threads fresh msg response).2)
    (hd : Delivered P registry federation (respond P registry threads fresh msg response).1 raw
      later routed) :
    ∃ hops, Nested o later routed caller.listener frames hops := by
  obtain ⟨hout, hraw⟩ := (h.answer_mem_iff hup fresh out raw).mp hm
  obtain ⟨hrun, hdecode⟩ := hd.run
  rw [respond_of_upward hup, answerUp_threads, h.pruned fresh] at hrun
  have hsound := sound_of_traffic h.reachable
  have hplain := h.plain
  have hlisteners := h.listeners
  cases h.stacked with
  | @call _ hop _ hops hs hl =>
    have htrim : trim caller.thread = caller.thread := hsound.trimmed _ _ hs.head
    have hthread : routed.envelope.header.thread = caller.thread := by
      rw [hraw, hout] at hdecode
      apply thread_decoded lawful hdecode
      exact htrim
    refine ⟨hops, h.reachable.trans hrun, ?_, ?_, ?_, ?_⟩
    · intro x hx
      exact hplain x (List.mem_cons_of_mem hop hx)
    · rw [hthread]
      exact stacked_of_traffic o.dotted hs hrun
    · exact (List.cons.inj hlisteners).1
    · exact (List.cons.inj hlisteners).2

/-! ## The acknowledgement of a spawn -/

theorem Conversing.run {threads : ThreadRegistry} {msg : RoutedMsg F} {name : String}
    {frames : List Frame} (h : Conversing o threads msg name frames) :
    ReflTransGen (Passes P registry federation) o.threads threads := by
  induction h with
  | opened => exact .refl
  | waits h hs ih => exact ih.tail hs
  | calls h hf hm hto hdot hd ih => exact (ih.tail (.respond hf _ _)).trans hd.run.1
  | answers h hf hup hm hd ih => exact (ih.tail (.respond hf _ _)).trans hd.run.1
  | acknowledged h hf hm hd ih => exact (ih.tail (.respond hf _ _)).trans hd.run.1

def clerk (name payloadTag : String) : Registration UInt32 where
  name := name
  payloadTag := payloadTag
  handler _ _ := .ok .none
  isAgent := false
  peers := []
  schema := none

def office : ListenerRegistry UInt32 :=
  .build plain.lowercase [clerk "alice" "Greeting", clerk "bob" "Order", clerk "carol" "Errand"]

def errand : Envelope UInt32 :=
  ⟨⟨.flat "bob", some (.flat "carol"), "u2", .empty⟩, ⟨"Errand", .nil⟩⟩

def errandRouted : RoutedMsg UInt32 := ⟨errand, ⟨"Errand", .nil⟩, "carol"⟩

def ordered : Envelope UInt32 :=
  ⟨⟨.flat "carol", some (.flat "bob"), "u1", .empty⟩, ⟨"Order", .nil⟩⟩

def greeted : Envelope UInt32 :=
  ⟨⟨.flat "bob", some (.flat "alice"), "t1", .empty⟩, ⟨"Greeting", .nil⟩⟩

def bobCalled : ThreadRegistry := (booked.extendChain "t1" "bob" "u1").2

def carolCalled : ThreadRegistry := (bobCalled.extendChain "u1" "carol" "u2").2

theorem office_no_agent (f g : String) : ¬ office.routing.Refuses f g :=
  ListenerRegistry.not_refuses_build (by simp [clerk]) f g

theorem office_forwards {raw : Bytes} {header : Meta} {tag : String} {target : ListenerEntry}
    (hd : decodeEnvelope plain raw = .ok (⟨header, ⟨tag, .nil⟩⟩ : Envelope UInt32))
    (ho : office.routing.resolve plain.lowercase (header.toAddr.bind Address.organism) tag =
      .ok target) (threads : ThreadRegistry) :
    (ingress plain office none threads raw).2 =
      .routed (.forwarded ⟨⟨header, ⟨tag, .nil⟩⟩, ⟨tag, .nil⟩, target.name⟩) :=
  (ingress_forwarded_iff plain _ _ _ _ _).mpr
    ⟨_, target, ⟨hd, rfl, rfl, ho⟩, office_no_agent _ _, rfl⟩

theorem visit_forwarded_office (threads : ThreadRegistry) :
    (ingress plain office none threads (encodeEnvelope plain visit)).2 =
      .routed (.forwarded visitRouted) := by
  have hd : decodeEnvelope plain (encodeEnvelope plain visit) = .ok visit := decode_of_image rfl
  have hr : office.routing.resolve plain.lowercase (some "alice") "Greeting" =
      .ok ⟨"alice", false, List.toFinset [], routeKey plain.lowercase "alice" "Greeting"⟩ := rfl
  exact office_forwards hd hr threads

theorem errand_forwarded (threads : ThreadRegistry) :
    (ingress plain office none threads (encodeEnvelope plain errand)).2 =
      .routed (.forwarded errandRouted) := by
  have hd : decodeEnvelope plain (encodeEnvelope plain errand) = .ok errand := decode_of_image rfl
  have hr : office.routing.resolve plain.lowercase (some "carol") "Errand" =
      .ok ⟨"carol", false, List.toFinset [], routeKey plain.lowercase "carol" "Errand"⟩ := rfl
  exact office_forwards hd hr threads

theorem booked_reachable_office : Reachable (traffic plain office none) booked := by
  have hb : (ingress plain office none .new (encodeEnvelope plain visit)).1 = booked :=
    (ingress_forwarded plain (visit_forwarded_office .new)).2
  rw [← hb]
  exact .next (.start .new) (Passes.ingress .new (encodeEnvelope plain visit))

theorem live_visit : booked.lookup visitRouted.envelope.header.thread = some "user.alice" := rfl

theorem dotted_visit : '.' ∈ "user.alice".toList := by decide

theorem last_visit : lastSegment "user.alice" = visitRouted.targetName := by decide

def opening : Opening plain office none where
  threads := booked
  reachable := booked_reachable_office
  msg := visitRouted
  chain := "user.alice"
  live := live_visit
  dotted := dotted_visit
  last := last_visit

end RustPipeline.NestedCalls
