import RustPipeline.PipelineRuns
import RustPipeline.PlainPlatform

set_option autoImplicit false

/-!
# Conversations and their replies

The route stage registers the thread of a message it forwards, unless the chain of the two
listeners already belongs to another thread. A run answers its conversations exactly when this
does not happen and no answer is owed on an exhausted chain.
-/
namespace RustPipeline.Conversations
open Text Wire Codec CodecImage Handling Routing Registry Thread Federation Pipeline PipelineEffects
open Ingress PipelineRuns PlainPlatform Separated TransitionSystem Relation

variable {F : Type} (P : Platform F)

/-! ## Runs -/

inductive Action (F : Type) where
  | ingress (raw : Bytes)
  | process (msg : RoutedMsg F) (fresh : String)

def perform (ctx : DispatchCtx F) (federation : Option PeerDirectory) (threads : ThreadRegistry) :
    Action F → ThreadRegistry
  | .ingress raw => (ingress P ctx.registry federation threads raw).1
  | .process msg fresh => (processMessage P ctx threads fresh msg).1

/-- The registry after the actions of a run. -/
def after (ctx : DispatchCtx F) (federation : Option PeerDirectory) (threads : ThreadRegistry)
    (actions : List (Action F)) : ThreadRegistry :=
  actions.foldl (perform P ctx federation) threads

theorem after_ingress (ctx : DispatchCtx F) (federation : Option PeerDirectory)
    (threads : ThreadRegistry) (pre : List (Action F)) (raw : Bytes) :
    after P ctx federation threads (pre ++ [.ingress raw]) =
      (ingress P ctx.registry federation (after P ctx federation threads pre) raw).1 := by
  rw [after, List.foldl_append]
  rfl

/-! ## A conversation and its reply -/

def replies (ctx : DispatchCtx F) (msg : RoutedMsg F) (payload : Payload F) : Prop :=
  handlerResult ctx msg = some (.ok (.reply payload))

/-- The thread of a forwarded message is registered, and a handler that replies, at once or after
    any other steps of the pipeline, gets its reply envelope. -/
structure Answered (ctx : DispatchCtx F) (federation : Option PeerDirectory)
    (threads : ThreadRegistry) (msg : RoutedMsg F) : Prop where
  registered : (threads.lookup msg.envelope.header.thread).isSome
  answer : ∀ payload, replies ctx msg payload →
    ∀ later, ReflTransGen (Step P ctx federation) threads later →
      ∀ fresh, ∃ prune raw, .answer (answerEnvelope msg prune payload) raw ∈
        (processMessage P ctx later fresh msg).2

/-- The message's thread is registered, or the chain of its two listeners is free; and a thread
    on which the handler replies has a caller in its chain. -/
structure Opens (ctx : DispatchCtx F) (threads : ThreadRegistry) (msg : RoutedMsg F) : Prop where
  free : (threads.lookup msg.envelope.header.thread).isSome ∨
    threads.chainToUuid (threads.rootedChain msg.envelope.header.fromAddr.organismName
      msg.targetName) = none
  caller : ∀ payload, replies ctx msg payload →
    ∀ chain, threads.lookup msg.envelope.header.thread = some chain → '.' ∈ chain.toList

theorem rootedChain_dot (threads : ThreadRegistry) (initiator target : String) :
    '.' ∈ (threads.rootedChain initiator target).toList := by
  unfold ThreadRegistry.rootedChain
  split_ifs <;> simp

/-- The chain a thread has once the route stage has registered it. -/
theorem registerThread_lookup_iff (threads : ThreadRegistry) (threadId f g chain : String) :
    (registerThread threads threadId f g).lookup threadId = some chain ↔
      threads.lookup threadId = some chain ∨ threads.lookup threadId = none ∧
        threads.chainToUuid (threads.rootedChain f g) = none ∧
        threads.rootedChain f g = chain := by
  unfold registerThread
  cases hl : threads.lookup threadId with
  | some c => simp [hl]
  | none =>
    have hfree := registerThread_lookup threads threadId f g
    rw [hl] at hfree
    dsimp only
    constructor
    · intro h
      have hc := (hfree.mp (by rw [h]; rfl)).resolve_left (by simp)
      rw [registerThread_of_free hl hc, Option.some_inj] at h
      exact .inr ⟨rfl, hc, h⟩
    · rintro (h | ⟨_, hc, rfl⟩)
      · cases h
      · exact registerThread_of_free hl hc

theorem registerThread_isSome (threads : ThreadRegistry) (threadId f g : String) :
    ((registerThread threads threadId f g).lookup threadId).isSome ↔
      (threads.lookup threadId).isSome ∨ threads.chainToUuid (threads.rootedChain f g) = none := by
  unfold registerThread
  cases hl : threads.lookup threadId with
  | some c => simp [hl]
  | none =>
    have h := registerThread_lookup threads threadId f g
    rw [hl] at h
    exact h

theorem registerThread_of_some {threads : ThreadRegistry} {threadId f g chain : String}
    (h : threads.lookup threadId = some chain) :
    registerThread threads threadId f g = threads := by
  unfold registerThread
  rw [h]

/-- What answers a message on which the handler replies. -/
theorem answers_of_replies {ctx : DispatchCtx F} {threads : ThreadRegistry} {fresh : String}
    {msg : RoutedMsg F} {payload : Payload F} {out : Envelope F} (h : replies ctx msg payload)
    (ha : Answers ctx threads fresh msg out) :
    ∃ prune, (threads.pruneForResponse msg.envelope.header.thread fresh).1 = some prune ∧
      out = answerEnvelope msg prune payload := by
  unfold replies at h
  cases ha with
  | ack prune h' hp =>
    rw [h] at h'
    cases h'
  | reply prune p h' hp =>
    rw [h] at h'
    cases h'
    exact ⟨prune, hp, rfl⟩
  | spawned toAddr p h' =>
    rw [h] at h'
    cases h'
  | rejected toAddr p h' =>
    rw [h] at h'
    cases h'

/-- A reply is built exactly on a thread with a caller in its chain. -/
theorem reply_built_iff {ctx : DispatchCtx F} {threads : ThreadRegistry} {msg : RoutedMsg F}
    {payload : Payload F} (h : replies ctx msg payload) (fresh : String) :
    (∃ prune raw, .answer (answerEnvelope msg prune payload) raw ∈
        (processMessage P ctx threads fresh msg).2) ↔
      ∃ chain, threads.lookup msg.envelope.header.thread = some chain ∧ '.' ∈ chain.toList := by
  rw [← pruneForResponse_isSome threads msg.envelope.header.thread fresh, Option.isSome_iff_exists]
  constructor
  · rintro ⟨_, raw, hm⟩
    obtain ⟨prune, hp, _⟩ := answers_of_replies h ((answer_mem_iff P _ _ _ _ _ _).mp hm).1
    exact ⟨prune, hp⟩
  · rintro ⟨prune, hp⟩
    exact ⟨prune, _, (answer_mem_iff P _ _ _ _ _ _).mpr ⟨.reply prune payload h hp, rfl⟩⟩

theorem answered_iff_opens (ctx : DispatchCtx F) (federation : Option PeerDirectory)
    {threads : ThreadRegistry} {raw : Bytes} {msg : RoutedMsg F}
    (h : (ingress P ctx.registry federation threads raw).2 = .routed (.forwarded msg)) :
    Answered P ctx federation (ingress P ctx.registry federation threads raw).1 msg ↔
      Opens ctx threads msg := by
  rw [(ingress_forwarded P h).2]
  constructor
  · intro ha
    refine ⟨(registerThread_isSome _ _ _ _).mp ha.registered, ?_⟩
    intro payload hr chain hl
    have hbuilt := ha.answer payload hr _ .refl ""
    rw [registerThread_of_some hl] at hbuilt
    obtain ⟨c, hc, hd⟩ := (reply_built_iff P hr "").mp hbuilt
    rw [hl, Option.some_inj] at hc
    rw [hc]
    exact hd
  · intro ho
    have hsome := (registerThread_isSome _ _ _ _).mpr ho.free
    refine ⟨hsome, ?_⟩
    intro payload hr later hrun fresh
    obtain ⟨chain, hc⟩ := Option.isSome_iff_exists.mp hsome
    have hd : '.' ∈ chain.toList := by
      rcases (registerThread_lookup_iff _ _ _ _ _).mp hc with hl | ⟨_, _, rfl⟩
      · exact ho.caller payload hr chain hl
      · exact rootedChain_dot _ _ _
    exact (reply_built_iff P hr fresh).mpr ⟨chain, lookup_of_run P hrun hc hd, hd⟩

/-- A run answers every conversation it forwards exactly when each routing step finds the thread
    registered or the chain free, and the handler replies only to a caller. -/
theorem conversations_answered_iff (ctx : DispatchCtx F) (federation : Option PeerDirectory)
    (boot : ThreadRegistry) (actions : List (Action F)) :
    (∀ pre raw post msg, actions = pre ++ .ingress raw :: post →
        (ingress P ctx.registry federation (after P ctx federation boot pre) raw).2 =
          .routed (.forwarded msg) →
        Answered P ctx federation (after P ctx federation boot (pre ++ [.ingress raw])) msg) ↔
      ∀ pre raw post msg, actions = pre ++ .ingress raw :: post →
        (ingress P ctx.registry federation (after P ctx federation boot pre) raw).2 =
          .routed (.forwarded msg) →
        Opens ctx (after P ctx federation boot pre) msg := by
  constructor
  · intro h pre raw post msg hsplit hf
    have ha := h pre raw post msg hsplit hf
    rw [after_ingress] at ha
    exact (answered_iff_opens P ctx federation hf).mp ha
  · intro h pre raw post msg hsplit hf
    rw [after_ingress]
    exact (answered_iff_opens P ctx federation hf).mpr (h pre raw post msg hsplit hf)

/-! ## Two conversations of the same two listeners -/

def bob : Registration UInt32 where
  name := "bob"
  payloadTag := "Greeting"
  handler payload _ := .ok (.reply ⟨"GreetingReply", payload.value⟩)
  isAgent := false
  peers := []
  schema := none

def bobOnly : DispatchCtx UInt32 := ⟨.build plain.lowercase [bob], []⟩

def hello (thread : String) : Envelope UInt32 :=
  ⟨⟨.flat "alice", some (.flat "bob"), thread, .empty⟩, ⟨"Greeting", .text "hi"⟩⟩

def helloRouted (thread : String) : RoutedMsg UInt32 :=
  ⟨hello thread, ⟨"Greeting", .text "hi"⟩, "bob"⟩

theorem decode_hello_first : decodeEnvelope plain (encodeEnvelope plain (hello "t1")) =
    .ok (hello "t1") :=
  decode_of_image rfl

theorem decode_hello_second : decodeEnvelope plain (encodeEnvelope plain (hello "t2")) =
    .ok (hello "t2") :=
  decode_of_image rfl

theorem hello_forwarded (threads : ThreadRegistry) {thread : String}
    (h : decodeEnvelope plain (encodeEnvelope plain (hello thread)) = .ok (hello thread)) :
    (ingress plain bobOnly.registry none threads (encodeEnvelope plain (hello thread))).2 =
        .routed (.forwarded (helloRouted thread)) ∧
      (ingress plain bobOnly.registry none threads (encodeEnvelope plain (hello thread))).1 =
        registerThread threads thread "alice" "bob" := by
  have hf : (ingress plain bobOnly.registry none threads (encodeEnvelope plain (hello thread))).2 =
      .routed (.forwarded (helloRouted thread)) := by
    refine (ingress_forwarded_iff plain _ _ _ _ _).mpr
      ⟨hello thread, _, ⟨h, rfl, rfl, RoutingTable.resolve_register_of_free false [] rfl⟩, ?_, rfl⟩
    rintro ⟨sender, hs, _⟩
    cases hs
  exact ⟨hf, (ingress_forwarded plain hf).2⟩

def firstHello : List (Action UInt32) := [] ++ [.ingress (encodeEnvelope plain (hello "t1"))]

/-- The second of two threads between the same two listeners is forwarded, but is not registered
    and gets no reply. -/
theorem second_conversation_unanswered :
    (ingress plain bobOnly.registry none (after plain bobOnly none .new firstHello)
        (encodeEnvelope plain (hello "t2"))).2 = .routed (.forwarded (helloRouted "t2")) ∧
      ((ingress plain bobOnly.registry none (after plain bobOnly none .new firstHello)
        (encodeEnvelope plain (hello "t2"))).1.lookup "t2") = none ∧
      (∀ fresh out raw, .answer out raw ∉ (processMessage plain bobOnly
        (ingress plain bobOnly.registry none (after plain bobOnly none .new firstHello)
          (encodeEnvelope plain (hello "t2"))).1 fresh (helloRouted "t2")).2) ∧
      ¬ Answered plain bobOnly none (after plain bobOnly none .new (firstHello ++
        [.ingress (encodeEnvelope plain (hello "t2"))])) (helloRouted "t2") := by
  have hfirst : after plain bobOnly none .new firstHello =
      registerThread .new "t1" "alice" "bob" := by
    rw [firstHello, after_ingress]
    exact (hello_forwarded .new decode_hello_first).2
  have hlost : (registerThread (registerThread .new "t1" "alice" "bob") "t2" "alice" "bob").lookup
      "t2" = none := by
    decide
  obtain ⟨hroute, hsecond⟩ :=
    hello_forwarded (registerThread .new "t1" "alice" "bob") decode_hello_second
  rw [after_ingress, hfirst, hsecond]
  refine ⟨hroute, hlost, ?_, ?_⟩
  · intro fresh out raw hm
    have hr : replies bobOnly (helloRouted "t2") ⟨"GreetingReply", .text "hi"⟩ := rfl
    obtain ⟨prune, _, rfl⟩ := answers_of_replies hr ((answer_mem_iff plain _ _ _ _ _ _).mp hm).1
    obtain ⟨chain, hc, _⟩ := (reply_built_iff plain hr fresh).mp ⟨prune, raw, hm⟩
    exact absurd (hlost.symm.trans hc) (by simp)
  · intro h
    exact absurd (hlost ▸ h.registered) (by simp)

end RustPipeline.Conversations
