import RustPipeline.Pipeline

set_option autoImplicit false

/-!
# What handling a message puts on the ingress

The envelopes of `processMessage`, described from the handler's response and the thread registry.
-/
namespace RustPipeline.PipelineEffects
open Wire Codec Handling Routing Registry Thread Pipeline

variable {F : Type} (P : Platform F)

/-- `processMessage` once the handler and the middleware have left this result. A handler may keep
    state, so it may be any. -/
def processResult (registry : ListenerRegistry F) (threads : ThreadRegistry) (fresh : String)
    (msg : RoutedMsg F) : Option (Except PipelineError (HandlerResponse F)) →
      ThreadRegistry × List (Effect F)
  | some (.ok response) => respond P registry threads fresh msg response
  | some (.error _) => (threads, [])
  | none => (threads, [])

theorem processMessage_eq (ctx : DispatchCtx F) (threads : ThreadRegistry) (fresh : String)
    (msg : RoutedMsg F) : processMessage P ctx threads fresh msg =
      processResult P ctx.registry threads fresh msg (handlerResult ctx msg) := by
  unfold processMessage processResult
  cases handlerResult ctx msg with
  | none => rfl
  | some result =>
    cases result with
    | error e => rfl
    | ok response => rfl

/-- The envelopes that answer: up the chain for `Reply` and `None`, to the spawner for `Spawn`. -/
inductive Answers (ctx : DispatchCtx F) (threads : ThreadRegistry) (fresh : String)
    (msg : RoutedMsg F) : Envelope F → Prop where
  | ack (prune : PruneResult) (h : handlerResult ctx msg = some (.ok .none))
      (hp : (threads.pruneForResponse msg.envelope.header.thread fresh).1 = some prune) :
      Answers ctx threads fresh msg (answerEnvelope msg prune toolAck)
  | reply (prune : PruneResult) (payload : Payload F)
      (h : handlerResult ctx msg = some (.ok (.reply payload)))
      (hp : (threads.pruneForResponse msg.envelope.header.thread fresh).1 = some prune) :
      Answers ctx threads fresh msg (answerEnvelope msg prune payload)
  | spawned (toAddr : Address) (payload : Payload F)
      (h : handlerResult ctx msg = some (.ok (.spawn toAddr payload)))
      (ha : ctx.registry.routing.enforcePeers msg.targetName toAddr.organismName = .ok ()) :
      Answers ctx threads fresh msg (spawnAckEnvelope msg toAddr.organismName true)
  | rejected (toAddr : Address) (payload : Payload F)
      (h : handlerResult ctx msg = some (.ok (.spawn toAddr payload)))
      (ha : ctx.registry.routing.enforcePeers msg.targetName toAddr.organismName ≠ .ok ()) :
      Answers ctx threads fresh msg (spawnAckEnvelope msg toAddr.organismName false)

/-- The envelopes that carry the work of a `Send` or a `Spawn`. -/
inductive Calls (ctx : DispatchCtx F) (threads : ThreadRegistry) (fresh : String)
    (msg : RoutedMsg F) : Envelope F → Prop where
  | call (toAddr : Address) (payload : Payload F)
      (h : handlerResult ctx msg = some (.ok (.send toAddr payload)) ∨
        handlerResult ctx msg = some (.ok (.spawn toAddr payload)))
      (ha : ctx.registry.routing.enforcePeers msg.targetName toAddr.organismName = .ok ()) :
      Calls ctx threads fresh msg (callEnvelope msg toAddr (threads.extendChain
        msg.envelope.header.thread toAddr.organismName fresh).1 payload)

theorem answerUp_threads (threads : ThreadRegistry) (fresh : String) (msg : RoutedMsg F)
    (payload : Payload F) : (answerUp P threads fresh msg payload).1 =
      (threads.pruneForResponse msg.envelope.header.thread fresh).2 := by
  unfold answerUp
  dsimp only
  rcases threads.pruneForResponse msg.envelope.header.thread fresh with ⟨_ | prune, t⟩ <;> rfl

theorem mem_answerUp_iff (threads : ThreadRegistry) (fresh : String) (msg : RoutedMsg F)
    (payload : Payload F) (out : Envelope F) (raw : Text.Bytes) :
    .answer out raw ∈ (answerUp P threads fresh msg payload).2 ↔
      (∃ prune, (threads.pruneForResponse msg.envelope.header.thread fresh).1 = some prune ∧
        out = answerEnvelope msg prune payload) ∧ raw = encodeEnvelope P out := by
  unfold answerUp
  dsimp only
  rcases threads.pruneForResponse msg.envelope.header.thread fresh with ⟨_ | prune, t⟩
  · simp
  · simp only [emitAnswer, List.mem_cons, reduceCtorEq, Effect.answer.injEq, List.not_mem_nil,
      or_false, false_or, Option.some.injEq, exists_eq_left']
    constructor
    · rintro ⟨rfl, rfl⟩
      exact ⟨rfl, rfl⟩
    · rintro ⟨rfl, rfl⟩
      exact ⟨rfl, rfl⟩

theorem call_notMem_answerUp (threads : ThreadRegistry) (fresh : String) (msg : RoutedMsg F)
    (payload : Payload F) (out : Envelope F) (raw : Text.Bytes) :
    .call out raw ∉ (answerUp P threads fresh msg payload).2 := by
  unfold answerUp
  dsimp only
  rcases threads.pruneForResponse msg.envelope.header.thread fresh with ⟨_ | prune, t⟩ <;>
    simp [emitAnswer]

theorem answer_mem_iff (ctx : DispatchCtx F) (threads : ThreadRegistry) (fresh : String)
    (msg : RoutedMsg F) (out : Envelope F) (raw : Text.Bytes) :
    .answer out raw ∈ (processMessage P ctx threads fresh msg).2 ↔
      Answers ctx threads fresh msg out ∧ raw = encodeEnvelope P out := by
  unfold processMessage
  constructor
  · intro hm
    cases h : handlerResult ctx msg with
    | none => simp [h] at hm
    | some result =>
      rw [h] at hm
      cases result with
      | error e => simp at hm
      | ok response =>
        cases response with
        | none =>
          obtain ⟨⟨prune, hp, rfl⟩, rfl⟩ := (mem_answerUp_iff P _ _ _ _ _ _).mp hm
          exact ⟨.ack prune h hp, rfl⟩
        | reply payload =>
          obtain ⟨⟨prune, hp, rfl⟩, rfl⟩ := (mem_answerUp_iff P _ _ _ _ _ _).mp hm
          exact ⟨.reply prune payload h hp, rfl⟩
        | spawn toAddr payload =>
          unfold respond spawnCall at hm
          dsimp only at hm
          cases ha : ctx.registry.routing.enforcePeers msg.targetName toAddr.organismName with
          | error e =>
            simp only [ha, emitAnswer, List.mem_singleton, Effect.answer.injEq] at hm
            obtain ⟨rfl, rfl⟩ := hm
            exact ⟨.rejected toAddr payload h (by simp [ha]), rfl⟩
          | ok u =>
            simp only [ha, emitAnswer, emitCall, List.mem_cons, List.not_mem_nil, reduceCtorEq,
              Effect.answer.injEq, or_false, false_or] at hm
            obtain ⟨rfl, rfl⟩ := hm
            exact ⟨.spawned toAddr payload h ha, rfl⟩
        | send toAddr payload =>
          unfold respond sendCall at hm
          dsimp only at hm
          cases ha : ctx.registry.routing.enforcePeers msg.targetName toAddr.organismName with
          | error e => simp [ha] at hm
          | ok u => simp [ha, emitCall] at hm
  · rintro ⟨ha, rfl⟩
    cases ha with
    | ack prune h hp =>
      rw [h]
      exact (mem_answerUp_iff P _ _ _ _ _ _).mpr ⟨⟨prune, hp, rfl⟩, rfl⟩
    | reply prune payload h hp =>
      rw [h]
      exact (mem_answerUp_iff P _ _ _ _ _ _).mpr ⟨⟨prune, hp, rfl⟩, rfl⟩
    | spawned toAddr payload h ha =>
      rw [h]
      simp [respond, spawnCall, ha, emitAnswer]
    | rejected toAddr payload h ha =>
      rw [h]
      cases hr : ctx.registry.routing.enforcePeers msg.targetName toAddr.organismName with
      | error e => simp [respond, spawnCall, hr, emitAnswer]
      | ok u => exact absurd hr ha

theorem call_mem_iff (ctx : DispatchCtx F) (threads : ThreadRegistry) (fresh : String)
    (msg : RoutedMsg F) (out : Envelope F) (raw : Text.Bytes) :
    .call out raw ∈ (processMessage P ctx threads fresh msg).2 ↔
      Calls ctx threads fresh msg out ∧ raw = encodeEnvelope P out := by
  unfold processMessage
  constructor
  · intro hm
    cases h : handlerResult ctx msg with
    | none => simp [h] at hm
    | some result =>
      rw [h] at hm
      cases result with
      | error e => simp at hm
      | ok response =>
        cases response with
        | none => exact absurd hm (call_notMem_answerUp P _ _ _ _ _ _)
        | reply payload => exact absurd hm (call_notMem_answerUp P _ _ _ _ _ _)
        | spawn toAddr payload =>
          unfold respond spawnCall at hm
          dsimp only at hm
          cases ha : ctx.registry.routing.enforcePeers msg.targetName toAddr.organismName with
          | error e => simp [ha, emitAnswer] at hm
          | ok u =>
            simp only [ha, emitAnswer, emitCall, List.mem_cons, List.not_mem_nil, reduceCtorEq,
              Effect.call.injEq, or_false] at hm
            obtain ⟨rfl, rfl⟩ := hm
            exact ⟨.call toAddr payload (.inr h) ha, rfl⟩
        | send toAddr payload =>
          unfold respond sendCall at hm
          dsimp only at hm
          cases ha : ctx.registry.routing.enforcePeers msg.targetName toAddr.organismName with
          | error e => simp [ha] at hm
          | ok u =>
            simp only [ha, emitCall, List.mem_cons, List.not_mem_nil, reduceCtorEq,
              Effect.call.injEq, or_false] at hm
            obtain ⟨rfl, rfl⟩ := hm
            exact ⟨.call toAddr payload (.inl h) ha, rfl⟩
  · rintro ⟨⟨toAddr, payload, h | h, ha⟩, rfl⟩
    · rw [h]
      simp [respond, sendCall, ha, emitCall]
    · rw [h]
      simp [respond, spawnCall, ha, emitCall]

/-- What carries the work of a message on which the handler sends. -/
theorem calls_of_send {ctx : DispatchCtx F} {threads : ThreadRegistry} {fresh : String}
    {msg : RoutedMsg F} {toAddr : Address} {payload : Payload F} {out : Envelope F}
    (h : handlerResult ctx msg = some (.ok (.send toAddr payload)))
    (hc : Calls ctx threads fresh msg out) :
    ctx.registry.routing.enforcePeers msg.targetName toAddr.organismName = .ok () ∧
      out = callEnvelope msg toAddr (threads.extendChain msg.envelope.header.thread
        toAddr.organismName fresh).1 payload := by
  cases hc with
  | call b p h' ha =>
    rw [h] at h'
    rcases h' with h' | h'
    · cases h'
      exact ⟨ha, rfl⟩
    · cases h'

/-- A `Send` that the peer list lets pass. -/
theorem processMessage_of_send {ctx : DispatchCtx F} {msg : RoutedMsg F} {toAddr : Address}
    {payload : Payload F} (h : handlerResult ctx msg = some (.ok (.send toAddr payload)))
    (ha : ctx.registry.routing.enforcePeers msg.targetName toAddr.organismName = .ok ())
    (threads : ThreadRegistry) (fresh : String) :
    (processMessage P ctx threads fresh msg).1 = (threads.extendChain
      msg.envelope.header.thread toAddr.organismName fresh).2 := by
  unfold processMessage
  rw [h]
  unfold respond sendCall
  dsimp only
  rw [ha]

end RustPipeline.PipelineEffects
