import RustPipeline.Federation
import RustPipeline.Registry
import RustPipeline.Thread

set_option autoImplicit false

/-!
# The pipeline stages

Validation, routing and the handling of one message. A stage is a function of the message and of
the thread registry it runs on; a generated UUID is an argument.
-/
namespace RustPipeline.Pipeline
open Text Wire Codec Handling Routing Registry Thread Federation Validation

variable {F : Type}

structure ValidatedMsg (F : Type) where
  envelope : Envelope F
  payload : ValidatedPayload F

structure RoutedMsg (F : Type) where
  envelope : Envelope F
  payload : ValidatedPayload F
  targetName : String

/-! ## Validation and routing -/

def validateStage (registry : ListenerRegistry F) (env : Envelope F) :
    Except PipelineError (ValidatedMsg F) :=
  match registry.schemas.validateValue env.payload.tag env.payload.value with
  | .ok () => .ok ⟨env, ⟨env.payload.tag, env.payload.value⟩⟩
  | .error e => .error e

inductive RouteOutcome (F : Type) where
  | egress (env : Envelope F)
  | dropped (e : PipelineError)
  | forwarded (msg : RoutedMsg F)

/-- The leading segment of the destination is a registered remote node. -/
def isRemote (federation : Option PeerDirectory) (toAddr : Option Address) : Bool :=
  match federation with
  | some directory => ((toAddr.bind Address.node).map directory.isRemote).getD false
  | none => false

def registerThread (threads : ThreadRegistry) (threadId fromName targetName : String) :
    ThreadRegistry :=
  match threads.lookup threadId with
  | some _ => threads
  | none => (threads.registerThread threadId fromName targetName).2

/-- Resolution and the peer check of `route_stage`. -/
def routeTarget (P : Platform F) (registry : ListenerRegistry F) (header : Meta) (tag : String) :
    Except PipelineError ListenerEntry :=
  match registry.routing.resolve P.lowercase (header.toAddr.bind Address.organism) tag with
  | .error e => .error e
  | .ok target =>
    match registry.routing.enforcePeers header.fromAddr.organismName target.name with
    | .error e => .error e
    | .ok () => .ok target

def routeStage (P : Platform F) (registry : ListenerRegistry F)
    (federation : Option PeerDirectory) (threads : ThreadRegistry) (msg : ValidatedMsg F) :
    ThreadRegistry × RouteOutcome F :=
  let header := msg.envelope.header
  if isRemote federation header.toAddr then (threads, .egress msg.envelope)
  else
    match routeTarget P registry header msg.envelope.payload.tag with
    | .error e => (threads, .dropped e)
    | .ok target =>
      (registerThread threads header.thread header.fromAddr.organismName target.name,
        .forwarded ⟨msg.envelope, msg.payload, target.name⟩)

theorem validateStage_ok_iff (registry : ListenerRegistry F) (env : Envelope F)
    (msg : ValidatedMsg F) : validateStage registry env = .ok msg ↔
      msg = ⟨env, ⟨env.payload.tag, env.payload.value⟩⟩ ∧
        validatePayloadValue env.payload.value (registry.schemas.inForce env.payload.tag) =
          .ok () := by
  unfold validateStage
  rw [SchemaRegistry.validateValue_eq]
  cases validatePayloadValue env.payload.value (registry.schemas.inForce env.payload.tag) with
  | error e => simp
  | ok u => simp [eq_comm]

theorem routeStage_forwarded_iff (P : Platform F) (registry : ListenerRegistry F)
    (federation : Option PeerDirectory) (threads : ThreadRegistry) (msg : ValidatedMsg F)
    (routed : RoutedMsg F) :
    (routeStage P registry federation threads msg).2 = .forwarded routed ↔
      isRemote federation msg.envelope.header.toAddr = false ∧
        ∃ target, routeTarget P registry msg.envelope.header msg.envelope.payload.tag =
          .ok target ∧ routed = ⟨msg.envelope, msg.payload, target.name⟩ := by
  unfold routeStage
  dsimp only
  cases isRemote federation msg.envelope.header.toAddr with
  | true => simp
  | false =>
    cases routeTarget P registry msg.envelope.header msg.envelope.payload.tag with
    | error e => simp
    | ok target => simp [eq_comm]

theorem routeStage_dropped_iff (P : Platform F) (registry : ListenerRegistry F)
    (federation : Option PeerDirectory) (threads : ThreadRegistry) (msg : ValidatedMsg F)
    (e : PipelineError) :
    (routeStage P registry federation threads msg).2 = .dropped e ↔
      isRemote federation msg.envelope.header.toAddr = false ∧
        routeTarget P registry msg.envelope.header msg.envelope.payload.tag = .error e := by
  unfold routeStage
  dsimp only
  cases isRemote federation msg.envelope.header.toAddr with
  | true => simp
  | false =>
    cases routeTarget P registry msg.envelope.header msg.envelope.payload.tag with
    | error e => simp
    | ok target => simp

theorem routeStage_egress_iff (P : Platform F) (registry : ListenerRegistry F)
    (federation : Option PeerDirectory) (threads : ThreadRegistry) (msg : ValidatedMsg F)
    (env : Envelope F) :
    (routeStage P registry federation threads msg).2 = .egress env ↔
      isRemote federation msg.envelope.header.toAddr = true ∧ msg.envelope = env := by
  unfold routeStage
  dsimp only
  cases isRemote federation msg.envelope.header.toAddr with
  | true => simp
  | false =>
    cases routeTarget P registry msg.envelope.header msg.envelope.payload.tag with
    | error e => simp
    | ok target => simp

theorem routeTarget_of_refuses (P : Platform F) {registry : ListenerRegistry F} {header : Meta}
    {tag : String} {target : ListenerEntry}
    (hr : registry.routing.resolve P.lowercase (header.toAddr.bind Address.organism) tag =
      .ok target)
    (h : registry.routing.Refuses header.fromAddr.organismName target.name) :
    ∃ allowed, routeTarget P registry header tag =
      .error (.peerViolation header.fromAddr.organismName target.name allowed) := by
  obtain ⟨allowed, he⟩ := RoutingTable.enforcePeers_of_refuses h
  refine ⟨allowed, ?_⟩
  unfold routeTarget
  simp only [hr, he]

theorem routeTarget_peerViolation {P : Platform F} {registry : ListenerRegistry F} {header : Meta}
    {tag fromAgent toAgent : String} {allowed : Finset String}
    (h : routeTarget P registry header tag = .error (.peerViolation fromAgent toAgent allowed)) :
    ∃ target, registry.routing.resolve P.lowercase (header.toAddr.bind Address.organism) tag =
        .ok target ∧
      registry.routing.Refuses header.fromAddr.organismName target.name := by
  unfold routeTarget at h
  cases hr : registry.routing.resolve P.lowercase (header.toAddr.bind Address.organism) tag with
  | error e =>
    rw [hr] at h
    unfold RoutingTable.resolve at hr
    split at hr
    · cases hr
    · cases hr
      cases h
  | ok target =>
    refine ⟨target, rfl, ?_⟩
    by_contra hn
    rw [hr] at h
    simp only [(RoutingTable.enforcePeers_ok_iff _ _ _).mpr hn] at h
    cases h

theorem routeTarget_ok_iff (P : Platform F) (registry : ListenerRegistry F) (header : Meta)
    (tag : String) (target : ListenerEntry) :
    routeTarget P registry header tag = .ok target ↔
      registry.routing.resolve P.lowercase (header.toAddr.bind Address.organism) tag = .ok target ∧
        ¬ registry.routing.Refuses header.fromAddr.organismName target.name := by
  cases hres : registry.routing.resolve P.lowercase (header.toAddr.bind Address.organism) tag with
  | error e => simp [routeTarget, hres]
  | ok t =>
    rw [Except.ok.injEq]
    by_cases hr : registry.routing.Refuses header.fromAddr.organismName t.name
    · obtain ⟨allowed, he⟩ := routeTarget_of_refuses P hres hr
      rw [he]
      refine iff_of_false (by simp) ?_
      rintro ⟨rfl, hn⟩
      exact hn hr
    · unfold routeTarget
      simp only [hres, (RoutingTable.enforcePeers_ok_iff _ _ _).mpr hr]
      constructor
      · rintro ⟨⟩
        exact ⟨rfl, hr⟩
      · rintro ⟨rfl, _⟩
        rfl

/-! ## One message -/

inductive CallKind where
  | sync
  | async
  deriving DecidableEq

/-- What handling a message does besides changing the thread registry. `answer` and `call` put an
    envelope on the ingress as bytes: a reply or an acknowledgement, and the work of a call. -/
inductive Effect (F : Type) where
  | onClose (thread : String)
  | onOpen (caller callee thread : String) (kind : CallKind)
  | answer (env : Envelope F) (raw : Bytes)
  | call (env : Envelope F) (raw : Bytes)

structure DispatchCtx (F : Type) where
  registry : ListenerRegistry F
  middleware : List (Middleware F)

def toolAck : Payload F :=
  ⟨"ToolResponse", .record [("success", .boolean true), ("result", .text "ack")]⟩

def spawnAck (accepted : Bool) : Payload F :=
  ⟨"SpawnAck", .record [("accepted", .boolean accepted)]⟩

/-- The envelope that answers a message up its pruned chain. -/
def answerEnvelope (msg : RoutedMsg F) (prune : PruneResult) (payload : Payload F) : Envelope F :=
  ⟨⟨.flat msg.targetName, some (.flat prune.target), prune.threadId,
    msg.envelope.header.provenance⟩, payload⟩

/-- The envelope of a call that the handler of a message opens. -/
def callEnvelope (msg : RoutedMsg F) (toAddr : Address) (thread : String) (payload : Payload F) :
    Envelope F :=
  ⟨⟨.flat msg.targetName, some toAddr, thread, msg.envelope.header.provenance⟩, payload⟩

def spawnAckEnvelope (msg : RoutedMsg F) (toName : String) (accepted : Bool) : Envelope F :=
  ⟨⟨.flat toName, some (.flat msg.targetName), msg.envelope.header.thread,
    msg.envelope.header.provenance⟩, spawnAck accepted⟩

def emitAnswer (P : Platform F) (env : Envelope F) : Effect F := .answer env (encodeEnvelope P env)

def emitCall (P : Platform F) (env : Envelope F) : Effect F := .call env (encodeEnvelope P env)

/-- `Reply`, and `None` with the synthesized acknowledgement. -/
def answerUp (P : Platform F) (threads : ThreadRegistry) (fresh : String) (msg : RoutedMsg F)
    (payload : Payload F) : ThreadRegistry × List (Effect F) :=
  let thread := msg.envelope.header.thread
  match threads.pruneForResponse thread fresh with
  | (some prune, threads) =>
    (threads, [.onClose thread, emitAnswer P (answerEnvelope msg prune payload)])
  | (none, threads) => (threads, [.onClose thread])

def sendCall (P : Platform F) (registry : ListenerRegistry F) (threads : ThreadRegistry)
    (fresh : String) (msg : RoutedMsg F) (toAddr : Address) (payload : Payload F) :
    ThreadRegistry × List (Effect F) :=
  match registry.routing.enforcePeers msg.targetName toAddr.organismName with
  | .error _ => (threads, [])
  | .ok () =>
    let (newThread, threads) :=
      threads.extendChain msg.envelope.header.thread toAddr.organismName fresh
    (threads, [emitCall P (callEnvelope msg toAddr newThread payload),
      .onOpen msg.targetName toAddr.organismName newThread .sync])

def spawnCall (P : Platform F) (registry : ListenerRegistry F) (threads : ThreadRegistry)
    (fresh : String) (msg : RoutedMsg F) (toAddr : Address) (payload : Payload F) :
    ThreadRegistry × List (Effect F) :=
  let toName := toAddr.organismName
  match registry.routing.enforcePeers msg.targetName toName with
  | .error _ => (threads, [emitAnswer P (spawnAckEnvelope msg toName false)])
  | .ok () =>
    let (obligation, threads) := threads.extendChain msg.envelope.header.thread toName fresh
    (threads, [emitCall P (callEnvelope msg toAddr obligation payload),
      .onOpen msg.targetName toName obligation .async,
      emitAnswer P (spawnAckEnvelope msg toName true)])

def respond (P : Platform F) (registry : ListenerRegistry F) (threads : ThreadRegistry)
    (fresh : String) (msg : RoutedMsg F) :
    HandlerResponse F → ThreadRegistry × List (Effect F)
  | .none => answerUp P threads fresh msg toolAck
  | .reply payload => answerUp P threads fresh msg payload
  | .spawn toAddr payload => spawnCall P registry threads fresh msg toAddr payload
  | .send toAddr payload => sendCall P registry threads fresh msg toAddr payload

def handlerContext (msg : RoutedMsg F) : HandlerContext where
  threadId := msg.envelope.header.thread
  fromAddr := msg.envelope.header.fromAddr
  ownName := .flat msg.targetName
  provenance := msg.envelope.header.provenance

def dispatchMeta (msg : RoutedMsg F) : DispatchMeta where
  fromName := msg.envelope.header.fromAddr.organismName
  toName := msg.targetName
  threadId := msg.envelope.header.thread
  payloadTag := msg.payload.tag

/-- What the target's handler answers once the middleware has had its say; `none` when the target
    has no handler. -/
def handlerResult (ctx : DispatchCtx F) (msg : RoutedMsg F) :
    Option (Except PipelineError (HandlerResponse F)) :=
  (ctx.registry.getHandler msg.targetName).map fun handler =>
    dispatch ctx.middleware handler (dispatchMeta msg) msg.payload (handlerContext msg)

def processMessage (P : Platform F) (ctx : DispatchCtx F) (threads : ThreadRegistry)
    (fresh : String) (msg : RoutedMsg F) : ThreadRegistry × List (Effect F) :=
  match handlerResult ctx msg with
  | some (.ok response) => respond P ctx.registry threads fresh msg response
  | some (.error _) => (threads, [])
  | none => (threads, [])

end RustPipeline.Pipeline
