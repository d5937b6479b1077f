import RustPipeline.Interleaving

set_option autoImplicit false

/-!
# Stages over bounded channels

The four stage tasks and the workers between their await points: every send to a stage waits for
room, and the thread registry and the worker map are each behind a lock. A lock goes to any of the
tasks that wait for it.
-/
namespace RustPipeline.BoundedStages
open Text Wire Codec Handling Routing Registry Thread Federation Pipeline
open TransitionSystem Dispatch Interleaving

variable {F : Type}

/-! ## The state -/

/-- How many messages each channel holds; `mpsc::channel` refuses none at all. -/
structure Buffers where
  ingress : ℕ+
  parsed : ℕ+
  validated : ℕ+
  routed : ℕ+
  egress : ℕ+

inductive Task where
  | parse
  | validate
  | route
  | dispatch
  | worker (id : ℕ)
  deriving DecidableEq

/-- A stage that receives a message, turns it into another one and sends that on. -/
inductive Relay (M : Type) where
  | receiving
  | sending (msg : M)
  | stopped

/-- `federating` sends to the egress; `registering` is on its way into the thread registry. -/
inductive RoutePhase (F : Type) where
  | receiving
  | federating (env : Envelope F)
  | registering (msg : ValidatedMsg F) (targetName : String)
  | sending (msg : RoutedMsg F)
  | stopped

/-- `dispatching` while the dispatch stage runs. The pool is the dispatcher with its workers, and
    `progress` says how far a worker is with its message. A lock has at most one holder. -/
structure State (F : Type) where
  threads : ThreadRegistry
  ingress : List Bytes
  parsed : List (Envelope F)
  validated : List (ValidatedMsg F)
  routed : List (RoutedMsg F)
  egress : List (Envelope F)
  egressClosed : Bool
  parse : Relay (Envelope F)
  validate : Relay (ValidatedMsg F)
  route : RoutePhase F
  dispatching : Bool
  pool : Dispatch.State F
  progress : ℕ → Progress F
  threadsLock : Option Task
  workersLock : Option Task

namespace State

def boot (threads : ThreadRegistry) : State F where
  threads := threads
  ingress := []
  parsed := []
  validated := []
  routed := []
  egress := []
  egressClosed := false
  parse := .receiving
  validate := .receiving
  route := .receiving
  dispatching := true
  pool := .new
  progress _ := .idle
  threadsLock := none
  workersLock := none

def phase (s : State F) (id : ℕ) : Option (Phase F) := (s.pool.worker id).map Worker.phase

def setProgress (s : State F) (id : ℕ) (p : Progress F) : State F :=
  { s with progress := Function.update s.progress id p }

/-- A worker changes its phase and its queue. -/
def setWorker (s : State F) (id : ℕ) (w : Worker F) : State F :=
  { s with pool := s.pool.setWorker id w }

end State

/-- The worker has this message in hand and is this far with it. -/
def Handles (s : State F) (id : ℕ) (msg : RoutedMsg F) (p : Progress F) : Prop :=
  s.phase id = some (.processing msg) ∧ s.progress id = p

/-- What a worker does next changes the thread registry. -/
def Mutates : Progress F → Prop
  | .answering _ => True
  | .calling _ _ _ => True
  | _ => False

def WantsThreads (s : State F) : Task → Prop
  | .route => ∃ msg targetName, s.route = .registering msg targetName
  | .worker id => (∃ msg, s.phase id = some (.processing msg)) ∧ Mutates (s.progress id)
  | _ => False

def WantsWorkers (s : State F) : Task → Prop
  | .dispatch => s.pool.pending.isSome
  | .worker id => s.phase id = some .timedOut
  | _ => False

/-! ## The steps -/

section
variable (P : Platform F) (registry : ListenerRegistry F) (federation : Option PeerDirectory)

/-- `parse_stage` on what it receives. -/
def parsing (raw : Bytes) : Relay (Envelope F) :=
  match decodeEnvelope P raw with
  | .ok env => .sending env
  | .error _ => .receiving

/-- `validate_stage` on what it receives. -/
def validating (env : Envelope F) : Relay (ValidatedMsg F) :=
  match validateStage registry env with
  | .ok msg => .sending msg
  | .error _ => .receiving

/-- `route_stage` on what it receives, as far as the lock of the registry. -/
def routing (msg : ValidatedMsg F) : RoutePhase F :=
  if isRemote federation msg.envelope.header.toAddr then .federating msg.envelope
  else
    match routeTarget P registry msg.envelope.header msg.envelope.payload.tag with
    | .error _ => .receiving
    | .ok target => .registering msg target.name

/-- Up to the lock and behind it the stage decides as `routeStage` does. -/
theorem routing_iff (threads : ThreadRegistry) (msg : ValidatedMsg F) :
    (∀ env, routing P registry federation msg = .federating env ↔
      (routeStage P registry federation threads msg).2 = .egress env) ∧
    ∀ m targetName, routing P registry federation msg = .registering m targetName ↔ m = msg ∧
      routeStage P registry federation threads msg =
        (registerThread threads msg.envelope.header.thread
          msg.envelope.header.fromAddr.organismName targetName,
            .forwarded ⟨msg.envelope, msg.payload, targetName⟩) := by
  unfold routing routeStage
  dsimp only
  cases isRemote federation msg.envelope.header.toAddr with
  | true => simp
  | false =>
    cases routeTarget P registry msg.envelope.header msg.envelope.payload.tag with
    | error e => simp
    | ok target =>
      simp only [Bool.false_eq_true, if_false, RoutePhase.registering.injEq, Prod.mk.injEq,
        RouteOutcome.forwarded.injEq, RoutedMsg.mk.injEq, true_and, reduceCtorEq,
        implies_true, iff_self]
      intro m targetName
      constructor
      · rintro ⟨rfl, rfl⟩
        exact ⟨rfl, rfl, rfl⟩
      · rintro ⟨rfl, _, rfl⟩
        exact ⟨rfl, rfl⟩

/-- What an effect sends to the ingress. -/
def sent : Effect F → Option Bytes
  | .onClose _ => none
  | .onOpen _ _ _ _ => none
  | .answer _ raw => some raw
  | .call _ raw => some raw

/-- A step of a task, or something that happens to the stages from outside: a message comes in, the
    egress receiver takes one or goes away, the host shuts down, a worker's idle time runs out. -/
inductive Event where
  | inject
  | drain
  | close
  | shutdown
  | timeout
  | task (t : Task)

variable (b : Buffers)

/-- The parse and the validation stage. -/
inductive RelayStep : State F → Task → State F → Prop where
  | parseRecv (s : State F) (raw : Bytes) (rest : List Bytes) (hp : s.parse = .receiving)
      (hq : s.ingress = raw :: rest) :
      RelayStep s .parse { s with parse := parsing P raw, ingress := rest }
  | parseSend (s : State F) (env : Envelope F) (hp : s.parse = .sending env)
      (ho : s.validate ≠ .stopped) (hroom : s.parsed.length < b.parsed) :
      RelayStep s .parse { s with parse := .receiving, parsed := s.parsed ++ [env] }
  -- A send fails when the receiver is gone, and the stage ends.
  | parseBreak (s : State F) (env : Envelope F) (hp : s.parse = .sending env)
      (hc : s.validate = .stopped) :
      RelayStep s .parse { s with parse := .stopped, ingress := [] }
  | validateRecv (s : State F) (env : Envelope F) (rest : List (Envelope F))
      (hp : s.validate = .receiving) (hq : s.parsed = env :: rest) :
      RelayStep s .validate { s with validate := validating registry env, parsed := rest }
  | validateSend (s : State F) (msg : ValidatedMsg F) (hp : s.validate = .sending msg)
      (ho : s.route ≠ .stopped) (hroom : s.validated.length < b.validated) :
      RelayStep s .validate { s with validate := .receiving, validated := s.validated ++ [msg] }
  | validateBreak (s : State F) (msg : ValidatedMsg F) (hp : s.validate = .sending msg)
      (hc : s.route = .stopped) :
      RelayStep s .validate { s with validate := .stopped, parsed := [] }
  -- The parse stage is gone and its channel is empty.
  | validateEnd (s : State F) (hp : s.validate = .receiving) (hq : s.parsed = [])
      (hup : s.parse = .stopped) : RelayStep s .validate { s with validate := .stopped }

inductive RouteStep : State F → State F → Prop where
  | recv (s : State F) (msg : ValidatedMsg F) (rest : List (ValidatedMsg F))
      (hp : s.route = .receiving) (hq : s.validated = msg :: rest) :
      RouteStep s { s with route := routing P registry federation msg, validated := rest }
  | egress (s : State F) (env : Envelope F) (hp : s.route = .federating env)
      (ho : s.egressClosed = false) (hroom : s.egress.length < b.egress) :
      RouteStep s { s with route := .receiving, egress := s.egress ++ [env] }
  -- The send fails, which is logged.
  | egressClosed (s : State F) (env : Envelope F) (hp : s.route = .federating env)
      (hc : s.egressClosed = true) : RouteStep s { s with route := .receiving }
  | register (s : State F) (msg : ValidatedMsg F) (targetName : String)
      (hp : s.route = .registering msg targetName) (hl : s.threadsLock = some .route) :
      RouteStep s { s with
        threads := registerThread s.threads msg.envelope.header.thread
          msg.envelope.header.fromAddr.organismName targetName
        route := .sending ⟨msg.envelope, msg.payload, targetName⟩
        threadsLock := none }
  | send (s : State F) (msg : RoutedMsg F) (hp : s.route = .sending msg)
      (ho : s.dispatching = true) (hroom : s.routed.length < b.routed) :
      RouteStep s { s with route := .receiving, routed := s.routed ++ [msg] }
  | fail (s : State F) (msg : RoutedMsg F) (hp : s.route = .sending msg)
      (hc : s.dispatching = false) : RouteStep s { s with route := .stopped, validated := [] }
  | stop (s : State F) (hp : s.route = .receiving) (hq : s.validated = [])
      (hup : s.validate = .stopped) : RouteStep s { s with route := .stopped }

/-- The dispatcher sends to a worker while it has the lock of the map. -/
inductive DispatchStep : State F → State F → Prop where
  | recv (s : State F) (msg : RoutedMsg F) (rest : List (RoutedMsg F))
      (hd : s.dispatching = true) (hp : s.pool.pending = none) (hq : s.routed = msg :: rest) :
      DispatchStep s { s with
        pool := { s.pool with received := s.pool.received ++ [msg], pending := some msg }
        routed := rest }
  | enqueue (s : State F) (msg : RoutedMsg F) (id : ℕ) (w : Worker F)
      (hl : s.workersLock = some .dispatch) (hp : s.pool.pending = some msg)
      (hm : s.pool.map (key msg) = some id) (hw : s.pool.worker id = some w)
      (ho : w.phase ≠ .gone) :
      DispatchStep s { s with
        pool := (s.pool.setWorker id { w with queue := w.queue ++ [msg] }).accept msg
        workersLock := none }
  | spawn (s : State F) (msg : RoutedMsg F) (id : ℕ) (hl : s.workersLock = some .dispatch)
      (hp : s.pool.pending = some msg) (hm : s.pool.map (key msg) = none)
      (hf : s.pool.worker id = none) :
      DispatchStep s { s with
        pool := (({ s.pool with map := Function.update s.pool.map (key msg) (some id) }).setWorker
          id ⟨key msg, [msg], .waiting⟩).accept msg
        workersLock := none }
  | sendError (s : State F) (msg : RoutedMsg F) (id : ℕ) (w : Worker F)
      (hl : s.workersLock = some .dispatch) (hp : s.pool.pending = some msg)
      (hm : s.pool.map (key msg) = some id) (hw : s.pool.worker id = some w)
      (hc : w.phase = .gone) :
      DispatchStep s { s with pool := s.pool.remove (key msg), workersLock := none }
  | stop (s : State F) (hd : s.dispatching = true) (hp : s.pool.pending = none)
      (hq : s.routed = []) (hup : s.route = .stopped) :
      DispatchStep s { s with dispatching := false }

/-- `serial_worker` around the handling of its messages. -/
inductive LoopStep : State F → ℕ → State F → Prop where
  | recv (s : State F) (id : ℕ) (w : Worker F) (msg : RoutedMsg F) (rest : List (RoutedMsg F))
      (hw : s.pool.worker id = some w) (hp : w.phase = .waiting) (hq : w.queue = msg :: rest) :
      LoopStep s id ((s.setWorker id { w with queue := rest, phase := .processing msg }).setProgress
        id .handling)
  | recvNone (s : State F) (id : ℕ) (w : Worker F) (hw : s.pool.worker id = some w)
      (hp : w.phase = .waiting) (hq : w.queue = []) (hn : ∀ k, s.pool.map k ≠ some id) :
      LoopStep s id (s.setWorker id { w with phase := .leaving })
  -- The map is unlocked before the message is handled.
  | tryRecv (s : State F) (id : ℕ) (w : Worker F) (msg : RoutedMsg F) (rest : List (RoutedMsg F))
      (hl : s.workersLock = some (.worker id)) (hw : s.pool.worker id = some w)
      (hp : w.phase = .timedOut) (hq : w.queue = msg :: rest) :
      LoopStep s id { (s.setWorker id { w with queue := rest, phase := .processing msg }).setProgress
        id .handling with workersLock := none }
  | reap (s : State F) (id : ℕ) (w : Worker F) (hl : s.workersLock = some (.worker id))
      (hw : s.pool.worker id = some w) (hp : w.phase = .timedOut) (hq : w.queue = []) :
      LoopStep s id { s with
        pool := (s.pool.remove w.key).setWorker id { w with phase := .leaving }
        workersLock := none }
  | drop (s : State F) (id : ℕ) (w : Worker F) (hw : s.pool.worker id = some w)
      (hp : w.phase = .leaving) : LoopStep s id (s.setWorker id { w with phase := .gone })
  | processed (s : State F) (id : ℕ) (w : Worker F) (msg : RoutedMsg F)
      (call : Option (CallEdge F)) (hw : s.pool.worker id = some w)
      (hp : w.phase = .processing msg) (he : s.progress id = .emitting call []) :
      LoopStep s id (State.setProgress { s with
        pool := { s.pool.setWorker id { w with phase := .waiting } with
          finished := s.pool.finished ++ [msg] } } id .idle)

/-- `process_message`. The lock of the registry is released before anything is sent. -/
inductive HandlingStep : State F → ℕ → State F → Prop where
  | handled (s : State F) (id : ℕ) (msg : RoutedMsg F)
      (result : Option (Except PipelineError (HandlerResponse F)))
      (h : Handles s id msg .handling)
      (hh : result.isSome = (registry.getHandler msg.targetName).isSome) :
      HandlingStep s id (s.setProgress id (afterHandler P registry msg result))
  | prune (s : State F) (id : ℕ) (fresh : String) (msg : RoutedMsg F) (payload : Payload F)
      (h : Handles s id msg (.answering payload)) (hl : s.threadsLock = some (.worker id)) :
      HandlingStep s id { s.setProgress id (.emitting none (answerEffects P msg payload
          (s.threads.pruneForResponse (key msg) fresh).1)) with
        threads := (s.threads.pruneForResponse (key msg) fresh).2
        threadsLock := none }
  | extend (s : State F) (id : ℕ) (fresh : String) (msg : RoutedMsg F) (kind : CallKind)
      (toAddr : Address) (payload : Payload F)
      (h : Handles s id msg (.calling kind toAddr payload))
      (hl : s.threadsLock = some (.worker id)) :
      HandlingStep s id { s.setProgress id (.emitting none (callEffects P msg kind toAddr payload
          (s.threads.extendChain (key msg) toAddr.organismName fresh).1)) with
        threads := (s.threads.extendChain (key msg) toAddr.organismName fresh).2
        threadsLock := none }
  | observe (s : State F) (id : ℕ) (msg : RoutedMsg F) (call : Option (CallEdge F))
      (effect : Effect F) (rest : List (Effect F))
      (h : Handles s id msg (.emitting call (effect :: rest))) (hn : sent effect = none) :
      HandlingStep s id (s.setProgress id (.emitting call rest))
  | reinject (s : State F) (id : ℕ) (msg : RoutedMsg F) (call : Option (CallEdge F))
      (effect : Effect F) (rest : List (Effect F)) (raw : Bytes)
      (h : Handles s id msg (.emitting call (effect :: rest))) (hr : sent effect = some raw)
      (ho : s.parse ≠ .stopped) (hroom : s.ingress.length < b.ingress) :
      HandlingStep s id { s.setProgress id (.emitting call rest) with
        ingress := s.ingress ++ [raw] }
  -- The ingress is closed, and the failed send is ignored.
  | reinjectClosed (s : State F) (id : ℕ) (msg : RoutedMsg F) (call : Option (CallEdge F))
      (effect : Effect F) (rest : List (Effect F)) (raw : Bytes)
      (h : Handles s id msg (.emitting call (effect :: rest))) (hr : sent effect = some raw)
      (hc : s.parse = .stopped) :
      HandlingStep s id (s.setProgress id (.emitting call rest))

/-- What happens to the stages. A stage that shuts down drops what its channel holds. -/
inductive OutsideStep : State F → Event → State F → Prop where
  | inject (s : State F) (raw : Bytes) (ho : s.parse ≠ .stopped)
      (hroom : s.ingress.length < b.ingress) :
      OutsideStep s .inject { s with ingress := s.ingress ++ [raw] }
  | drain (s : State F) (env : Envelope F) (rest : List (Envelope F)) (hq : s.egress = env :: rest) :
      OutsideStep s .drain { s with egress := rest }
  | close (s : State F) : OutsideStep s .close { s with egressClosed := true, egress := [] }
  | shutdown (s : State F) (hp : s.parse = .receiving) :
      OutsideStep s .shutdown { s with parse := .stopped, ingress := [] }
  | timeout (s : State F) (id : ℕ) (w : Worker F) (hw : s.pool.worker id = some w)
      (hp : w.phase = .waiting) :
      OutsideStep s .timeout (s.setWorker id { w with phase := .timedOut })

inductive Step : State F → Event → State F → Prop where
  | relay {s t : State F} {u : Task} (h : RelayStep P registry b s u t) : Step s (.task u) t
  | route {s t : State F} (h : RouteStep P registry federation b s t) : Step s (.task .route) t
  | dispatch {s t : State F} (h : DispatchStep s t) : Step s (.task .dispatch) t
  | loop {s t : State F} {id : ℕ} (h : LoopStep s id t) : Step s (.task (.worker id)) t
  | handling {s t : State F} {id : ℕ} (h : HandlingStep P registry b s id t) :
      Step s (.task (.worker id)) t
  | lockThreads (s : State F) (u : Task) (hw : WantsThreads s u) (hl : s.threadsLock = none) :
      Step s (.task u) { s with threadsLock := some u }
  | lockWorkers (s : State F) (u : Task) (hw : WantsWorkers s u) (hl : s.workersLock = none) :
      Step s (.task u) { s with workersLock := some u }
  | outside {s t : State F} {e : Event} (h : OutsideStep b s e t) : Step s e t

def stages : System (State F) where
  init s := ∃ threads, s = .boot threads
  step s t := ∃ e, Step P registry federation b s e t

end

end RustPipeline.BoundedStages
