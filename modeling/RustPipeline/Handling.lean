import RustPipeline.Error

set_option autoImplicit false

/-!
# Handlers and middleware

What a handler receives and may answer, and the two hooks of a middleware. One call of a handler
or hook is a function of what it is given.
-/
namespace RustPipeline.Handling
open Wire

structure ValidatedPayload (F : Type) where
  tag : String
  value : PayloadValue F

structure HandlerContext where
  threadId : String
  fromAddr : Address
  ownName : Address
  provenance : Provenance

inductive HandlerResponse (F : Type) where
  | send (toAddr : Address) (payload : Payload F)
  | spawn (toAddr : Address) (payload : Payload F)
  | reply (payload : Payload F)
  | none

/-- `Handler::handle`. -/
abbrev Handler (F : Type) :=
  ValidatedPayload F → HandlerContext → Except PipelineError (HandlerResponse F)

structure DispatchMeta where
  fromName : String
  toName : String
  threadId : String
  payloadTag : String

inductive PreDispatchVerdict (F : Type) where
  | continue
  | transform (payload : ValidatedPayload F)
  | shortCircuit (response : HandlerResponse F)

inductive PostDispatchVerdict (F : Type) where
  | passThrough (response : HandlerResponse F)
  | replace (response : HandlerResponse F)

structure Middleware (F : Type) where
  preDispatch : DispatchMeta → ValidatedPayload F → Except PipelineError (PreDispatchVerdict F)
  postDispatch : DispatchMeta → ValidatedPayload F → HandlerResponse F →
    Except PipelineError (PostDispatchVerdict F)

variable {F : Type}

/-- The pre-dispatch chain in registration order: the payload the handler would get, and the
    result that stands in for it when a hook short-circuits or fails. -/
def preChain (m : DispatchMeta) : List (Middleware F) → ValidatedPayload F →
    ValidatedPayload F × Option (Except PipelineError (HandlerResponse F))
  | [], payload => (payload, Option.none)
  | mw :: rest, payload =>
    match mw.preDispatch m payload with
    | .ok .continue => preChain m rest payload
    | .ok (.transform payload) => preChain m rest payload
    | .ok (.shortCircuit response) => (payload, some (.ok response))
    | .error e => (payload, some (.error e))

/-- The post-dispatch chain over an already reversed list; a failing hook ends it. -/
def postChain (m : DispatchMeta) (payload : ValidatedPayload F) : List (Middleware F) →
    HandlerResponse F → Except PipelineError (HandlerResponse F)
  | [], response => .ok response
  | mw :: rest, response =>
    match mw.postDispatch m payload response with
    | .ok (.passThrough response) => postChain m payload rest response
    | .ok (.replace response) => postChain m payload rest response
    | .error _ => .error (.handler "middleware post-dispatch error")

/-- Middleware around one call of a handler. -/
def dispatch (middleware : List (Middleware F)) (handler : Handler F) (m : DispatchMeta)
    (payload : ValidatedPayload F) (ctx : HandlerContext) :
    Except PipelineError (HandlerResponse F) :=
  let (payload, shortCircuited) := preChain m middleware payload
  match shortCircuited.getD (handler payload ctx) with
  | .ok response => postChain m payload middleware.reverse response
  | .error e => .error e

end RustPipeline.Handling
