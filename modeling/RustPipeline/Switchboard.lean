import RustPipeline.Codec

set_option autoImplicit false

/-!
# The switchboard

Resolve the destination to a delivery thread, stamp it, and inject the encoded envelope.
-/
namespace RustPipeline.Switchboard
open Text Wire Codec

variable {F : Type}

inductive SwitchboardError where
  | noDestination
  | materialize (m : String)

/-- `Materializer::resolve` at one call. -/
abbrev Materializer := Address → Except String String

/-- The bytes that `route` puts into the pipeline's ingress. -/
def route (P : Platform F) (resolve : Materializer) (env : Envelope F) :
    Except SwitchboardError Bytes :=
  match env.header.toAddr with
  | none => .error .noDestination
  | some toAddr =>
    match resolve toAddr with
    | .error m => .error (.materialize m)
    | .ok threadId =>
      .ok (encodeEnvelope P { env with header := { env.header with thread := threadId } })

def SwitchboardError.display : SwitchboardError → String
  | .noDestination => "envelope has no destination address"
  | .materialize m => "materialization failed: " ++ m

/-- `LocalDelivery` of the switchboard. -/
def deliver (P : Platform F) (resolve : Materializer) (env : Envelope F) : Except String Unit :=
  match route P resolve env with
  | .ok _ => .ok ()
  | .error e => .error e.display

end RustPipeline.Switchboard
