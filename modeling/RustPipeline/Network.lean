import RustPipeline.Foundation.TransitionSystem
import RustPipeline.Ingress
import RustPipeline.Sealing
import RustPipeline.Switchboard

set_option autoImplicit false

/-!
# Networks of nodes

Nodes with a pipeline, a switchboard and a federation server each, and the frames that they seal and
receive. Whoever carries the frames may drop, repeat and reorder them, and may send any bytes; only
what was sealed opens.
-/
namespace RustPipeline.Network
open Text Wire Codec Handling Routing Registry Thread Federation Pipeline Ingress Sealing
open TransitionSystem

universe u

variable {ι : Type u} [DecidableEq ι] {F : Type}

/-! ## Nodes -/

structure Node (F : Type) where
  name : String
  directory : PeerDirectory
  authorizer : Address → Address → Except String Unit
  resolve : Switchboard.Materializer
  registry : ListenerRegistry F
  egress : PeerDirectory

/-- Put on the ingress on the node, by a handler or an injection, or by its federation server. -/
inductive Source where
  | here
  | inbound
  deriving DecidableEq

structure Item where
  raw : Bytes
  source : Source

structure Outgoing (F : Type) where
  env : Envelope F
  source : Source

structure NodeState (F : Type) where
  threads : ThreadRegistry
  queue : List Item
  routed : List (RoutedMsg F)
  egress : List (Outgoing F)

variable (P : Platform F) (cipher : Cipher)

/-- The federation server, which delivers to the switchboard. -/
def Node.server (n : Node F) : FederationServer F where
  node := n.name
  directory := n.directory
  aead := cipher.toAead
  authorizer := n.authorizer
  deliver := Switchboard.deliver P n.resolve

/-- The peer that `send` seals an envelope for. -/
def Node.peerFor (n : Node F) (env : Envelope F) : Except FederationError Peer :=
  match env.header.toAddr.bind Address.node with
  | none => .error .noDestination
  | some node =>
    match n.directory.get node with
    | some peer => .ok peer
    | none => .error (.notRemote node)

/-- The parse, validation and route stages on the first item of the ingress. -/
def NodeState.route (n : Node F) (s : NodeState F) : NodeState F :=
  match s.queue with
  | [] => s
  | item :: rest =>
    match ingress P n.registry (some n.egress) s.threads item.raw with
    | (threads, .routed (.forwarded msg)) =>
      { s with threads := threads, queue := rest, routed := s.routed ++ [msg] }
    | (threads, .routed (.egress env)) =>
      { s with threads := threads, queue := rest, egress := s.egress ++ [⟨env, item.source⟩] }
    | (threads, _) => { s with threads := threads, queue := rest }

def emitted : Effect F → List Item
  | .answer _ raw => [⟨raw, .here⟩]
  | .call _ raw => [⟨raw, .here⟩]
  | _ => []

/-- A handler answers one of the routed messages. -/
def NodeState.handle (n : Node F) (s : NodeState F) (i : ℕ) (fresh : String)
    (response : HandlerResponse F) : NodeState F :=
  match s.routed[i]? with
  | none => s
  | some msg =>
    let (threads, effects) := respond P n.registry s.threads fresh msg response
    { s with
      threads := threads
      routed := s.routed.eraseIdx i
      queue := s.queue ++ effects.flatMap emitted }

/-- The envelopes that `receive` hands to the switchboard. -/
def deliveries (calls : List (Call F)) : List (Envelope F) :=
  calls.filterMap fun
    | .deliver env => some env
    | .authorize _ _ => none

/-- What the switchboard injects for a delivered envelope. -/
def injection (n : Node F) (env : Envelope F) : List Item :=
  match Switchboard.route P n.resolve env with
  | .ok raw => [⟨raw, .inbound⟩]
  | .error _ => []

/-! ## Runs -/

/-- A call of `seal`, with the node that made it and the source of its envelope. -/
structure Sealed (ι : Type u) (F : Type) where
  node : ι
  source : Source
  call : SealCall F

structure Delivery (ι : Type u) (F : Type) where
  node : ι
  env : Envelope F

/-- What was sealed and what was delivered is recorded. -/
structure State (ι : Type u) (F : Type) where
  node : ι → NodeState F
  sealed : List (Sealed ι F)
  delivered : List (Delivery ι F)

inductive Event (ι : Type u) (F : Type) where
  | inject (i : ι) (raw : Bytes)
  | route (i : ι)
  | handle (i : ι) (msg : ℕ) (fresh : String) (response : HandlerResponse F)
  | send (i : ι) (nonce : Option Nonce)
  | receive (i : ι) (frame : Bytes)

namespace State

def boot (threads : ι → ThreadRegistry) : State ι F := ⟨fun i => ⟨threads i, [], [], []⟩, [], []⟩

def setNode (s : State ι F) (i : ι) (n : NodeState F) : State ι F :=
  { s with node := Function.update s.node i n }

def history (s : State ι F) : List (SealCall F) := s.sealed.map Sealed.call

/-- The egress loop takes an envelope and seals it for its peer. -/
def send (net : ι → Node F) (s : State ι F) (i : ι) (nonce : Option Nonce) : State ι F :=
  match (s.node i).egress with
  | [] => s
  | out :: rest =>
    let t := s.setNode i { s.node i with egress := rest }
    match (net i).peerFor out.env with
    | .ok peer =>
      { t with sealed := s.sealed ++ [⟨i, out.source, ⟨out.env, (net i).name, peer.key, nonce⟩⟩] }
    | .error _ => t

def receive (net : ι → Node F) (s : State ι F) (i : ι) (frame : Bytes) : State ι F :=
  let envs := deliveries (Federation.receive P ((net i).server P cipher) frame).1
  let n := s.node i
  { s.setNode i { n with queue := n.queue ++ envs.flatMap (injection P (net i)) } with
    delivered := s.delivered ++ envs.map (Delivery.mk i) }

def perform (net : ι → Node F) (s : State ι F) : Event ι F → State ι F
  | .inject i raw =>
    s.setNode i { s.node i with queue := (s.node i).queue ++ [⟨raw, .here⟩] }
  | .route i => s.setNode i ((s.node i).route P (net i))
  | .handle i msg fresh response =>
    s.setNode i ((s.node i).handle P (net i) msg fresh response)
  | .send i nonce => s.send net i nonce
  | .receive i frame => s.receive P cipher net i frame

end State

/-- No frame is forged: what opens in a received frame was sealed before. -/
def Unforged (s : State ι F) : Event ι F → Prop
  | .receive _ frame => Genuine P cipher s.history frame
  | _ => True

/-- The runs without forged frames all of whose steps meet a condition on the state before the
    step. -/
def runs (net : ι → Node F) (condition : State ι F → Event ι F → Prop) : System (State ι F) where
  init s := ∃ threads, s = .boot threads
  step := fun s t => ∃ e, Unforged P cipher s e ∧ condition s e ∧ t = s.perform P cipher net e

/-! ## Steps on the way to a peer -/

variable {P}

theorem NodeState.route_of_egress {n : Node F} {s : NodeState F} {raw : Bytes} {source : Source}
    {rest : List Item} {threads : ThreadRegistry} {env : Envelope F}
    (hq : s.queue = ⟨raw, source⟩ :: rest)
    (hi : ingress P n.registry (some n.egress) s.threads raw = (threads, .routed (.egress env))) :
    s.route P n =
      { s with threads := threads, queue := rest, egress := s.egress ++ [⟨env, source⟩] } := by
  unfold NodeState.route
  rw [hq]
  dsimp only
  rw [hi]

theorem State.send_of_peer {net : ι → Node F} {s : State ι F} {i : ι} {env : Envelope F}
    {source : Source} {rest : List (Outgoing F)} {peer : Peer} (nonce : Option Nonce)
    (ho : (s.node i).egress = ⟨env, source⟩ :: rest) (hp : (net i).peerFor env = .ok peer) :
    s.send net i nonce =
      { s.setNode i { s.node i with egress := rest } with
        sealed := s.sealed ++ [⟨i, source, ⟨env, (net i).name, peer.key, nonce⟩⟩] } := by
  unfold State.send
  rw [ho]
  dsimp only
  rw [hp]

end RustPipeline.Network
