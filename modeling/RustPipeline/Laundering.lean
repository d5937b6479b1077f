import RustPipeline.Network
import RustPipeline.PlainPlatform

set_option autoImplicit false

/-!
# Origins through a third node

What a node delivers from a peer was put on the peer's ingress by the peer itself, as long as no node
receives what the route stage would send on to another peer.
-/
namespace RustPipeline.Laundering
open Text Wire Codec CodecImage Handling Routing Registry Thread Federation Validation Pipeline
open Ingress Sealing Network TransitionSystem PlainPlatform

universe u

variable {ι : Type u} [DecidableEq ι] {F : Type} (P : Platform F) (cipher : Cipher)

/-- The node named in front of the sender put the envelope on its own ingress and sealed it. -/
def Emitted (net : ι → Node F) (s : State ι F) (env : Envelope F) : Prop :=
  ∀ name, env.header.fromAddr.node = some name →
    ∃ e ∈ s.sealed, (net e.node).name = name ∧ e.source = .here ∧
      ∃ opened, decodeEnvelope P (encodeEnvelope P e.call.envelope) = .ok opened ∧
        env.header.fromAddr = rerootOrigin opened.header.fromAddr name ∧
        env.header.thread = opened.header.thread ∧ env.payload = opened.payload

/-- No node seals what it has received before a handler has processed it, and what is delivered was
    emitted by the node that it names. -/
structure Unlaundered (net : ι → Node F) (s : State ι F) : Prop where
  sealed : ∀ e ∈ s.sealed, e.source = .here
  delivered : ∀ d ∈ s.delivered, Emitted P net s d.env

/-- What the switchboard injects for an opened envelope. -/
def inbound (n : Node F) (opened : Envelope F) (sender : String) (toAddr : Address)
    (thread : String) : Envelope F :=
  let env := stamp n.directory opened sender
  { env with header := { env.header with
      toAddr := some (stripNode n.name toAddr)
      thread := thread } }

/-- As it reads back, the item is not a valid one whose destination both the route stage and the
    federation server take for a peer's. -/
def Near (n : Node F) (raw : Bytes) : Prop :=
  ∀ env, decodeEnvelope P raw = .ok env →
    validatePayloadValue env.payload.value (n.registry.schemas.inForce env.payload.tag) = .ok () →
      isRemote (some n.egress) env.header.toAddr = true → ∃ fault, n.peerFor env = .error fault

/-- A frame that the receiving node opens and authorizes is near where the switchboard resolves its
    stripped destination. -/
def ReceivesLocal (net : ι → Node F) : State ι F → Event ι F → Prop
  | _, .receive i frame => ∀ opened sender toAddr thread,
      openFrame P cipher.toAead frame (net i).directory = .ok (opened, sender) →
        opened.header.toAddr = some toAddr →
          (net i).authorizer (rerootOrigin opened.header.fromAddr sender) toAddr = .ok () →
            (net i).resolve (stripNode (net i).name toAddr) = .ok thread →
              Near P (net i) (encodeEnvelope P (inbound (net i) opened sender toAddr thread))
  | _, _ => True

/-! ## The invariant -/

structure NodeInv (n : Node F) (s : NodeState F) : Prop where
  egress : ∀ out ∈ s.egress, out.source = .inbound → ∃ fault, n.peerFor out.env = .error fault
  queue : ∀ item ∈ s.queue, item.source = .inbound → Near P n item.raw

structure Inv (net : ι → Node F) (s : State ι F) : Prop where
  nodes : ∀ i, NodeInv P (net i) (s.node i)
  sealed : ∀ e ∈ s.sealed, e.source = .here ∧ e.call.sender = (net e.node).name
  delivered : ∀ d ∈ s.delivered, Emitted P net s d.env

variable {P cipher} {net : ι → Node F}

theorem NodeInv.enqueue {n : Node F} {s : NodeState F} (h : NodeInv P n s) {items : List Item}
    (hi : ∀ item ∈ items, item.source = .inbound → Near P n item.raw) :
    NodeInv P n { s with queue := s.queue ++ items } where
  egress := h.egress
  queue item hm := by
    rcases List.mem_append.mp hm with hm | hm
    · exact h.queue item hm
    · exact hi item hm

theorem emitted_here {effects : List (Effect F)} {item : Item}
    (h : item ∈ effects.flatMap emitted) : item.source = .here := by
  obtain ⟨effect, _, hm⟩ := List.mem_flatMap.mp h
  cases effect with
  | onClose thread => cases hm
  | onOpen caller callee thread kind => cases hm
  | answer env raw => rw [List.mem_singleton.mp hm]
  | call env raw => rw [List.mem_singleton.mp hm]

theorem NodeInv.handle {n : Node F} {s : NodeState F} (h : NodeInv P n s) (i : ℕ) (fresh : String)
    (response : HandlerResponse F) : NodeInv P n (s.handle P n i fresh response) := by
  unfold NodeState.handle
  split
  · exact h
  · refine ⟨h.egress, ?_⟩
    intro item hm hs
    rcases List.mem_append.mp hm with hm | hm
    · exact h.queue item hm hs
    · rw [emitted_here hm] at hs
      cases hs

/-- What the route stage sends on is the node's own, or has no peer. -/
theorem NodeInv.route {n : Node F} {s : NodeState F} (h : NodeInv P n s) :
    NodeInv P n (s.route P n) := by
  unfold NodeState.route
  split
  · exact h
  · next item rest hq =>
    have hrest : ∀ i ∈ rest, i.source = .inbound → Near P n i.raw := by
      intro i hi
      exact h.queue i (hq ▸ List.mem_cons_of_mem item hi)
    split
    · exact ⟨h.egress, hrest⟩
    · next threads env he =>
      refine ⟨?_, hrest⟩
      intro out hm hs
      rcases List.mem_append.mp hm with hm | hm
      · exact h.egress out hm hs
      · rw [List.mem_singleton.mp hm] at hs ⊢
        have hnear := h.queue item (hq ▸ List.mem_cons_self) hs
        obtain ⟨hd, hv, hremote⟩ := (ingress_egress_iff P n.registry (some n.egress) s.threads
          item.raw env).mp (by rw [he])
        exact hnear env hd hv hremote
    · exact ⟨h.egress, hrest⟩

omit [DecidableEq ι] in
theorem Emitted.mono {s t : State ι F} {env : Envelope F} (h : Emitted P net s env)
    (hs : ∀ e ∈ s.sealed, e ∈ t.sealed) : Emitted P net t env := by
  intro name hn
  obtain ⟨e, he, rest⟩ := h name hn
  exact ⟨e, hs e he, rest⟩

/-- One node changes, and nothing is sealed or delivered. -/
theorem Inv.setNode {s : State ι F} (h : Inv P net s) {i : ι} {n : NodeState F}
    (hn : NodeInv P (net i) n) : Inv P net (s.setNode i n) where
  nodes j := by
    change NodeInv P (net j) (Function.update s.node i n j)
    by_cases hj : j = i
    · subst hj
      rw [Function.update_self]
      exact hn
    · rw [Function.update_of_ne hj]
      exact h.nodes j
  sealed := h.sealed
  delivered := h.delivered

theorem Inv.send {s : State ι F} (h : Inv P net s) (i : ι) (nonce : Option Nonce) :
    Inv P net (s.send net i nonce) := by
  unfold State.send
  split
  · exact h
  · next out rest ho =>
    have hnode : NodeInv P (net i) { s.node i with egress := rest } :=
      ⟨fun o hm => (h.nodes i).egress o (ho ▸ List.mem_cons_of_mem out hm), (h.nodes i).queue⟩
    have hset := h.setNode hnode
    dsimp only
    split
    · next peer hp =>
      have hout : out.source = .here := by
        cases hs : out.source with
        | here => rfl
        | inbound =>
          obtain ⟨fault, hf⟩ := (h.nodes i).egress out (ho ▸ List.mem_cons_self) hs
          rw [hp] at hf
          cases hf
      refine ⟨hset.nodes, ?_, ?_⟩
      · intro e he
        rcases List.mem_append.mp he with he | he
        · exact h.sealed e he
        · rw [List.mem_singleton.mp he]
          exact ⟨hout, rfl⟩
      · intro d hd
        exact (h.delivered d hd).mono fun e he => List.mem_append_left _ he
    · exact hset

omit [DecidableEq ι] in
/-- What `receive` delivers names the peer that sealed it. -/
theorem emitted_of_receive {s : State ι F} (h : Inv P net s) {i : ι} {frame : Bytes}
    {env : Envelope F} (hg : Genuine P cipher s.history frame)
    (hd : .deliver env ∈ (Federation.receive P ((net i).server P cipher) frame).1) :
    Emitted P net s env := by
  obtain ⟨opened, sender, hopen, hfrom, _, hthread, _, hpayload⟩ := deliver_mem_receive hd
  obtain ⟨peer, _, c, hc, _, hs, _, hdecode⟩ := openFrame_genuine hg hopen
  obtain ⟨e, he, rfl⟩ := List.mem_map.mp hc
  obtain ⟨hsource, hname⟩ := h.sealed e he
  intro name hn
  have hsame : sender = name := by
    rw [hfrom] at hn
    exact Option.some_inj.mp hn
  subst hsame
  exact ⟨e, he, hname.symm.trans hs, hsource, opened, hdecode, hfrom, hthread, hpayload⟩

theorem mem_deliveries {calls : List (Call F)} {env : Envelope F} :
    env ∈ deliveries calls ↔ .deliver env ∈ calls := by
  unfold deliveries
  rw [List.mem_filterMap]
  constructor
  · intro h
    obtain ⟨call, hm, hc⟩ := h
    cases call with
    | authorize fromAddr toAddr => cases hc
    | deliver e =>
      rw [← Option.some_inj.mp hc]
      exact hm
  · intro h
    exact ⟨_, h, rfl⟩

omit [DecidableEq ι] in
theorem near_of_deliver {s : State ι F} {i : ι} {frame : Bytes} {env : Envelope F} {raw : Bytes}
    (hc : ReceivesLocal P cipher net s (.receive i frame))
    (hd : .deliver env ∈ (Federation.receive P ((net i).server P cipher) frame).1)
    (hr : Switchboard.route P (net i).resolve env = .ok raw) : Near P (net i) raw := by
  obtain ⟨opened, sender, hopen, rfl, hauth⟩ := delivered_eq hd
  unfold Switchboard.route at hr
  cases hto : opened.header.toAddr with
  | none => simp [hto] at hr
  | some toAddr =>
    simp only [hto, Option.map_some] at hr
    cases hres : (net i).resolve (stripNode (net i).name toAddr) with
    | error m => simp [Node.server, hres] at hr
    | ok thread =>
      simp only [Node.server, hres, Except.ok.injEq] at hr
      rw [← hr]
      exact hc opened sender toAddr thread hopen hto (hauth toAddr hto) hres

theorem Inv.receive {s : State ι F} (h : Inv P net s) {i : ι} {frame : Bytes}
    (hg : Genuine P cipher s.history frame)
    (hc : ReceivesLocal P cipher net s (.receive i frame)) :
    Inv P net (s.receive P cipher net i frame) := by
  have hitems : ∀ item ∈ (deliveries (Federation.receive P ((net i).server P cipher)
      frame).1).flatMap (injection P (net i)),
        item.source = .inbound → Near P (net i) item.raw := by
    intro item hm _
    obtain ⟨env, he, hm⟩ := List.mem_flatMap.mp hm
    unfold injection at hm
    split at hm
    · next raw hr =>
      rw [List.mem_singleton.mp hm]
      exact near_of_deliver hc (mem_deliveries.mp he) hr
    · cases hm
  have hset := h.setNode ((h.nodes i).enqueue hitems)
  refine ⟨hset.nodes, h.sealed, ?_⟩
  intro d hd
  rcases List.mem_append.mp hd with hd | hd
  · exact h.delivered d hd
  · obtain ⟨env, he, rfl⟩ := List.mem_map.mp hd
    exact emitted_of_receive h hg (mem_deliveries.mp he)

theorem Inv.perform {s : State ι F} {e : Event ι F} (h : Inv P net s) (hg : Unforged P cipher s e)
    (hc : ReceivesLocal P cipher net s e) : Inv P net (s.perform P cipher net e) := by
  cases e with
  | inject i raw =>
    refine h.setNode ((h.nodes i).enqueue ?_)
    intro item hm hs
    rw [List.mem_singleton.mp hm] at hs
    cases hs
  | route i => exact h.setNode (h.nodes i).route
  | handle i msg fresh response => exact h.setNode ((h.nodes i).handle msg fresh response)
  | send i nonce => exact h.send i nonce
  | receive i frame => exact h.receive hg hc

theorem inv_of_reachable {s : State ι F}
    (hs : Reachable (runs P cipher net (ReceivesLocal P cipher net)) s) : Inv P net s := by
  refine hs.invariant ?_ ?_
  · intro s h
    obtain ⟨threads, rfl⟩ := h
    exact ⟨fun i => ⟨(fun _ hm => nomatch hm), (fun _ hm => nomatch hm)⟩,
      (fun _ hm => nomatch hm), (fun _ hm => nomatch hm)⟩
  · intro s t h hst
    obtain ⟨e, hg, hc, rfl⟩ := hst
    exact h.perform hg hc

/-- In every run in which no node receives what its own route stage and federation server take for a
    peer's, no node seals what it received, and what a node delivers was emitted by the peer that it
    names. -/
theorem unlaundered {s : State ι F}
    (hs : Reachable (runs P cipher net (ReceivesLocal P cipher net)) s) : Unlaundered P net s where
  sealed e he := ((inv_of_reachable hs).sealed e he).1
  delivered := (inv_of_reachable hs).delivered

/-! ## A frame for a third node -/

/-- The cipher that appends a tag of zeros and opens what the calls have sealed. -/
def replay (P : Platform F) (calls : List (SealCall F)) : Cipher where
  encrypt _ _ plaintext _ := some (plaintext ++ List.replicate 16 0)
  decrypt key nonce ct aad := (calls.find? fun c => decide (c.key = key ∧
    c.nonce.map Subtype.val = some nonce ∧ encodeHeader c.sender = aad ∧
      encodeEnvelope P c.envelope ++ List.replicate 16 0 = ct)).map fun c =>
        encodeEnvelope P c.envelope

/-- A frame is genuine when the calls that share its header are in the history. -/
theorem replay_genuine {calls history : List (SealCall F)} {frame : Bytes}
    (h : ∀ c ∈ calls, encodeHeader c.sender <+: frame → c ∈ history) :
    Genuine P (replay P calls) history frame := by
  intro key nonce ct aad plaintext hframe hdec
  obtain ⟨c, hfind, hplain⟩ := Option.map_eq_some_iff.mp hdec
  have hc := List.find?_some hfind
  simp only [decide_eq_true_eq] at hc
  obtain ⟨hkey, hnonce, haad, hct⟩ := hc
  refine ⟨c, h c (List.mem_of_find?_eq_some hfind) ?_, hkey, hnonce, hplain, haad, ?_⟩
  · rw [haad, hframe]
    exact List.prefix_append _ _
  · rw [← hplain]
    exact congrArg some hct

theorem replay_decrypt {calls : List (SealCall F)} {c : SealCall F} {n : Nonce} (hc : c ∈ calls)
    (hn : c.nonce = some n) : (replay P calls).decrypt c.key n.val
      (encodeEnvelope P c.envelope ++ List.replicate 16 0) (encodeHeader c.sender) =
        some (encodeEnvelope P c.envelope) := by
  change (calls.find? _).map _ = _
  cases hfind : calls.find? fun d => decide (d.key = c.key ∧
      d.nonce.map Subtype.val = some n.val ∧ encodeHeader d.sender = encodeHeader c.sender ∧
        encodeEnvelope P d.envelope ++ List.replicate 16 0 =
          encodeEnvelope P c.envelope ++ List.replicate 16 0) with
  | none =>
    have hnone := List.find?_eq_none.mp hfind c hc
    simp [hn] at hnone
  | some d =>
    have hd := List.find?_some hfind
    simp only [decide_eq_true_eq] at hd
    rw [Option.map_some, List.append_cancel_right hd.2.2.2]

inductive Place where
  | ringhub
  | agentos
  | delta
  deriving DecidableEq

def hubKey : PeerKey := FederationGate.ringhub.key

def deltaKey : PeerKey := Vector.replicate 32 9

/-- A node without listeners, whose route stage and federation server know the same peers. -/
def station (name : String) (directory : PeerDirectory) : Node UInt32 where
  name := name
  directory := directory
  authorizer _ _ := .ok ()
  resolve _ := .ok "d1"
  registry := .new
  egress := directory

/-- `agentos` peers with `ringhub` and with `delta`, which do not know each other. -/
def chain : Place → Node UInt32
  | .ringhub => station "ringhub" (PeerDirectory.new.register ⟨"agentos", hubKey, .empty⟩)
  | .agentos => station "agentos" ((PeerDirectory.new.register ⟨"ringhub", hubKey, .empty⟩).register
      ⟨"delta", deltaKey, .empty⟩)
  | .delta => station "delta" (PeerDirectory.new.register ⟨"agentos", deltaKey, .empty⟩)

def order (fromAddr toAddr : List String) (thread : String) : Envelope UInt32 :=
  ⟨⟨⟨fromAddr.map fun n => ⟨n, none⟩⟩, some ⟨toAddr.map fun n => ⟨n, none⟩⟩, thread, .empty⟩,
    ⟨"Order", .nil⟩⟩

/-- What `bob` at `ringhub` sends to an address behind `agentos`. -/
def sent (rest : List String) : Envelope UInt32 := order ["bob"] ("agentos" :: rest) "t1"

/-- What `agentos` hands to its switchboard. -/
def handed (rest : List String) : Envelope UInt32 := order ["ringhub", "bob"] rest "t1"

def stamped (rest : List String) : Envelope UInt32 := order ["ringhub", "bob"] rest "d1"

/-- What `delta` hands to its switchboard. -/
def laundered : Envelope UInt32 := order ["agentos", "bob"] ["x"] "d1"

def hubCall (rest : List String) : SealCall UInt32 :=
  ⟨sent rest, "ringhub", hubKey, some hubNonce⟩

def relayCall : SealCall UInt32 := ⟨stamped ["delta", "x"], "agentos", deltaKey, some hubNonce⟩

/-- The cipher of the runs in which `ringhub` sends to the address. -/
def crypto (rest : List String) : Cipher := replay plain [hubCall rest, relayCall]

def frameOf (c : SealCall UInt32) : Bytes :=
  encodeHeader c.sender ++ (hubNonce.val ++
    (encodeEnvelope plain c.envelope ++ List.replicate 16 0))

theorem decode_sent_far : decodeEnvelope plain (encodeEnvelope plain (sent ["delta", "x"])) =
    .ok (sent ["delta", "x"]) :=
  decode_of_image rfl

theorem decode_sent_near : decodeEnvelope plain (encodeEnvelope plain (sent ["x"])) =
    .ok (sent ["x"]) :=
  decode_of_image rfl

theorem decode_stamped_far :
    decodeEnvelope plain (encodeEnvelope plain (stamped ["delta", "x"])) =
      .ok (stamped ["delta", "x"]) :=
  decode_of_image rfl

theorem decode_stamped_near : decodeEnvelope plain (encodeEnvelope plain (stamped ["x"])) =
    .ok (stamped ["x"]) :=
  decode_of_image rfl

theorem hub_genuine (rest : List String) :
    Genuine plain (crypto rest) [hubCall rest] (frameOf (hubCall rest)) := by
  refine replay_genuine ?_
  intro c hc hp
  rcases List.mem_cons.mp hc with rfl | hc
  · exact List.mem_cons_self
  · rw [List.mem_singleton.mp hc] at hp
    have hheader : encodeHeader "ringhub" <+: frameOf (hubCall rest) := List.prefix_append _ _
    have hsame := (List.prefix_of_prefix_length_le hp hheader (by decide)).eq_of_length (by decide)
    have hne : "agentos" ≠ "ringhub" := by decide
    exact absurd (encodeHeader_inj.mp hsame) hne

theorem relay_genuine (rest : List String) :
    Genuine plain (crypto rest) [hubCall rest, relayCall] (frameOf relayCall) :=
  replay_genuine fun _ hc _ => hc

theorem hub_opens {rest : List String}
    (hd : decodeEnvelope plain (encodeEnvelope plain (sent rest)) = .ok (sent rest)) :
    openFrame plain ((chain .agentos).server plain (crypto rest)).aead (frameOf (hubCall rest))
      ((chain .agentos).server plain (crypto rest)).directory = .ok (sent rest, "ringhub") := by
  have hdec : (crypto rest).decrypt hubKey hubNonce.val (encodeEnvelope plain (sent rest) ++
      List.replicate 16 0) (encodeHeader "ringhub") = some (encodeEnvelope plain (sent rest)) :=
    replay_decrypt (c := hubCall rest) List.mem_cons_self rfl
  have hpeer : ((chain .agentos).server plain (crypto rest)).directory.get "ringhub" =
      some ⟨"ringhub", hubKey, .empty⟩ := rfl
  have hframe : frameOf (hubCall rest) = encodeHeader "ringhub" ++ (hubNonce.val ++
      (encodeEnvelope plain (sent rest) ++ List.replicate 16 0)) := rfl
  rw [hframe]
  exact openFrame_of_decrypt plain (by decide) hpeer hubNonce.property hdec hd

theorem relay_opens (rest : List String) :
    openFrame plain ((chain .delta).server plain (crypto rest)).aead (frameOf relayCall)
      ((chain .delta).server plain (crypto rest)).directory =
        .ok (stamped ["delta", "x"], "agentos") := by
  have hdec : (crypto rest).decrypt deltaKey hubNonce.val
      (encodeEnvelope plain (stamped ["delta", "x"]) ++ List.replicate 16 0)
        (encodeHeader "agentos") = some (encodeEnvelope plain (stamped ["delta", "x"])) :=
    replay_decrypt (c := relayCall) (List.mem_cons_of_mem _ List.mem_cons_self) rfl
  have hpeer : ((chain .delta).server plain (crypto rest)).directory.get "agentos" =
      some ⟨"agentos", deltaKey, .empty⟩ := rfl
  have hframe : frameOf relayCall = encodeHeader "agentos" ++ (hubNonce.val ++
      (encodeEnvelope plain (stamped ["delta", "x"]) ++ List.replicate 16 0)) := rfl
  rw [hframe]
  exact openFrame_of_decrypt plain (by decide) hpeer hubNonce.property hdec decode_stamped_far

theorem hub_received_far : deliveries (Federation.receive plain
    ((chain .agentos).server plain (crypto ["delta", "x"])) (frameOf (hubCall ["delta", "x"]))).1 =
      [handed ["delta", "x"]] := by
  rw [receive_of_open (hub_opens decode_sent_far)]
  rfl

theorem hub_received_near : deliveries (Federation.receive plain
    ((chain .agentos).server plain (crypto ["x"])) (frameOf (hubCall ["x"]))).1 =
      [handed ["x"]] := by
  rw [receive_of_open (hub_opens decode_sent_near)]
  rfl

theorem relay_received : deliveries (Federation.receive plain
    ((chain .delta).server plain (crypto ["delta", "x"])) (frameOf relayCall)).1 = [laundered] := by
  rw [receive_of_open (relay_opens ["delta", "x"])]
  rfl

theorem handed_route (rest : List String) :
    Switchboard.route plain (chain .agentos).resolve (handed rest) =
      .ok (encodeEnvelope plain (stamped rest)) := rfl

/-- A node without listeners and schemas sends on what is for a peer. -/
theorem station_egress {directory : PeerDirectory} {env : Envelope UInt32}
    (hd : decodeEnvelope plain (encodeEnvelope plain env) = .ok env)
    (hv : validatePayloadValue env.payload.value
      ((ListenerRegistry.new (F := UInt32)).schemas.inForce env.payload.tag) = .ok ())
    (hr : isRemote (some directory) env.header.toAddr = true) :
    ingress plain .new (some directory) .new (encodeEnvelope plain env) =
      (.new, .routed (.egress env)) := by
  have he := (ingress_egress_iff plain .new (some directory) .new (encodeEnvelope plain env)
    env).mpr ⟨hd, hv, hr⟩
  refine Prod.ext (ingress_threads plain ?_) he
  intro routed hf
  rw [he] at hf
  cases hf

/-! ### The hub's part of the runs -/

def idle : NodeState UInt32 := ⟨.new, [], [], []⟩

def hubSends (rest : List String) : State Place UInt32 :=
  (State.boot fun _ => .new).setNode .ringhub
    { idle with queue := [⟨encodeEnvelope plain (sent rest), .here⟩] }

def hubRoutes (rest : List String) : State Place UInt32 :=
  (hubSends rest).setNode .ringhub { idle with egress := [⟨sent rest, .here⟩] }

def hubSeals (rest : List String) : State Place UInt32 :=
  { (hubRoutes rest).setNode .ringhub idle with sealed := [⟨.ringhub, .here, hubCall rest⟩] }

def agentosReceives (rest : List String) : State Place UInt32 :=
  { (hubSeals rest).setNode .agentos
      { idle with queue := [⟨encodeEnvelope plain (stamped rest), .inbound⟩] } with
    delivered := [⟨.agentos, handed rest⟩] }

theorem agentosReceives_reachable {rest : List String}
    {condition : State Place UInt32 → Event Place UInt32 → Prop}
    (hd : decodeEnvelope plain (encodeEnvelope plain (sent rest)) = .ok (sent rest))
    (hr : deliveries (Federation.receive plain ((chain .agentos).server plain (crypto rest))
      (frameOf (hubCall rest))).1 = [handed rest])
    (hinject : ∀ s raw, condition s (.inject .ringhub raw))
    (hroute : ∀ s, condition s (.route .ringhub))
    (hsend : ∀ s nonce, condition s (.send .ringhub nonce))
    (hreceive : condition (hubSeals rest) (.receive .agentos (frameOf (hubCall rest)))) :
    Reachable (runs plain (crypto rest) chain condition) (agentosReceives rest) := by
  have h0 : Reachable (runs plain (crypto rest) chain condition) (State.boot fun _ => .new) :=
    .start ⟨fun _ => .new, rfl⟩
  have h1 : Reachable (runs plain (crypto rest) chain condition) (hubSends rest) :=
    h0.next ⟨.inject .ringhub (encodeEnvelope plain (sent rest)), trivial, hinject _ _, rfl⟩
  have hrouted : ((hubSends rest).node .ringhub).route plain (chain .ringhub) =
      { idle with egress := [⟨sent rest, .here⟩] } :=
    NodeState.route_of_egress rfl (station_egress hd rfl rfl)
  have h2 : Reachable (runs plain (crypto rest) chain condition) (hubRoutes rest) := by
    refine h1.next ⟨.route .ringhub, trivial, hroute _, ?_⟩
    unfold State.perform
    dsimp only
    rw [hrouted]
    rfl
  have hpeer : (chain .ringhub).peerFor (sent rest) = .ok ⟨"agentos", hubKey, .empty⟩ := rfl
  have hout : ((hubRoutes rest).node .ringhub).egress = [⟨sent rest, .here⟩] := rfl
  have h3 : Reachable (runs plain (crypto rest) chain condition) (hubSeals rest) :=
    h2.next ⟨.send .ringhub (some hubNonce), trivial, hsend _ _,
      (State.send_of_peer (some hubNonce) hout hpeer).symm⟩
  refine h3.next ⟨.receive .agentos (frameOf (hubCall rest)), hub_genuine rest, hreceive, ?_⟩
  unfold State.perform State.receive
  dsimp only
  rw [hr, List.flatMap_singleton, injection, handed_route]
  rfl

/-! ### The relay -/

def agentosRoutes : State Place UInt32 :=
  (agentosReceives ["delta", "x"]).setNode .agentos
    { idle with egress := [⟨stamped ["delta", "x"], .inbound⟩] }

def agentosSeals : State Place UInt32 :=
  { agentosRoutes.setNode .agentos idle with
    sealed := [⟨.ringhub, .here, hubCall ["delta", "x"]⟩, ⟨.agentos, .inbound, relayCall⟩] }

def deltaReceives : State Place UInt32 :=
  { agentosSeals.setNode .delta { idle with queue := [⟨encodeEnvelope plain laundered, .inbound⟩] }
    with delivered := [⟨.agentos, handed ["delta", "x"]⟩, ⟨.delta, laundered⟩] }

theorem laundered_route : Switchboard.route plain (chain .delta).resolve laundered =
    .ok (encodeEnvelope plain laundered) := rfl

theorem deltaReceives_reachable :
    Reachable (runs plain (crypto ["delta", "x"]) chain fun _ _ => True) deltaReceives := by
  have h0 : Reachable (runs plain (crypto ["delta", "x"]) chain fun _ _ => True)
      (agentosReceives ["delta", "x"]) :=
    agentosReceives_reachable decode_sent_far hub_received_far (fun _ _ => trivial)
      (fun _ => trivial) (fun _ _ => trivial) trivial
  have hrouted : ((agentosReceives ["delta", "x"]).node .agentos).route plain (chain .agentos) =
      { idle with egress := [⟨stamped ["delta", "x"], .inbound⟩] } :=
    NodeState.route_of_egress rfl (station_egress decode_stamped_far rfl rfl)
  have h1 : Reachable (runs plain (crypto ["delta", "x"]) chain fun _ _ => True)
      agentosRoutes := by
    refine h0.next ⟨.route .agentos, trivial, trivial, ?_⟩
    unfold State.perform
    dsimp only
    rw [hrouted]
    rfl
  have hpeer : (chain .agentos).peerFor (stamped ["delta", "x"]) =
      .ok ⟨"delta", deltaKey, .empty⟩ := rfl
  have hout : (agentosRoutes.node .agentos).egress = [⟨stamped ["delta", "x"], .inbound⟩] := rfl
  have h2 : Reachable (runs plain (crypto ["delta", "x"]) chain fun _ _ => True) agentosSeals :=
    h1.next ⟨.send .agentos (some hubNonce), trivial, trivial,
      (State.send_of_peer (some hubNonce) hout hpeer).symm⟩
  refine h2.next ⟨.receive .delta (frameOf relayCall), relay_genuine _, trivial, ?_⟩
  unfold State.perform State.receive
  dsimp only
  rw [relay_received, List.flatMap_singleton, injection, laundered_route]
  rfl

/-- `ringhub` sends `agentos.delta.x`; `agentos` strips its name, finds `delta` in front and seals
    the envelope as its own, and `delta` delivers it as from `agentos.bob`. -/
theorem laundered_at_delta :
    Reachable (runs plain (crypto ["delta", "x"]) chain fun _ _ => True) deltaReceives ∧
      ⟨.agentos, .inbound, relayCall⟩ ∈ deltaReceives.sealed ∧
      ⟨.delta, laundered⟩ ∈ deltaReceives.delivered ∧
      laundered.header.fromAddr.node = some "agentos" ∧
      ¬ Emitted plain chain deltaReceives laundered ∧ ¬ Unlaundered plain chain deltaReceives := by
  refine ⟨deltaReceives_reachable, ?_, ?_, rfl, ?_, ?_⟩
  · exact List.mem_cons_of_mem _ List.mem_cons_self
  · exact List.mem_cons_of_mem _ List.mem_cons_self
  · intro h
    obtain ⟨e, he, hname, hsource, _⟩ := h "agentos" rfl
    rcases List.mem_cons.mp he with rfl | he
    · have hne : (chain .ringhub).name ≠ "agentos" := by decide
      exact hne hname
    · rw [List.mem_singleton.mp he] at hsource
      cases hsource
  · intro h
    have hsource : Source.inbound = .here :=
      h.sealed ⟨.agentos, .inbound, relayCall⟩ (List.mem_cons_of_mem _ List.mem_cons_self)
    cases hsource

/-- The run in which `ringhub` sends `agentos.x` meets the condition, and what `agentos` delivers
    was emitted at `ringhub`. -/
theorem unlaundered_near : Unlaundered plain chain (agentosReceives ["x"]) := by
  have hs : Reachable (runs plain (crypto ["x"]) chain (ReceivesLocal plain (crypto ["x"]) chain))
      (agentosReceives ["x"]) := by
    refine agentosReceives_reachable decode_sent_near hub_received_near (fun _ _ => trivial)
      (fun _ => trivial) (fun _ _ => trivial) ?_
    intro opened sender toAddr thread hopen hto _ hres env henv _ hremote
    obtain ⟨hsent, hsender⟩ := Prod.mk.inj (Except.ok.inj
      ((hub_opens decode_sent_near).symm.trans hopen))
    rw [← hsent] at hto
    have hinbound : inbound (chain .agentos) (sent ["x"]) "ringhub"
        ⟨[⟨"agentos", none⟩, ⟨"x", none⟩]⟩ "d1" = stamped ["x"] := rfl
    have hthread : "d1" = thread := Except.ok.inj hres
    have htarget : (⟨[⟨"agentos", none⟩, ⟨"x", none⟩]⟩ : Address) = toAddr := Option.some_inj.mp hto
    rw [← hsent, ← hsender, ← htarget, ← hthread, hinbound, decode_stamped_near] at henv
    rw [← Except.ok.inj henv] at hremote
    cases hremote
  exact unlaundered hs

end RustPipeline.Laundering
