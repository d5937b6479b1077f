import RustPipeline.StageFlow
import RustPipeline.TwoNodes

set_option autoImplicit false

/-!
# From one pipeline to the other node

What comes in for a remote node leaves by the egress in the order in which it was parsed, and
`run_egress` hands each envelope on in one frame. Behind the frames the other node delivers in that
order, none twice.
-/
namespace RustPipeline.EgressLink
open Text Wire Codec Handling Routing Registry Thread Federation Pipeline Ingress Sealing TwoNodes
open TransitionSystem Dispatch Interleaving BoundedStages StageInvariants Observations StageFlow
open PlainPlatform NoDeadlock

variable {F : Type}

/-! ## The way to the egress -/

/-- What the route stage has on its way to the egress. -/
def federated : RoutePhase F → Option (Envelope F)
  | .federating env => some env
  | _ => none

/-- What is taken off the egress in a step. -/
def drained (s : BoundedStages.State F) : BoundedStages.Event → List (Envelope F)
  | .drain => s.egress.head?.toList
  | _ => []

/-- What goes in at the parse stage and out at the egress. -/
def crossed (s : BoundedStages.State F) (e : BoundedStages.Event) : List (Bytes ⊕ Envelope F) :=
  (taken s e).map .inl ++ (drained s e).map .inr

section
variable (P : Platform F) (registry : ListenerRegistry F) (federation : Option PeerDirectory)

def leave (msg : ValidatedMsg F) : Option (Envelope F) :=
  federated (routing P registry federation msg)

/-- The envelope that comes in, if it is valid and for a remote node. -/
def exits (raw : Bytes) : Option (Envelope F) := ofRaw P registry (leave P registry federation) raw

/-- What is between the parse stage and the egress receiver and will reach it, oldest first. -/
def outgoing (s : BoundedStages.State F) : List (Envelope F) :=
  s.egress ++ (federated s.route).toList ++ upstream registry (leave P registry federation) s

end

variable {P : Platform F} {registry : ListenerRegistry F} {federation : Option PeerDirectory}
  {b : Buffers}

theorem leave_eq_some_iff (msg : ValidatedMsg F) (env : Envelope F) :
    leave P registry federation msg = some env ↔
      isRemote federation msg.envelope.header.toAddr = true ∧ msg.envelope = env := by
  unfold leave routing
  cases isRemote federation msg.envelope.header.toAddr with
  | true => simp [federated]
  | false =>
    cases routeTarget P registry msg.envelope.header msg.envelope.payload.tag with
    | error e => simp [federated]
    | ok target => simp [federated]

/-- What exits is what the atomic ingress hands to the egress. -/
theorem exits_eq_some_iff (threads : ThreadRegistry) (raw : Bytes) (env : Envelope F) :
    exits P registry federation raw = some env ↔
      (ingress P registry federation threads raw).2 = .routed (.egress env) := by
  rw [ingress_routed_iff]
  unfold exits ofRaw parsing
  cases decodeEnvelope P raw with
  | error fault => simp [held]
  | ok e =>
    change ofParsed registry (leave P registry federation) e = some env ↔ _
    unfold ofParsed validating
    cases hv : validateStage registry e with
    | error e => simp [held, hv]
    | ok msg =>
      change leave P registry federation msg = some env ↔ _
      rw [leave_eq_some_iff]
      simp [hv, routeStage_egress_iff]

/-! ## One step -/

theorem outgoing_route {s t : BoundedStages.State F} (h : Stops s) (ho : t.egressClosed = false)
    (hs : RouteStep P registry federation b s t) :
    outgoing P registry federation t = outgoing P registry federation s := by
  cases hs with
  | recv msg rest hp hq =>
    unfold outgoing
    rw [upstream_recv (leave P registry federation) hq (routing P registry federation msg), hp]
    simp [federated, leave]
  | egress env hp hopen hroom => simp [outgoing, upstream, hp, federated]
  | egressClosed env hp hc =>
    rw [ho] at hc
    cases hc
  | register msg name hp hl => simp [outgoing, upstream, hp, federated]
  | send msg hp hopen hroom => simp [outgoing, upstream, hp, federated]
  | fail msg hp hc =>
    have hstopped := (h.dispatch hc).1
    rw [hp] at hstopped
    cases hstopped
  | stop hp hq hup => simp [outgoing, upstream, hp, federated]

theorem outgoing_relay {s t : BoundedStages.State F} {u : Task} (h : Stops s)
    (hs : RelayStep P registry b s u t) : outgoing P registry federation t =
      outgoing P registry federation s ++
        (taken s (.task u)).filterMap (exits P registry federation) := by
  have hu := upstream_relay (leave P registry federation) h hs
  have hsame : t.egress = s.egress ∧ t.route = s.route := by
    cases hs <;> exact ⟨rfl, rfl⟩
  obtain ⟨hegress, hroute⟩ := hsame
  unfold outgoing
  rw [hegress, hroute, hu, List.append_assoc, List.append_assoc, List.append_assoc]
  rfl

/-- Nothing leaves but at the front, and nothing enters but at the parse stage. -/
theorem outgoing_step {s t : BoundedStages.State F} {e : BoundedStages.Event} (h : Stops s)
    (ho : t.egressClosed = false) (hs : BoundedStages.Step P registry federation b s e t) :
    drained s e ++ outgoing P registry federation t = outgoing P registry federation s ++
      (taken s e).filterMap (exits P registry federation) := by
  cases hs with
  | relay hs => exact outgoing_relay h hs
  | route hs => exact (outgoing_route h ho hs).trans (List.append_nil _).symm
  | dispatch hs => cases hs <;> exact (List.append_nil _).symm
  | loop hs => cases hs <;> exact (List.append_nil _).symm
  | handling hs => cases hs <;> exact (List.append_nil _).symm
  | lockThreads u hw hl =>
    cases u with
    | parse => exact hw.elim
    | validate => exact hw.elim
    | route => exact (List.append_nil _).symm
    | dispatch => exact hw.elim
    | worker id => exact (List.append_nil _).symm
  | lockWorkers u hw hl =>
    cases u with
    | parse => exact hw.elim
    | validate => exact hw.elim
    | route => exact hw.elim
    | dispatch => exact (List.append_nil _).symm
    | worker id => exact (List.append_nil _).symm
  | outside hs =>
    cases hs with
    | inject raw hopen hroom => exact (List.append_nil _).symm
    | drain env rest hq => simp [drained, outgoing, upstream, taken, hq]
    | close => cases ho
    | shutdown hp => simp [drained, outgoing, upstream, taken, hp, held]
    | timeout id w hw hp => exact (List.append_nil _).symm

theorem open_step {s t : BoundedStages.State F} {e : BoundedStages.Event}
    (hs : BoundedStages.Step P registry federation b s e t) (ho : t.egressClosed = false) :
    s.egressClosed = false := by
  cases hs with
  | relay hs => cases hs <;> exact ho
  | route hs => cases hs <;> exact ho
  | dispatch hs => cases hs <;> exact ho
  | loop hs => cases hs <;> exact ho
  | handling hs => cases hs <;> exact ho
  | lockThreads u hw hl => exact ho
  | lockWorkers u hw hl => exact ho
  | outside hs =>
    cases hs with
    | inject raw hopen hroom => exact ho
    | drain env rest hq => exact ho
    | close => cases ho
    | shutdown hp => exact ho
    | timeout id w hw hp => exact ho

/-! ## Runs -/

variable (P registry federation b) in
/-- Runs of the stages, with what goes in at the parse stage and out at the egress in them. -/
abbrev Crossed : BoundedStages.State F → List (Bytes ⊕ Envelope F) → BoundedStages.State F → Prop :=
  Run (BoundedStages.Step P registry federation b) crossed

def parsedIn (events : List (Bytes ⊕ Envelope F)) : List Bytes := events.filterMap Sum.getLeft?

def drainedIn (events : List (Bytes ⊕ Envelope F)) : List (Envelope F) :=
  events.filterMap Sum.getRight?

theorem parsedIn_crossed (s : BoundedStages.State F) (e : BoundedStages.Event) :
    parsedIn (crossed s e) = taken s e := by
  simp [parsedIn, crossed, List.filterMap_map, Function.comp_def]

theorem drainedIn_crossed (s : BoundedStages.State F) (e : BoundedStages.Event) :
    drainedIn (crossed s e) = drained s e := by
  simp [drainedIn, crossed, List.filterMap_map, Function.comp_def]

theorem outgoing_of_run {s t : BoundedStages.State F} {events : List (Bytes ⊕ Envelope F)}
    (hs : Stops s) (ho : t.egressClosed = false)
    (h : Crossed P registry federation b s events t) :
    drainedIn events ++ outgoing P registry federation t = outgoing P registry federation s ++
      (parsedIn events).filterMap (exits P registry federation) := by
  have hstep : ∀ u e v, Stops u → v.egressClosed = false →
      BoundedStages.Step P registry federation b u e v →
        (crossed u e).filterMap Sum.getRight? ++ outgoing P registry federation v =
          outgoing P registry federation u ++
            (crossed u e).filterMap fun x => x.getLeft?.bind (exits P registry federation) := by
    intro u e v hu hv he
    have hout := outgoing_step hu hv he
    rw [← drainedIn_crossed, ← parsedIn_crossed, parsedIn, List.filterMap_filterMap] at hout
    exact hout
  rw [parsedIn, List.filterMap_filterMap]
  exact h.queued (fun _ _ _ hi he => hi.step he) (fun _ _ _ he hc => open_step he hc) hstep hs ho

/-- What comes in for a remote node leaves by the egress once and in order: what was taken off it
    and what is on its way are the valid envelopes for remote nodes that were parsed. -/
theorem egress_in_order {threads : ThreadRegistry} {t : BoundedStages.State F}
    {events : List (Bytes ⊕ Envelope F)} (ho : t.egressClosed = false)
    (h : Crossed P registry federation b (.boot threads) events t) :
    drainedIn events ++ outgoing P registry federation t =
      (parsedIn events).filterMap (exits P registry federation) :=
  outgoing_of_run (stops_boot threads) ho h

def dinnerRaw : Bytes := encodeEnvelope plain dinner

def dinnerMsg : ValidatedMsg UInt32 := ⟨dinner, ⟨"Order", .nil⟩⟩

/-- The concierge asks for the bill too. -/
def bill : Envelope UInt32 := { dinner with payload := ⟨"Bill", .nil⟩ }

def billRaw : Bytes := encodeEnvelope plain bill

def billMsg : ValidatedMsg UInt32 := ⟨bill, ⟨"Bill", .nil⟩⟩

theorem decode_bill : decodeEnvelope plain (encodeEnvelope plain bill) = .ok bill :=
  decode_of_image rfl

/-- The bill comes in while the dinner is at the parse stage, and each leaves by the egress. -/
theorem dinner_run : Crossed plain .new (some hub.directory) narrow (.boot .new)
    [.inl dinnerRaw, .inl billRaw, .inr dinner, .inr bill] (.boot .new) := by
  have hdinner : parsing plain dinnerRaw = .sending dinner := parsing_of_ok decode_dinner
  have hbill : parsing plain billRaw = .sending bill := parsing_of_ok decode_bill
  have h0 : Crossed plain .new (some hub.directory) narrow (.boot .new) [] (.boot .new) := .refl _
  have h1 := h0.tail (.outside (.inject _ dinnerRaw nofun (by decide)))
  have h2 := h1.tail (.relay (.parseRecv _ dinnerRaw [] rfl rfl))
  rw [hdinner] at h2
  have h3 := h2.tail (.outside (.inject _ billRaw nofun (by decide)))
  have h4 := h3.tail (.relay (.parseSend _ dinner rfl nofun (by decide)))
  have h5 := h4.tail (.relay (.parseRecv _ billRaw [] rfl rfl))
  rw [hbill] at h5
  have h6 := h5.tail (.relay (.validateRecv _ dinner [] rfl rfl))
  have h7 := h6.tail (.relay (.parseSend _ bill rfl nofun (by decide)))
  have h8 := h7.tail (.relay (.validateSend _ dinnerMsg rfl nofun (by decide)))
  have h9 := h8.tail (.route (.recv _ dinnerMsg [] rfl rfl))
  have h10 := h9.tail (.relay (.validateRecv _ bill [] rfl rfl))
  have h11 := h10.tail (.route (.egress _ dinner rfl rfl (by decide)))
  have h12 := h11.tail (.relay (.validateSend _ billMsg rfl nofun (by decide)))
  have h13 := h12.tail (.outside (.drain _ dinner [] rfl))
  have h14 := h13.tail (.route (.recv _ billMsg [] rfl rfl))
  have h15 := h14.tail (.route (.egress _ bill rfl rfl (by decide)))
  exact h15.tail (.outside (.drain _ bill [] rfl))

theorem egress_in_order_dinner :
    drainedIn [.inl dinnerRaw, .inl billRaw, .inr dinner, .inr bill] ++
        outgoing plain .new (some hub.directory) (.boot .new) =
      (parsedIn [.inl dinnerRaw, .inl billRaw, .inr dinner, .inr bill]).filterMap
        (exits plain .new (some hub.directory)) :=
  egress_in_order rfl dinner_run

/-! ## The frames -/

section
variable (P : Platform F) (cipher : Cipher)

/-- `run_egress`: the frames that are handed to the transport, each with the node it is for. What
    cannot be sealed is logged and skipped. -/
def runEgress (A : FederationServer F) (sends : List (Option Nonce × Envelope F)) :
    List (String × Bytes) :=
  sends.filterMap fun x => (x.2.header.toAddr.bind Address.node).bind fun node =>
    (send P cipher A x.1 x.2).toOption.map fun frame => (node, frame)

end

def framesTo (node : String) (frames : List (String × Bytes)) : List Bytes :=
  frames.filterMap fun x => if x.1 = node then some x.2 else none

variable (P) in
/-- What the other node calls when the envelope arrives from the sender, if it reads back. -/
def arrival (B : FederationServer F) (sender : String) (env : Envelope F) : List (Call F) :=
  match decodeEnvelope P (encodeEnvelope P env) with
  | .ok image => (crossEdge B (stamp B.directory image sender)).1
  | .error _ => []

def isFor (node : String) (env : Envelope F) : Bool :=
  env.header.toAddr.bind Address.node = some node

variable {cipher : Cipher}

theorem receive_of_sent {A B : FederationServer F} {a b : Peer} (hp : Peered A B a b)
    (haead : B.aead = cipher.toAead) (hc : Correct cipher) (hlen : (utf8 A.node).length < 2 ^ 16)
    {env : Envelope F} {nonce : Option Nonce} {frame : Bytes}
    (hnode : env.header.toAddr.bind Address.node = some B.node)
    (hs : send P cipher A nonce env = .ok frame) :
    (receive P B frame).1 = arrival P B A.node env := by
  rw [send_of_peer nonce hnode hp.outbound] at hs
  obtain ⟨n, ct, _, hct, rfl⟩ := (sealFrame_ok_iff P cipher nonce env A.node b.key frame).mp hs
  have hdec : B.aead.decrypt a.key n.val ct (encodeHeader A.node) =
      some (encodeEnvelope P env) := by
    rw [haead, hp.sameKey]
    exact hc _ _ _ _ _ hct
  unfold arrival receive
  cases hread : decodeEnvelope P (encodeEnvelope P env) with
  | ok image =>
    rw [openFrame_of_decrypt P hlen hp.inbound n.property hdec hread]
  | error fault =>
    have hbody : ¬ (n.val ++ ct).length < n.val.length := by
      rw [List.length_append]
      omega
    have hopen : openFrame P B.aead (encodeHeader A.node ++ (n.val ++ ct)) B.directory =
        .error (.codec fault) := by
      unfold openFrame
      rw [parseHeader_encodeHeader hlen]
      simp only [hp.inbound, List.drop_left, hbody, ↓reduceIte, ← n.property, List.take_left, hdec,
        hread]
    rw [hopen]

/-- The envelopes of the calls that could be sealed. -/
def sealedOf (P : Platform F) (cipher : Cipher) (A : FederationServer F)
    (sends : List (Option Nonce × Envelope F)) : List (Envelope F) :=
  (sends.filter fun x => (send P cipher A x.1 x.2).isOk).map Prod.snd

/-- The frames for one node arrive there one by one as the envelopes they were sealed from. -/
theorem receive_framesTo {A B : FederationServer F} {a b : Peer} (hp : Peered A B a b)
    (haead : B.aead = cipher.toAead) (hc : Correct cipher) (hlen : (utf8 A.node).length < 2 ^ 16)
    (sends : List (Option Nonce × Envelope F)) :
    (framesTo B.node (runEgress P cipher A sends)).map (fun frame => (receive P B frame).1) =
      ((sealedOf P cipher A sends).filter (isFor B.node)).map (arrival P B A.node) := by
  induction sends with
  | nil => rfl
  | cons x sends ih =>
    have hcons : framesTo B.node (runEgress P cipher A (x :: sends)) =
        framesTo B.node ((x.2.header.toAddr.bind Address.node).bind fun node =>
          (send P cipher A x.1 x.2).toOption.map fun frame => (node, frame)).toList ++
            framesTo B.node (runEgress P cipher A sends) := by
      rw [runEgress, filterMap_cons_toList, framesTo, List.filterMap_append]
      rfl
    rw [hcons, List.map_append, ih]
    unfold sealedOf
    cases hs : send P cipher A x.1 x.2 with
    | error e =>
      rw [List.filter_cons_of_neg (by rw [hs]; exact Bool.false_ne_true)]
      cases x.2.header.toAddr.bind Address.node <;> rfl
    | ok frame =>
      rw [List.filter_cons_of_pos (by rw [hs]; rfl), List.map_cons]
      cases hnode : x.2.header.toAddr.bind Address.node with
      | none =>
        have hfor : isFor B.node x.2 = false := by
          rw [isFor, hnode]
          rfl
        rw [List.filter_cons_of_neg (by rw [hfor]; exact Bool.false_ne_true)]
        rfl
      | some node =>
        by_cases hB : node = B.node
        · subst hB
          have hfor : isFor B.node x.2 = true := by
            rw [isFor, hnode]
            exact decide_eq_true rfl
          rw [List.filter_cons_of_pos hfor, List.map_cons,
            ← receive_of_sent hp haead hc hlen hnode hs]
          simp [framesTo, Except.toOption]
        · have hfor : isFor B.node x.2 = false := by
            rw [isFor, hnode]
            exact decide_eq_false fun h => hB (Option.some_inj.mp h)
          rw [List.filter_cons_of_neg (by rw [hfor]; exact Bool.false_ne_true)]
          simp [framesTo, Except.toOption, hB]

theorem sealFrame_error {nonce : Option Nonce} {env : Envelope F} {sender : String} {key : PeerKey}
    {e : FederationError} (h : sealFrame P cipher nonce env sender key = .error e) :
    e = .nonce ∨ e = .openFailed := by
  unfold sealFrame at h
  cases nonce with
  | none =>
    cases h
    exact Or.inl rfl
  | some n =>
    dsimp only at h
    cases hc : cipher.encrypt key n.val (encodeEnvelope P env) (encodeHeader sender) with
    | none =>
      rw [hc] at h
      cases h
      exact Or.inr rfl
    | some ct =>
      rw [hc] at h
      cases h

/-- What leaves by the egress has a registered peer for its destination. -/
theorem send_of_exits {A : FederationServer F} {raw : Bytes} {env : Envelope F}
    (h : exits P registry (some A.directory) raw = some env) {nonce : Option Nonce}
    {e : FederationError} (hs : send P cipher A nonce env = .error e) :
    e = .nonce ∨ e = .openFailed := by
  have hin := (ingress_egress_iff P registry _ .new raw env).mp
    ((exits_eq_some_iff .new raw env).mp h)
  have hremote := hin.2.2
  unfold isRemote at hremote
  cases hnode : env.header.toAddr.bind Address.node with
  | none =>
    rw [hnode] at hremote
    cases hremote
  | some node =>
    rw [hnode] at hremote
    obtain ⟨peer, hpeer⟩ := Option.isSome_iff_exists.mp hremote
    rw [send_of_peer nonce hnode hpeer] at hs
    exact sealFrame_error hs

/-- What leaves one node's pipeline for the other arrives there in the order in which it was
    parsed: what could be sealed arrives once, and without a failure nothing is left out. Only a
    missing nonce and the cipher keep something from being sealed. -/
theorem link_in_order {A B : FederationServer F} {a b : Peer} (hp : Peered A B a b)
    (haead : B.aead = cipher.toAead) (hc : Correct cipher) (hlen : (utf8 A.node).length < 2 ^ 16)
    {buffers : Buffers} {threads : ThreadRegistry} {t : BoundedStages.State F}
    {events : List (Bytes ⊕ Envelope F)} (ho : t.egressClosed = false)
    (h : Crossed P registry (some A.directory) buffers (.boot threads) events t)
    {sends : List (Option Nonce × Envelope F)} (hsends : sends.map Prod.snd = drainedIn events) :
    ((framesTo B.node (runEgress P cipher A sends)).map fun frame => (receive P B frame).1).Sublist
        ((((parsedIn events).filterMap (exits P registry (some A.directory))).filter
          (isFor B.node)).map (arrival P B A.node)) ∧
      ((∀ x ∈ sends, (send P cipher A x.1 x.2).isOk) →
        (framesTo B.node (runEgress P cipher A sends)).map (fun frame => (receive P B frame).1) <+:
          (((parsedIn events).filterMap (exits P registry (some A.directory))).filter
            (isFor B.node)).map (arrival P B A.node)) ∧
      ∀ x ∈ sends, ∀ e, send P cipher A x.1 x.2 = .error e → e = .nonce ∨ e = .openFailed := by
  have hpre : drainedIn events <+:
      (parsedIn events).filterMap (exits P registry (some A.directory)) := by
    have hrun := outgoing_of_run (stops_boot threads) ho h
    exact ⟨_, hrun⟩
  rw [receive_framesTo hp haead hc hlen sends]
  refine ⟨?_, ?_, ?_⟩
  · have hsub : (sealedOf P cipher A sends).Sublist (drainedIn events) := by
      rw [← hsends]
      exact List.filter_sublist.map Prod.snd
    exact ((hsub.trans hpre.sublist).filter _).map _
  · intro hall
    have heq : sealedOf P cipher A sends = drainedIn events := by
      rw [← hsends, sealedOf, List.filter_eq_self.mpr hall]
    rw [heq]
    exact (hpre.filter _).map _
  · intro x hx e he
    have hmem : x.2 ∈ drainedIn events := by
      rw [← hsends]
      exact List.mem_map_of_mem hx
    obtain ⟨raw, _, hraw⟩ := List.mem_filterMap.mp (hpre.subset hmem)
    exact send_of_exits hraw he

def billNonce : Nonce := ⟨List.replicate 24 8, rfl⟩

/-- What `run_egress` of the hub sends. -/
def dinnerSends : List (Option Nonce × Envelope UInt32) :=
  [(some hubNonce, dinner), (some billNonce, bill)]

theorem link_in_order_dinner :
    ((framesTo home.node (runEgress plain tagged hub dinnerSends)).map
        fun frame => (receive plain home frame).1).Sublist
      ((((parsedIn [.inl dinnerRaw, .inl billRaw, .inr dinner, .inr bill]).filterMap
        (exits plain .new (some hub.directory))).filter (isFor home.node)).map
          (arrival plain home hub.node)) ∧
    ((∀ x ∈ dinnerSends, (send plain tagged hub x.1 x.2).isOk) →
      (framesTo home.node (runEgress plain tagged hub dinnerSends)).map
          (fun frame => (receive plain home frame).1) <+:
        (((parsedIn [.inl dinnerRaw, .inl billRaw, .inr dinner, .inr bill]).filterMap
          (exits plain .new (some hub.directory))).filter (isFor home.node)).map
            (arrival plain home hub.node)) ∧
    ∀ x ∈ dinnerSends, ∀ e, send plain tagged hub x.1 x.2 = .error e →
      e = .nonce ∨ e = .openFailed :=
  link_in_order peered_home rfl tagged_correct (by decide) rfl dinner_run rfl

end RustPipeline.EgressLink
