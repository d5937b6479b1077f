import RustPipeline.Interleaving
import RustPipeline.PipelineEffects
import RustPipeline.RoundTrip
import RustPipeline.Sealing
import RustPipeline.Switchboard

set_option autoImplicit false

/-!
# Provenance along a causal chain

A hop leads from an envelope to one that handling it, delivering it or federating it produces. No
hop loses a bit, and only the federation edge adds any.
-/
namespace RustPipeline.ProvenanceChain
open Text Wire Codec CodecImage Handling Registry Thread Federation Pipeline PipelineEffects
open RoundTrip Sealing Interleaving TransitionSystem PlainPlatform Relation

variable {F : Type} {P : Platform F} {cipher : Cipher} {history : List (SealCall F)}

/-! ## Hops -/

/-- On one node: dispatching an envelope, at any registry, puts an envelope on the ingress that
    reads back as the next one, or the switchboard injects it. -/
inductive LocalHop (P : Platform F) : Envelope F → Envelope F → Prop where
  | answer (ctx : DispatchCtx F) (threads : ThreadRegistry) (fresh : String) (msg : RoutedMsg F)
      (out env : Envelope F) (raw : Bytes)
      (hm : .answer out raw ∈ (processMessage P ctx threads fresh msg).2)
      (hd : decodeEnvelope P raw = .ok env) : LocalHop P msg.envelope env
  | call (ctx : DispatchCtx F) (threads : ThreadRegistry) (fresh : String) (msg : RoutedMsg F)
      (out env : Envelope F) (raw : Bytes)
      (hm : .call out raw ∈ (processMessage P ctx threads fresh msg).2)
      (hd : decodeEnvelope P raw = .ok env) : LocalHop P msg.envelope env
  | inject (resolve : Switchboard.Materializer) (delivered env : Envelope F) (raw : Bytes)
      (hr : Switchboard.route P resolve delivered = .ok raw)
      (hd : decodeEnvelope P raw = .ok env) : LocalHop P delivered env

/-- The frame is the output of a call of `seal` on the envelope, and of none on another. -/
structure SealedFrom (P : Platform F) (cipher : Cipher) (history : List (SealCall F))
    (frame : Bytes) (env : Envelope F) : Prop where
  put : ∃ c ∈ history, c.frame P cipher = .ok frame
  only : ∀ c ∈ history, c.frame P cipher = .ok frame → c.envelope = env

inductive Hop (P : Platform F) (cipher : Cipher) (history : List (SealCall F)) :
    Envelope F → Envelope F → Prop where
  | near {env out : Envelope F} (h : LocalHop P env out) : Hop P cipher history env out
  | edge (s : FederationServer F) (frame : Bytes) {env out : Envelope F}
      (ha : s.aead = cipher.toAead) (hs : SealedFrom P cipher history frame env)
      (hm : .deliver out ∈ (receive P s frame).1) : Hop P cipher history env out

/-! ## The hops of a run -/

/-- Handling the message, at some registry, has the effect. -/
def Produced (P : Platform F) (msg : RoutedMsg F) (effect : Effect F) : Prop :=
  ∃ ctx threads fresh, effect ∈ (processMessage P ctx threads fresh msg).2

/-- A middleware that answers for the handler. -/
def standIn (response : HandlerResponse F) : Middleware F where
  preDispatch _ _ := .ok (.shortCircuit response)
  postDispatch _ _ response := .ok (.passThrough response)

theorem handlerResult_standIn {registry : ListenerRegistry F} {msg : RoutedMsg F}
    (h : (registry.getHandler msg.targetName).isSome) (response : HandlerResponse F) :
    handlerResult ⟨registry, [standIn response]⟩ msg = some (.ok response) := by
  obtain ⟨handler, hh⟩ := Option.isSome_iff_exists.mp h
  unfold handlerResult
  dsimp only
  rw [hh]
  rfl

theorem produced_of_respond {registry : ListenerRegistry F} {msg : RoutedMsg F}
    (h : (registry.getHandler msg.targetName).isSome) (response : HandlerResponse F)
    (threads : ThreadRegistry) (fresh : String) {effect : Effect F}
    (hm : effect ∈ (respond P registry threads fresh msg response).2) : Produced P msg effect := by
  refine ⟨⟨registry, [standIn response]⟩, threads, fresh, ?_⟩
  unfold processMessage
  rw [handlerResult_standIn h]
  exact hm

/-- What a worker has still to do is produced by the message that it handles. -/
def Owed (P : Platform F) (job : Job F) : Progress F → Prop
  | .answering payload => ∀ (threads : ThreadRegistry) fresh, ∀ effect ∈
      answerEffects P job.msg payload (threads.pruneForResponse job.thread fresh).1,
        Produced P job.msg effect
  | .calling kind toAddr payload => ∀ (threads : ThreadRegistry) fresh, ∀ effect ∈
      callEffects P job.msg kind toAddr payload
        (threads.extendChain job.thread toAddr.organismName fresh).1, Produced P job.msg effect
  | .emitting _ effects => ∀ effect ∈ effects, Produced P job.msg effect
  | _ => True

theorem owed_handled {registry : ListenerRegistry F} {job : Job F}
    {result : Option (Except PipelineError (HandlerResponse F))}
    (h : result.isSome = (registry.getHandler job.msg.targetName).isSome) :
    Owed P job (afterHandler P registry job.msg result) := by
  match result, h with
  | none, _ => exact fun _ hm => nomatch hm
  | some (.error e), _ => exact fun _ hm => nomatch hm
  | some (.ok .none), h =>
    intro threads fresh effect hm
    refine produced_of_respond h.symm .none threads fresh ?_
    rw [respond, answerUp_eq]
    exact List.mem_cons_of_mem _ hm
  | some (.ok (.reply payload)), h =>
    intro threads fresh effect hm
    refine produced_of_respond h.symm (.reply payload) threads fresh ?_
    rw [respond, answerUp_eq]
    exact List.mem_cons_of_mem _ hm
  | some (.ok (.send toAddr payload)), h =>
    unfold afterHandler
    dsimp only
    split
    · exact fun _ hm => nomatch hm
    · next hpeer =>
      intro threads fresh effect hm
      refine produced_of_respond h.symm (.send toAddr payload) threads fresh ?_
      rw [respond, sendCall_of_ok hpeer]
      exact hm
  | some (.ok (.spawn toAddr payload)), h =>
    unfold afterHandler
    dsimp only
    split
    · next e hpeer =>
      intro effect hm
      refine produced_of_respond h.symm (.spawn toAddr payload) .new "" ?_
      simp only [respond, spawnCall, hpeer]
      exact hm
    · next hpeer =>
      intro threads fresh effect hm
      refine produced_of_respond h.symm (.spawn toAddr payload) threads fresh ?_
      rw [respond, spawnCall_of_ok hpeer]
      exact hm

theorem owed_kept (registry : ListenerRegistry F) : KeptByWorkers P registry (Owed P) where
  start _ := trivial
  handled _ _ h _ := owed_handled h
  prune _ _ threads fresh h := h threads fresh
  extend _ _ _ _ threads fresh _ h := h threads fresh
  emit _ _ effect _ h e he := h e (List.mem_cons_of_mem effect he)

/-- What a worker puts on the ingress, in any run, is one hop from the message that it handles. -/
theorem localHop_of_emit {registry : ListenerRegistry F} {federation : Option PeerDirectory}
    {condition : State F → Event F → Prop} {s : State F}
    (hs : Reachable (guarded P registry federation condition) s) {k : String} {job : Job F}
    (hr : s.running k = some job) {call : Option (CallEdge F)} {effect : Effect F}
    {rest : List (Effect F)} (hp : s.progress k = .emitting call (effect :: rest)) {item : Item F}
    (hi : item ∈ injected job call effect) {env : Envelope F}
    (hd : decodeEnvelope P item.raw = .ok env) : LocalHop P job.msg.envelope env := by
  have howed := throughout_of_reachable (owed_kept registry) hs k job hr
  rw [hp] at howed
  obtain ⟨ctx, threads, fresh, hm⟩ := howed effect List.mem_cons_self
  cases effect with
  | onClose thread => cases hi
  | onOpen caller callee thread kind => cases hi
  | answer out raw =>
    rw [List.mem_singleton.mp hi] at hd
    exact .answer ctx threads fresh job.msg out env raw hm hd
  | call out raw =>
    rw [List.mem_singleton.mp hi] at hd
    exact .call ctx threads fresh job.msg out env raw hm hd

/-! ## One hop -/

theorem decode_provenance (lawful : Lawful P) {env out : Envelope F}
    (h : decodeEnvelope P (encodeEnvelope P env) = .ok out) :
    out.header.provenance = env.header.provenance := by
  rw [decode_encode lawful, wireImage_eq_ok] at h
  obtain ⟨_, _, _, hp, _, _⟩ := h
  exact hp.symm

theorem answers_provenance {ctx : DispatchCtx F} {threads : ThreadRegistry} {fresh : String}
    {msg : RoutedMsg F} {out : Envelope F} (h : Answers ctx threads fresh msg out) :
    out.header.provenance = msg.envelope.header.provenance := by
  cases h with
  | ack prune h hp => rfl
  | reply prune payload h hp => rfl
  | spawned toAddr payload h ha => rfl
  | rejected toAddr payload h ha => rfl

theorem calls_provenance {ctx : DispatchCtx F} {threads : ThreadRegistry} {fresh : String}
    {msg : RoutedMsg F} {out : Envelope F} (h : Calls ctx threads fresh msg out) :
    out.header.provenance = msg.envelope.header.provenance := by
  cases h with
  | call toAddr payload h ha => rfl

theorem LocalHop.provenance (lawful : Lawful P) {env out : Envelope F} (h : LocalHop P env out) :
    out.header.provenance = env.header.provenance := by
  cases h with
  | answer ctx threads fresh msg produced _ raw hm hd =>
    obtain ⟨ha, rfl⟩ := (answer_mem_iff P ctx threads fresh msg produced raw).mp hm
    exact (decode_provenance lawful hd).trans (answers_provenance ha)
  | call ctx threads fresh msg produced _ raw hm hd =>
    obtain ⟨hc, rfl⟩ := (call_mem_iff P ctx threads fresh msg produced raw).mp hm
    exact (decode_provenance lawful hd).trans (calls_provenance hc)
  | inject resolve _ _ raw hr hd =>
    unfold Switchboard.route at hr
    split at hr
    · cases hr
    · split at hr
      · cases hr
      · cases hr
        have hp := decode_provenance lawful hd
        exact hp

theorem Hop.provenance (lawful : Lawful P) (ideal : Ideal P cipher history) {env out : Envelope F}
    (h : Hop P cipher history env out) :
    ∃ edge, out.header.provenance = env.header.provenance.union edge := by
  cases h with
  | near h => exact ⟨.empty, by rw [h.provenance lawful, Provenance.union_empty]⟩
  | edge s frame ha hs hm =>
    obtain ⟨opened, sender, hopen, _, _, _, hp, _⟩ := deliver_mem_receive hm
    rw [ha] at hopen
    obtain ⟨_, _, c, hc, _, _, hframe, hdecode⟩ := openFrame_sealed ideal hopen
    rw [hs.only c hc hframe] at hdecode
    rw [decode_provenance lawful hdecode] at hp
    exact ⟨_, hp⟩

/-! ## Chains -/

/-- Along a causal chain every bit of the first envelope's provenance is in the last one's, and
    the two are equal where no hop crosses the federation edge. -/
theorem provenance_kept (lawful : Lawful P) (ideal : Ideal P cipher history) :
    (∀ env out, ReflTransGen (Hop P cipher history) env out →
      ∀ bit, env.header.provenance.containsBit bit = true →
        out.header.provenance.containsBit bit = true) ∧
    ∀ env out, ReflTransGen (LocalHop P) env out →
      out.header.provenance = env.header.provenance := by
  constructor
  · intro env out h bit hbit
    induction h with
    | refl => exact hbit
    | tail _ hop ih =>
      obtain ⟨edge, he⟩ := hop.provenance lawful ideal
      rw [he, Provenance.union_containsBit, ih]
      rfl
  · intro env out h
    induction h with
    | refl => rfl
    | tail _ hop ih => exact (hop.provenance lawful).trans ih

/-! ## A marked order through the edge -/

def marked (sender : Address) (toName thread : String) (p : Provenance) : Envelope UInt32 :=
  ⟨⟨sender, some (.flat toName), thread, p⟩, ⟨"Order", .nil⟩⟩

/-- Sealed with bit 3; the peer's edge adds bit 64. -/
def markedCall : SealCall UInt32 :=
  ⟨marked (.flat "bob") "concierge" "t0" ⟨8, 0⟩, "ringhub", FederationGate.ringhub.key,
    some hubNonce⟩

def markingHub : Peer := ⟨"ringhub", FederationGate.ringhub.key, ⟨0, 1⟩⟩

def markingServer : FederationServer UInt32 where
  node := "agentos"
  directory := PeerDirectory.new.register markingHub
  aead := (markedCall.cipher plain hubNonce).toAead
  authorizer _ _ := .ok ()
  deliver _ := .ok ()

def markedFrame : Bytes :=
  encodeHeader "ringhub" ++ (hubNonce.val ++
    (encodeEnvelope plain markedCall.envelope ++ List.replicate 16 0))

def hubBob : Address := ⟨[⟨"ringhub", none⟩, ⟨"bob", none⟩]⟩

theorem markedFrame_sealed :
    SealedFrom plain (markedCall.cipher plain hubNonce) [markedCall] markedFrame
      markedCall.envelope := by
  refine ⟨⟨markedCall, List.mem_singleton_self _, markedCall.cipher_frame plain hubNonce rfl⟩, ?_⟩
  intro c hc _
  rw [List.mem_singleton.mp hc]

theorem marked_stamped : stamp markingServer.directory markedCall.envelope "ringhub" =
    marked hubBob "concierge" "t0" ⟨8, 1⟩ := rfl

theorem marked_crossed :
    (crossEdge markingServer (marked hubBob "concierge" "t0" ⟨8, 1⟩)).1 =
      [.authorize hubBob (.flat "concierge"),
        .deliver (marked hubBob "concierge" "t0" ⟨8, 1⟩)] := rfl

theorem marked_delivered :
    .deliver (marked hubBob "concierge" "t0" ⟨8, 1⟩) ∈
      (receive plain markingServer markedFrame).1 := by
  have hdecode : decodeEnvelope plain (encodeEnvelope plain markedCall.envelope) =
      .ok markedCall.envelope :=
    decode_of_image rfl
  have hopen : openFrame plain markingServer.aead markedFrame markingServer.directory =
      .ok (markedCall.envelope, "ringhub") :=
    openFrame_of_decrypt plain (by decide) rfl hubNonce.property
      (FederationGate.sealedOnce_decrypt _ _ _ _ _) hdecode
  rw [receive_of_open hopen, marked_stamped, marked_crossed]
  exact List.mem_cons_of_mem _ List.mem_cons_self

theorem marked_injected :
    LocalHop plain (marked hubBob "concierge" "t0" ⟨8, 1⟩)
      (marked hubBob "concierge" "t1" ⟨8, 1⟩) := by
  refine .inject (fun _ => .ok "t1") _ _ (encodeEnvelope plain
    (marked hubBob "concierge" "t1" ⟨8, 1⟩)) rfl ?_
  exact decode_of_image rfl

theorem provenance_kept_marked :
    ReflTransGen (Hop plain (markedCall.cipher plain hubNonce) [markedCall]) markedCall.envelope
        (marked hubBob "concierge" "t1" ⟨8, 1⟩) ∧
      (∀ bit, markedCall.envelope.header.provenance.containsBit bit = true →
        (marked hubBob "concierge" "t1" ⟨8, 1⟩).header.provenance.containsBit bit = true) ∧
      markedCall.envelope.header.provenance.containsBit 3 = true ∧
      (marked hubBob "concierge" "t1" ⟨8, 1⟩).header.provenance =
        (marked hubBob "concierge" "t0" ⟨8, 1⟩).header.provenance := by
  have hideal := markedCall.cipher_ideal plain hubNonce rfl
  have hchain : ReflTransGen (Hop plain (markedCall.cipher plain hubNonce) [markedCall])
      markedCall.envelope (marked hubBob "concierge" "t1" ⟨8, 1⟩) :=
    .tail (.single (.edge markingServer markedFrame rfl markedFrame_sealed marked_delivered))
      (.near marked_injected)
  obtain ⟨hkept, hlocal⟩ := provenance_kept plain_lawful hideal
  exact ⟨hchain, hkept _ _ hchain, rfl, hlocal _ _ (.single marked_injected)⟩

end RustPipeline.ProvenanceChain
