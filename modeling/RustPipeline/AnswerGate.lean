import RustPipeline.Deliverability
import RustPipeline.FederatedReply

set_option autoImplicit false

/-!
# Answers and peer lists

An answer re-enters through the route stage like any other item, so the peer list of the listener
in whose name it is sent applies to it.
-/
namespace RustPipeline.AnswerGate
open Text Xml Wire Codec CodecImage Handling Routing Registry Thread Federation Pipeline PipelineEffects
open Validation Ingress Conversations RoundTrip PlainPlatform Separated Deliverability
open FederatedReply

variable {F : Type} (P : Platform F)

/-! ## What the caller receives -/

/-- The listener that waits for the answer: the spawner of a `Spawn`, else the message's sender. -/
def caller (msg : RoutedMsg F) : HandlerResponse F → String
  | .spawn _ _ => msg.targetName
  | .none => msg.envelope.header.fromAddr.organismName
  | .reply _ => msg.envelope.header.fromAddr.organismName
  | .send _ _ => msg.envelope.header.fromAddr.organismName

/-- The route stage hands the item to this listener, whatever the registry is by then. -/
def Received (registry : ListenerRegistry F) (federation : Option PeerDirectory) (raw : Bytes)
    (listener : String) : Prop :=
  ∀ threads, ∃ routed, (ingress P registry federation threads raw).2 = .routed (.forwarded routed) ∧
    routed.targetName = listener

/-- An answer up the chain of the message's thread, if there is one, leads back to the sender, who
    has the route for it and whom the answering listener does not bar. -/
def UpChain (lower : String → String) (ls : List (Registration F))
    (federation : Option PeerDirectory) (threads : ThreadRegistry) (msg : RoutedMsg F)
    (payload : Payload F) : Prop :=
  ∀ chain, threads.lookup msg.envelope.header.thread = some chain → '.' ∈ chain.toList →
    Unblank threads (parent '.' chain) ∧
      Reaches lower ls federation msg.targetName (.flat (returnHop chain)) payload.tag
        (presentNames payload.value) msg.envelope.header.fromAddr.organismName

/-- The acknowledgement of a spawn, sent in the destination's name, leads back to the spawner. -/
def AckBack (lower : String → String) (ls : List (Registration F))
    (federation : Option PeerDirectory) (msg : RoutedMsg F) (toName : String) : Prop :=
  trimText msg.envelope.header.thread ≠ "" ∧
    Reaches lower ls federation toName (.flat msg.targetName) "SpawnAck" ["accepted"] msg.targetName

/-- What the answers of a response need to reach the caller. -/
def Heard (lower : String → String) (ls : List (Registration F))
    (federation : Option PeerDirectory) (threads : ThreadRegistry) (msg : RoutedMsg F) :
    HandlerResponse F → Prop
  | .none => UpChain lower ls federation threads msg toolAck
  | .reply payload => UpChain lower ls federation threads msg payload
  | .spawn toAddr _ => AckBack lower ls federation msg toAddr.organismName
  | .send _ _ => True

variable {P}

theorem received_iff (lawful : Lawful P) (ls : List (Registration F))
    (federation : Option PeerDirectory) (sender : String) (target : Address) (thread : String)
    (p : Provenance) (payload : Payload F) (listener : String) :
    Received P (.build P.lowercase ls) federation
        (encodeEnvelope P ⟨⟨.flat sender, some target, thread, p⟩, payload⟩) listener ↔
      trimText thread ≠ "" ∧ Reaches P.lowercase ls federation sender target payload.tag
        (presentNames payload.value) listener := by
  have hforward := fun threads => forwarded_iff lawful ls federation threads sender target thread p
    payload listener
  constructor
  · intro h
    exact (hforward .new).mp (h .new)
  · intro h threads
    exact (hforward threads).mpr h

/-- The answers up the chain, for `Reply` and for the acknowledgement of `None`. -/
theorem upChain_iff (lawful : Lawful P) (ls : List (Registration F))
    (federation : Option PeerDirectory) (threads : ThreadRegistry) {fresh : String}
    (hf : trimText fresh ≠ "") (msg : RoutedMsg F) (payload : Payload F) :
    (∀ out raw, .answer out raw ∈ (answerUp P threads fresh msg payload).2 →
        Received P (.build P.lowercase ls) federation raw
          msg.envelope.header.fromAddr.organismName) ↔
      UpChain P.lowercase ls federation threads msg payload := by
  constructor
  · intro h chain hchain hdot
    have hprune := pruneForResponse_some fresh hchain hdot
    have hanswer := (mem_answerUp_iff P threads fresh msg payload _ _).mpr
      ⟨⟨_, congrArg Prod.fst hprune, rfl⟩, rfl⟩
    obtain ⟨hid, hreach⟩ := (received_iff lawful ls federation _ _ _ _ _ _).mp (h _ _ hanswer)
    exact ⟨(getOrCreate_unblank hf threads _).mp hid, hreach⟩
  · intro h out raw hm
    obtain ⟨⟨prune, hp, rfl⟩, rfl⟩ := (mem_answerUp_iff P threads fresh msg payload _ _).mp hm
    obtain ⟨chain, hchain, hdot⟩ :=
      (pruneForResponse_isSome _ _ _).mp (Option.isSome_iff_exists.mpr ⟨prune, hp⟩)
    rw [pruneForResponse_some fresh hchain hdot, Option.some_inj] at hp
    subst hp
    obtain ⟨hid, hreach⟩ := h chain hchain hdot
    exact (received_iff lawful ls federation _ _ _ _ _ _).mpr
      ⟨(getOrCreate_unblank hf threads _).mpr hid, hreach⟩

/-- A spawn has one answer, its acknowledgement. -/
theorem mem_spawnCall_iff (registry : ListenerRegistry F) (threads : ThreadRegistry)
    (fresh : String) (msg : RoutedMsg F) (toAddr : Address) (payload : Payload F)
    (out : Envelope F) (raw : Bytes) :
    .answer out raw ∈ (spawnCall P registry threads fresh msg toAddr payload).2 ↔
      out = spawnAckEnvelope msg toAddr.organismName
          (registry.routing.enforcePeers msg.targetName toAddr.organismName).isOk ∧
        raw = encodeEnvelope P out := by
  unfold spawnCall
  dsimp only
  cases registry.routing.enforcePeers msg.targetName toAddr.organismName with
  | error e =>
    simp only [emitAnswer, List.mem_singleton, Effect.answer.injEq]
    constructor
    · intro h
      exact ⟨h.1, by rw [h.2, h.1]⟩
    · intro h
      exact ⟨h.1, by rw [h.2, h.1]; rfl⟩
  | ok u =>
    simp only [emitAnswer, emitCall, List.mem_cons, List.not_mem_nil, reduceCtorEq,
      Effect.answer.injEq, or_false, false_or]
    constructor
    · intro h
      exact ⟨h.1, by rw [h.2, h.1]⟩
    · intro h
      exact ⟨h.1, by rw [h.2, h.1]; rfl⟩

theorem ackBack_iff (lawful : Lawful P) (ls : List (Registration F))
    (federation : Option PeerDirectory) (threads : ThreadRegistry) (fresh : String)
    (msg : RoutedMsg F) (toAddr : Address) (payload : Payload F) :
    (∀ out raw, .answer out raw ∈
        (spawnCall P (.build P.lowercase ls) threads fresh msg toAddr payload).2 →
          Received P (.build P.lowercase ls) federation raw msg.targetName) ↔
      AckBack P.lowercase ls federation msg toAddr.organismName := by
  have hack := fun accepted => received_iff lawful ls federation toAddr.organismName
    (.flat msg.targetName) msg.envelope.header.thread msg.envelope.header.provenance
    (spawnAck accepted) msg.targetName
  constructor
  · intro h
    exact (hack _).mp (h _ _ ((mem_spawnCall_iff _ _ _ _ _ _ _ _).mpr ⟨rfl, rfl⟩))
  · intro h out raw hm
    obtain ⟨rfl, rfl⟩ := (mem_spawnCall_iff _ _ _ _ _ _ _ _).mp hm
    exact (hack _).mpr h

/-- A send has no answer of its own. -/
theorem answer_notMem_sendCall (registry : ListenerRegistry F) (threads : ThreadRegistry)
    (fresh : String) (msg : RoutedMsg F) (toAddr : Address) (payload : Payload F)
    (out : Envelope F) (raw : Bytes) :
    .answer out raw ∉ (sendCall P registry threads fresh msg toAddr payload).2 := by
  unfold sendCall
  dsimp only
  cases registry.routing.enforcePeers msg.targetName toAddr.organismName with
  | error e => simp
  | ok u => simp [emitCall]

/-- The caller receives the answers of a response exactly when they lead back to it and the listener
    in whose name they are sent does not bar it. -/
theorem answers_received_iff (lawful : Lawful P) (ls : List (Registration F))
    (middleware : List (Middleware F)) (federation : Option PeerDirectory)
    (threads : ThreadRegistry) {fresh : String} (hf : trimText fresh ≠ "") (msg : RoutedMsg F)
    (response : HandlerResponse F)
    (hr : handlerResult ⟨.build P.lowercase ls, middleware⟩ msg = some (.ok response)) :
    (∀ out raw, .answer out raw ∈
        (processMessage P ⟨.build P.lowercase ls, middleware⟩ threads fresh msg).2 →
          Received P (.build P.lowercase ls) federation raw (caller msg response)) ↔
      Heard P.lowercase ls federation threads msg response := by
  have hrun : processMessage P ⟨.build P.lowercase ls, middleware⟩ threads fresh msg =
      respond P (.build P.lowercase ls) threads fresh msg response := by
    unfold processMessage
    rw [hr]
  rw [hrun]
  cases response with
  | none => exact upChain_iff lawful ls federation threads hf msg toolAck
  | reply payload => exact upChain_iff lawful ls federation threads hf msg payload
  | spawn toAddr payload => exact ackBack_iff lawful ls federation threads fresh msg toAddr payload
  | send toAddr payload =>
    constructor
    · intro _
      trivial
    · intro _ out raw hm
      exact absurd hm (answer_notMem_sendCall _ _ _ _ _ _ _ _)

/-- Between plain names, with the chain and the route that lead back to the caller, the peer list of
    the answering listener decides. -/
theorem upChain_plain_iff (lower : String → String) (ls : List (Registration F))
    (federation : Option PeerDirectory) (threads : ThreadRegistry) {msg : RoutedMsg F}
    {payload : Payload F} {chain : String} {l : Registration F}
    (hchain : threads.lookup msg.envelope.header.thread = some chain) (hdot : '.' ∈ chain.toList)
    (hback : returnHop chain = msg.envelope.header.fromAddr.organismName)
    (hthread : Unblank threads (parent '.' chain)) (hg : Solid msg.targetName)
    (hc : Solid msg.envelope.header.fromAddr.organismName) (htag : Unescaped payload.tag)
    (hnames : ∀ n ∈ presentNames payload.value, Unescaped n)
    (hfits : Fits ls payload.tag (presentNames payload.value))
    (hnear : isRemote federation (some (.flat msg.envelope.header.fromAddr.organismName)) = false)
    (hl : firstUnder lower ls (some msg.envelope.header.fromAddr.organismName) payload.tag = some l)
    (hname : l.name = msg.envelope.header.fromAddr.organismName) :
    UpChain lower ls federation threads msg payload ↔
      ¬ Barred ls msg.targetName msg.envelope.header.fromAddr.organismName := by
  have hreach := reaches_plain_iff lower ls federation hg hc htag hnames
    msg.envelope.header.fromAddr.organismName
  constructor
  · intro h
    obtain ⟨_, hr⟩ := h chain hchain hdot
    rw [hback, hreach] at hr
    exact hr.2.2.2
  · intro h other hother _
    obtain rfl := Option.some_inj.mp (hchain.symm.trans hother)
    rw [hback, hreach]
    exact ⟨hthread, hfits, hnear, ⟨l, hl, hname⟩, h⟩

/-! ## An agent that lists its caller, and one that does not -/

def alice : Registration UInt32 where
  name := "alice"
  payloadTag := "GreetingReply"
  handler _ _ := .ok .none
  isAgent := false
  peers := []
  schema := none

def coder (peers : List String) : Registration UInt32 :=
  { bob with name := "coder", isAgent := true, peers := peers }

/-- An office of the agent with these peers, and its caller. -/
def office (peers : List String) : DispatchCtx UInt32 :=
  ⟨.build plain.lowercase [coder peers, alice], []⟩

def task : Envelope UInt32 :=
  ⟨⟨.flat "alice", some (.flat "coder"), "t1", .empty⟩, ⟨"Greeting", .text "hi"⟩⟩

def taskRouted : RoutedMsg UInt32 := ⟨task, ⟨"Greeting", .text "hi"⟩, "coder"⟩

def taskReply : Envelope UInt32 :=
  ⟨⟨.flat "coder", some (.flat "alice"), "u1", .empty⟩, ⟨"GreetingReply", .text "hi"⟩⟩

theorem solid_alice : Solid "alice" := ⟨by decide, by decide⟩

theorem solid_coder : Solid "coder" := ⟨by decide, by decide⟩

/-- The registry once the task is routed. -/
def routedThreads : ThreadRegistry := registerThread .new "t1" "alice" "coder"

theorem decode_task : decodeEnvelope plain (encodeEnvelope plain task) = .ok task :=
  decode_of_image rfl

theorem office_first_alice (peers : List String) :
    firstUnder plain.lowercase [coder peers, alice] (some "alice") "GreetingReply" =
      some alice := by
  have hcoder : routeKey plain.lowercase "coder" "Greeting" ≠
      RoutingTable.lookupKey plain.lowercase (some "alice") "GreetingReply" := by decide
  unfold firstUnder
  rw [List.find?_cons_of_neg (p := fun l : Registration UInt32 => _) (by
    exact hcoder ∘ of_decide_eq_true)]
  rfl

theorem office_upChain_iff (peers : List String) :
    UpChain plain.lowercase [coder peers, alice] none routedThreads taskRouted
        ⟨"GreetingReply", .text "hi"⟩ ↔ ¬ Barred [coder peers, alice] "coder" "alice" := by
  have hchain : routedThreads.lookup "t1" = some "alice.coder" := rfl
  have hthread : Unblank routedThreads (parent '.' "alice.coder") := by
    intro id hid
    cases hid
  have hfits : Fits [coder peers, alice] "GreetingReply" [] := by
    intro s hs
    cases hs
  exact upChain_plain_iff plain.lowercase _ none routedThreads hchain (by decide) (by decide)
    hthread solid_coder solid_alice (by decide) (by simp [presentNames]) hfits rfl
    (office_first_alice peers) rfl

theorem barred_iff (peers : List String) :
    Barred [coder peers, alice] "coder" "alice" ↔ "alice" ∉ peers := by
  have hlast : ([coder peers, alice].filter fun l => l.name = "coder").getLast? =
      some (coder peers) := rfl
  unfold Barred
  rw [hlast]
  constructor
  · intro h
    obtain ⟨l, hl, _, hnot⟩ := h
    cases hl
    exact hnot
  · intro h
    exact ⟨coder peers, rfl, rfl, h⟩

/-- The reply to the task is the agent's only answer. -/
theorem task_answer (peers : List String) : .answer taskReply (encodeEnvelope plain taskReply) ∈
    (processMessage plain (office peers) routedThreads "u1" taskRouted).2 :=
  (answer_mem_iff plain _ _ _ _ _ _).mpr ⟨.reply ⟨"alice", "u1"⟩ _ rfl rfl, rfl⟩

theorem answers_received_listed :
    (∀ out raw, .answer out raw ∈
      (processMessage plain (office ["alice"]) routedThreads "u1" taskRouted).2 →
        Received plain (office ["alice"]).registry none raw "alice") ∧
      Received plain (office ["alice"]).registry none (encodeEnvelope plain taskReply) "alice" := by
  have hreceived : ∀ out raw, .answer out raw ∈
      (processMessage plain (office ["alice"]) routedThreads "u1" taskRouted).2 →
        Received plain (office ["alice"]).registry none raw "alice" := by
    apply (answers_received_iff plain_lawful [coder ["alice"], alice] [] none routedThreads
      (by decide) taskRouted (.reply ⟨"GreetingReply", .text "hi"⟩) rfl).mpr
    apply (office_upChain_iff ["alice"]).mpr
    rw [barred_iff]
    decide
  exact ⟨hreceived, hreceived _ _ (task_answer ["alice"])⟩

theorem office_routes (peers : List String) (name tag : String) {l : Registration UInt32}
    (h : firstUnder plain.lowercase [coder peers, alice] (some name) tag = some l) :
    ∃ entry, (office peers).registry.routing.resolve plain.lowercase (some name) tag = .ok entry ∧
      entry.name = l.name :=
  (resolve_iff _ _ _ (· = l.name)).mpr ⟨l, h, rfl⟩

theorem task_forwarded (peers : List String) :
    ingress plain (office peers).registry none .new (encodeEnvelope plain task) =
      (routedThreads, .routed (.forwarded taskRouted)) := by
  have hcoder : routeKey plain.lowercase "coder" "Greeting" =
      RoutingTable.lookupKey plain.lowercase (some "coder") "Greeting" := by decide
  have hfirst : firstUnder plain.lowercase [coder peers, alice] (some "coder") "Greeting" =
      some (coder peers) := List.find?_cons_of_pos (decide_eq_true hcoder)
  have hfree : ¬ (office peers).registry.routing.Refuses "alice" "coder" := by
    intro h
    obtain ⟨l, hl, hagent, _⟩ := (refuses_iff plain.lowercase _ _ _).mp h
    cases hl
    cases hagent
  obtain ⟨entry, hroute, hname⟩ := office_routes peers "coder" "Greeting" hfirst
  have hforward : (ingress plain (office peers).registry none .new (encodeEnvelope plain task)).2 =
      .routed (.forwarded taskRouted) := by
    apply (ingress_forwarded_iff plain _ _ _ _ _).mpr
    refine ⟨task, entry, ⟨decode_task, rfl, rfl, hroute⟩, ?_, ?_⟩
    · rw [hname]
      exact hfree
    · rw [hname]
      rfl
  exact Prod.ext (ingress_forwarded plain hforward).2 hforward

/-- The task of a caller with a route for the reply reaches an agent without peers, whose reply is
    then dropped by that agent's own peer list. -/
theorem answer_gated :
    ingress plain (office []).registry none .new (encodeEnvelope plain task) =
        (routedThreads, .routed (.forwarded taskRouted)) ∧
      (∃ entry, (office []).registry.routing.resolve plain.lowercase (some "alice")
        "GreetingReply" = .ok entry ∧ entry.name = "alice") ∧
      .answer taskReply (encodeEnvelope plain taskReply) ∈
        (processMessage plain (office []) routedThreads "u1" taskRouted).2 ∧
      (∀ threads, ∃ fromAgent toAgent allowed, (ingress plain (office []).registry none threads
        (encodeEnvelope plain taskReply)).2 =
          .routed (.dropped (.peerViolation fromAgent toAgent allowed))) ∧
      ¬ Received plain (office []).registry none (encodeEnvelope plain taskReply) "alice" := by
  obtain ⟨entry, hroute, hname⟩ :=
    office_routes [] "alice" "GreetingReply" (office_first_alice [])
  have hbarred : Barred [coder [], alice] "coder" "alice" := (barred_iff []).mpr (by decide)
  have hdecode : decodeEnvelope plain (encodeEnvelope plain taskReply) = .ok taskReply :=
    decode_of_image rfl
  have hdrop : ∀ threads, ∃ fromAgent toAgent allowed,
      (ingress plain (office []).registry none threads (encodeEnvelope plain taskReply)).2 =
        .routed (.dropped (.peerViolation fromAgent toAgent allowed)) := by
    intro threads
    apply (ingress_peerViolation_iff plain _ _ _ _).mpr
    refine ⟨taskReply, entry, ⟨hdecode, rfl, rfl, hroute⟩, ?_⟩
    rw [hname]
    exact (refuses_iff _ _ _ _).mpr hbarred
  refine ⟨task_forwarded [], ⟨entry, hroute, hname⟩, task_answer [], hdrop, ?_⟩
  intro h
  obtain ⟨routed, hforward, _⟩ := h .new
  obtain ⟨f, t, allowed, hdropped⟩ := hdrop .new
  rw [hdropped] at hforward
  cases hforward

end RustPipeline.AnswerGate
