import RustPipeline.FederatedReply

set_option autoImplicit false

/-!
# Return hops along a run

Messages come onto the ingress, are routed, wait for their workers and are handled, in any order. A
handler may keep state, so any result may be what it leaves. An answer goes up to the part before
the last of its thread's chain, and a chain with a caller in it is never changed.
-/
namespace RustPipeline.ReturnHops
open Text Wire Codec Handling Routing Registry Thread Federation Pipeline PipelineEffects
open Ingress PipelineRuns Conversations FederatedReply Separated

variable {F : Type} (P : Platform F)

/-! ## Runs -/

/-- How an item came onto the ingress: through the switchboard, from outside in another way, as the
    work of a call, or as an answer. -/
inductive Source where
  | delivered
  | injected
  | call
  | answer
  deriving DecidableEq

structure Item where
  raw : Bytes
  source : Source

/-- A routed message that is not yet handled. -/
structure Waiting (F : Type) where
  msg : RoutedMsg F
  source : Source

/-- Who has called whom, and on which thread. -/
structure Call where
  caller : String
  callee : String
  thread : String

structure Traffic (F : Type) where
  threads : ThreadRegistry
  queue : List Item
  waiting : List (Waiting F)
  calls : List Call

/-- Items are routed, and messages handled, at any place of their lists. -/
inductive Event (F : Type) where
  | deliver (resolve : Switchboard.Materializer) (env : Envelope F)
  | inject (raw : Bytes)
  | route (i : ℕ)
  | handle (i : ℕ) (result : Option (Except PipelineError (HandlerResponse F))) (fresh : String)

def sender (msg : RoutedMsg F) : String := msg.envelope.header.fromAddr.organismName

def thread (msg : RoutedMsg F) : String := msg.envelope.header.thread

/-- A message that is no answer is a call of its sender. -/
def arriving (msg : RoutedMsg F) : Source → List Call
  | .delivered => [⟨sender msg, msg.targetName, thread msg⟩]
  | .injected => [⟨sender msg, msg.targetName, thread msg⟩]
  | .call => [⟨sender msg, msg.targetName, thread msg⟩]
  | .answer => []

/-- What an effect puts on the ingress. -/
def emitted : Effect F → List Item
  | .call _ raw => [⟨raw, .call⟩]
  | .answer _ raw => [⟨raw, .answer⟩]
  | .onOpen _ _ _ _ => []
  | .onClose _ => []

/-- The call that a handler has made. -/
def made : Effect F → List Call
  | .onOpen caller callee thread _ => [⟨caller, callee, thread⟩]
  | .call _ _ => []
  | .answer _ _ => []
  | .onClose _ => []

namespace Traffic

def boot (threads : ThreadRegistry) : Traffic F := ⟨threads, [], [], []⟩

def deliver (s : Traffic F) (resolve : Switchboard.Materializer) (env : Envelope F) : Traffic F :=
  match Switchboard.route P resolve env with
  | .ok raw => { s with queue := s.queue ++ [⟨raw, .delivered⟩] }
  | .error _ => s

/-- A forwarded message waits for its worker. -/
def join (s : Traffic F) (threads : ThreadRegistry) (queue : List Item) (msg : RoutedMsg F)
    (source : Source) : Traffic F :=
  ⟨threads, queue, s.waiting ++ [⟨msg, source⟩], s.calls ++ arriving msg source⟩

def take (registry : ListenerRegistry F) (federation : Option PeerDirectory) (s : Traffic F)
    (queue : List Item) (item : Item) : Traffic F :=
  match ingress P registry federation s.threads item.raw with
  | (threads, .routed (.forwarded msg)) => s.join threads queue msg item.source
  | (threads, _) => { s with threads := threads, queue := queue }

def leave (s : Traffic F) (waiting : List (Waiting F))
    (ran : ThreadRegistry × List (Effect F)) : Traffic F :=
  ⟨ran.1, s.queue ++ ran.2.flatMap emitted, waiting, s.calls ++ ran.2.flatMap made⟩

def route (registry : ListenerRegistry F) (federation : Option PeerDirectory) (s : Traffic F)
    (i : ℕ) : Traffic F :=
  match s.queue[i]? with
  | none => s
  | some item => s.take P registry federation (s.queue.eraseIdx i) item

def handle (registry : ListenerRegistry F) (s : Traffic F) (i : ℕ)
    (result : Option (Except PipelineError (HandlerResponse F))) (fresh : String) : Traffic F :=
  match s.waiting[i]? with
  | none => s
  | some w => s.leave (s.waiting.eraseIdx i)
      (processResult P registry s.threads fresh w.msg result)

def perform (registry : ListenerRegistry F) (federation : Option PeerDirectory) (s : Traffic F) :
    Event F → Traffic F
  | .deliver resolve env => s.deliver P resolve env
  | .inject raw => { s with queue := s.queue ++ [⟨raw, .injected⟩] }
  | .route i => s.route P registry federation i
  | .handle i result fresh => s.handle P registry i result fresh

def after (registry : ListenerRegistry F) (federation : Option PeerDirectory) (s : Traffic F)
    (events : List (Event F)) : Traffic F :=
  events.foldl (perform P registry federation) s

end Traffic

/-! ## Single steps -/

variable {P} {registry : ListenerRegistry F} {federation : Option PeerDirectory}

theorem after_concat (s : Traffic F) (pre : List (Event F)) (e : Event F) :
    s.after P registry federation (pre ++ [e]) =
      (s.after P registry federation pre).perform P registry federation e := by
  rw [Traffic.after, List.foldl_append]
  rfl

theorem after_nil (s : Traffic F) : s.after P registry federation [] = s := rfl

theorem after_cons (s : Traffic F) (e : Event F) (post : List (Event F)) :
    s.after P registry federation (e :: post) =
      (s.perform P registry federation e).after P registry federation post := rfl

theorem perform_deliver (s : Traffic F) (resolve : Switchboard.Materializer) (env : Envelope F) :
    s.perform P registry federation (.deliver resolve env) = s.deliver P resolve env := rfl

theorem perform_route (s : Traffic F) (i : ℕ) :
    s.perform P registry federation (.route i) = s.route P registry federation i := rfl

theorem perform_handle (s : Traffic F) (i : ℕ)
    (result : Option (Except PipelineError (HandlerResponse F))) (fresh : String) :
    s.perform P registry federation (.handle i result fresh) =
      s.handle P registry i result fresh := rfl

/-- A delivery adds to the ingress at most. -/
theorem deliver_eq (s : Traffic F) (resolve : Switchboard.Materializer) (env : Envelope F) :
    ∃ queue, s.deliver P resolve env = { s with queue := queue } := by
  unfold Traffic.deliver
  cases Switchboard.route P resolve env with
  | error e => exact ⟨s.queue, rfl⟩
  | ok raw => exact ⟨_, rfl⟩

theorem deliver_of_ok {s : Traffic F} {resolve : Switchboard.Materializer} {env : Envelope F}
    {raw : Bytes} (h : Switchboard.route P resolve env = .ok raw) :
    s.deliver P resolve env = { s with queue := s.queue ++ [⟨raw, .delivered⟩] } := by
  unfold Traffic.deliver
  rw [h]

theorem take_of_forwarded {s : Traffic F} {raw : Bytes} {msg : RoutedMsg F} (queue : List Item)
    (source : Source)
    (h : (ingress P registry federation s.threads raw).2 = .routed (.forwarded msg)) :
    s.take P registry federation queue ⟨raw, source⟩ =
      s.join (registerThread s.threads (thread msg) (sender msg) msg.targetName) queue msg
        source := by
  have hi : ingress P registry federation s.threads raw =
      (registerThread s.threads (thread msg) (sender msg) msg.targetName,
        .routed (.forwarded msg)) := Prod.ext (ingress_forwarded P h).2 h
  unfold Traffic.take
  rw [hi]

theorem take_of_not_forwarded {s : Traffic F} {item : Item} (queue : List Item)
    (h : ∀ msg, (ingress P registry federation s.threads item.raw).2 ≠ .routed (.forwarded msg)) :
    s.take P registry federation queue item = { s with queue := queue } := by
  have ht := ingress_threads P h
  unfold Traffic.take
  split
  · next threads msg he => exact absurd (by rw [he]) (h msg)
  · next threads outcome _ he =>
    rw [he] at ht
    dsimp only at ht
    rw [ht]

theorem route_of_some {s : Traffic F} {i : ℕ} {item : Item} (h : s.queue[i]? = some item) :
    s.route P registry federation i =
      s.take P registry federation (s.queue.eraseIdx i) item := by
  unfold Traffic.route
  rw [h]

theorem handle_of_some {s : Traffic F} {i : ℕ} {w : Waiting F} (h : s.waiting[i]? = some w)
    (result : Option (Except PipelineError (HandlerResponse F))) (fresh : String) :
    s.handle P registry i result fresh =
      s.leave (s.waiting.eraseIdx i) (processResult P registry s.threads fresh w.msg result) := by
  unfold Traffic.handle
  rw [h]

theorem perform_route_eq {s t : Traffic F} {i : ℕ} {raw : Bytes} {source : Source}
    {msg : RoutedMsg F} (hitem : s.queue[i]? = some ⟨raw, source⟩)
    (hf : (ingress P registry federation s.threads raw).2 = .routed (.forwarded msg))
    (ht : s.join (registerThread s.threads (thread msg) (sender msg) msg.targetName)
      (s.queue.eraseIdx i) msg source = t) :
    s.perform P registry federation (.route i) = t := by
  rw [perform_route, route_of_some hitem, take_of_forwarded _ _ hf, ht]

theorem perform_handle_eq {s t : Traffic F} {i : ℕ} {w : Waiting F}
    {response : HandlerResponse F} {fresh : String} {ran : ThreadRegistry × List (Effect F)}
    (hw : s.waiting[i]? = some w)
    (hran : respond P registry s.threads fresh w.msg response = ran)
    (ht : s.leave (s.waiting.eraseIdx i) ran = t) :
    s.perform P registry federation (.handle i (some (.ok response)) fresh) = t := by
  have hresult : processResult P registry s.threads fresh w.msg (some (.ok response)) = ran := hran
  rw [perform_handle, handle_of_some hw, hresult, ht]

variable (P registry federation) in
/-- What the route stage does with an item. -/
theorem route_cases (s : Traffic F) (i : ℕ) :
    s.route P registry federation i = s ∨
      (∃ item msg, s.queue[i]? = some item ∧
        (ingress P registry federation s.threads item.raw).2 = .routed (.forwarded msg) ∧
        s.route P registry federation i =
          s.join (registerThread s.threads (thread msg) (sender msg) msg.targetName)
            (s.queue.eraseIdx i) msg item.source) ∨
      s.route P registry federation i = { s with queue := s.queue.eraseIdx i } := by
  cases hi : s.queue[i]? with
  | none =>
    refine .inl ?_
    unfold Traffic.route
    rw [hi]
  | some item =>
    rw [route_of_some hi]
    by_cases hf : ∃ msg, (ingress P registry federation s.threads item.raw).2 =
        .routed (.forwarded msg)
    · obtain ⟨msg, hf⟩ := hf
      exact .inr (.inl ⟨item, msg, rfl, hf, take_of_forwarded _ _ hf⟩)
    · exact .inr (.inr (take_of_not_forwarded _ fun msg h => hf ⟨msg, h⟩))

variable (P registry) in
theorem handle_cases (s : Traffic F) (i : ℕ)
    (result : Option (Except PipelineError (HandlerResponse F))) (fresh : String) :
    s.handle P registry i result fresh = s ∨
      ∃ w, s.waiting[i]? = some w ∧ s.handle P registry i result fresh =
        s.leave (s.waiting.eraseIdx i) (processResult P registry s.threads fresh w.msg result) := by
  cases hi : s.waiting[i]? with
  | none =>
    refine .inl ?_
    unfold Traffic.handle
    rw [hi]
  | some w => exact .inr ⟨w, rfl, handle_of_some hi result fresh⟩

/-- Nothing that handling emits is a delivery. -/
theorem source_of_emitted {effects : List (Effect F)} {item : Item}
    (h : item ∈ effects.flatMap emitted) : item.source ≠ .delivered := by
  obtain ⟨effect, _, h⟩ := List.mem_flatMap.mp h
  cases effect with
  | call env raw =>
    rw [List.mem_singleton.mp h]
    simp
  | answer env raw =>
    rw [List.mem_singleton.mp h]
    simp
  | onOpen caller callee thread kind => cases h
  | onClose thread => cases h

/-! ## The way up -/

/-- Where an answer up the chain goes. -/
theorem answer_up {threads : ThreadRegistry} {fresh : String} {msg : RoutedMsg F}
    (payload : Payload F) {out : Envelope F} {raw : Bytes}
    (h : .answer out raw ∈ (answerUp P threads fresh msg payload).2) :
    ∃ chain, threads.lookup (thread msg) = some chain ∧ '.' ∈ chain.toList ∧
      out.header.fromAddr = .flat msg.targetName ∧
      out.header.toAddr = some (.flat (returnHop chain)) := by
  obtain ⟨⟨prune, hp, rfl⟩, _⟩ := (mem_answerUp_iff P threads fresh msg payload out raw).mp h
  obtain ⟨chain, hc, hd⟩ := (pruneForResponse_isSome threads (thread msg) fresh).mp
    (Option.isSome_iff_exists.mpr ⟨prune, hp⟩)
  rw [show msg.envelope.header.thread = thread msg from rfl, pruneForResponse_some fresh hc hd,
    Option.some_inj] at hp
  subst hp
  exact ⟨chain, hc, hd, rfl, rfl⟩

theorem answerUp_of_chain {threads : ThreadRegistry} {msg : RoutedMsg F} {chain : String}
    (hl : threads.lookup (thread msg) = some chain) (hd : '.' ∈ chain.toList) (fresh : String)
    (payload : Payload F) : answerUp P threads fresh msg payload =
      ((threads.getOrCreate (parent '.' chain) fresh).2, [.onClose (thread msg),
        emitAnswer P (answerEnvelope msg ⟨returnHop chain,
          (threads.getOrCreate (parent '.' chain) fresh).1⟩ payload)]) := by
  have hp := pruneForResponse_some fresh hl hd
  unfold thread at hp
  unfold answerUp
  dsimp only
  rw [hp]
  rfl

/-- Every chain with a caller in it has its answer. -/
theorem answer_of_chain {threads : ThreadRegistry} {msg : RoutedMsg F} {chain : String}
    (hc : threads.lookup (thread msg) = some chain) (hd : '.' ∈ chain.toList) (fresh : String)
    (payload : Payload F) : ∃ out raw, .answer out raw ∈ (answerUp P threads fresh msg payload).2 ∧
      out.header.toAddr = some (.flat (returnHop chain)) := by
  have hp := congrArg Prod.fst (pruneForResponse_some fresh hc hd)
  exact ⟨_, _, (mem_answerUp_iff P threads fresh msg payload _ _).mpr ⟨⟨_, hp, rfl⟩, rfl⟩, rfl⟩

/-! ## The chains of a thread -/

/-- The message that is routed gives its thread a chain. -/
structure Opens (P : Platform F) (registry : ListenerRegistry F)
    (federation : Option PeerDirectory) (s : Traffic F) (i : ℕ) (msg : RoutedMsg F) : Prop where
  forwarded : ∃ item, s.queue[i]? = some item ∧
    (ingress P registry federation s.threads item.raw).2 = .routed (.forwarded msg)
  unused : s.threads.lookup (thread msg) = none
  free : s.threads.chainToUuid (s.threads.rootedChain (sender msg) msg.targetName) = none

theorem registerThread_lookup_of_ne {threads : ThreadRegistry} {threadId id : String}
    (f g : String) (hne : id ≠ threadId) :
    (registerThread threads threadId f g).lookup id = threads.lookup id := by
  unfold registerThread
  split
  · rfl
  · unfold ThreadRegistry.registerThread
    split_ifs
    · rfl
    · dsimp only
      split
      · rfl
      · exact Function.update_of_ne hne _ _

/-- A thread has the chain that it had, or is given one by the message that is routed. -/
theorem perform_lookup_cases {s : Traffic F} {e : Event F} {id chain : String}
    (hne : ∀ i result fresh, e = .handle i result fresh → id ≠ fresh)
    (h : (s.perform P registry federation e).threads.lookup id = some chain) :
    s.threads.lookup id = some chain ∨ ∃ i msg, e = .route i ∧
      Opens P registry federation s i msg ∧ thread msg = id ∧
        s.threads.rootedChain (sender msg) msg.targetName = chain := by
  cases e with
  | deliver resolve env =>
    obtain ⟨queue, hqueue⟩ := deliver_eq (P := P) s resolve env
    rw [perform_deliver, hqueue] at h
    exact .inl h
  | inject raw => exact .inl h
  | route i =>
    rw [perform_route] at h
    rcases route_cases P registry federation s i with
      hr | ⟨item, msg, hitem, hf, hr⟩ | hr
    · rw [hr] at h
      exact .inl h
    · rw [hr] at h
      change (registerThread s.threads (thread msg) (sender msg) msg.targetName).lookup id =
        some chain at h
      by_cases hid : id = thread msg
      · subst hid
        rcases (registerThread_lookup_iff _ _ _ _ _).mp h with h | ⟨hunused, hfree, hchain⟩
        · exact .inl h
        · exact .inr ⟨i, msg, rfl, ⟨⟨item, hitem, hf⟩, hunused, hfree⟩, rfl, hchain⟩
      · rw [registerThread_lookup_of_ne _ _ hid] at h
        exact .inl h
    · rw [hr] at h
      exact .inl h
  | handle i result fresh =>
    rw [perform_handle] at h
    rcases handle_cases P registry s i result fresh with hr | ⟨w, _, hr⟩
    · rw [hr] at h
      exact .inl h
    · rw [hr] at h
      exact .inl ((processResult_handled P registry _ _ _ _).lookup_of_ne (hne i result fresh rfl) h)

/-- A chain with a caller in it stays. -/
theorem perform_lookup {s : Traffic F} {e : Event F} {id chain : String}
    (hne : ∀ i result fresh, e = .handle i result fresh → id ≠ fresh)
    (h : s.threads.lookup id = some chain) (hd : '.' ∈ chain.toList) :
    (s.perform P registry federation e).threads.lookup id = some chain := by
  cases e with
  | deliver resolve env =>
    obtain ⟨queue, hqueue⟩ := deliver_eq (P := P) s resolve env
    rw [perform_deliver, hqueue]
    exact h
  | inject raw => exact h
  | route i =>
    rw [perform_route]
    rcases route_cases P registry federation s i with
      hr | ⟨item, msg, _, _, hr⟩ | hr
    · rw [hr]
      exact h
    · rw [hr]
      change (registerThread s.threads (thread msg) (sender msg) msg.targetName).lookup id =
        some chain
      by_cases hid : id = thread msg
      · rw [← hid, registerThread_of_some h]
        exact h
      · rw [registerThread_lookup_of_ne _ _ hid]
        exact h
    · rw [hr]
      exact h
  | handle i result fresh =>
    rw [perform_handle]
    rcases handle_cases P registry s i result fresh with hr | ⟨w, _, hr⟩
    · rw [hr]
      exact h
    · rw [hr]
      exact (processResult_handled P registry _ _ _ _).lookup_of_dotted (hne i result fresh rfl) h hd

/-! ## Who is behind a chain -/

/-- The name that an envelope's sender is known by has no separator in it. -/
theorem sender_plain {raw : Bytes} {msg : RoutedMsg F}
    (h : decodeEnvelope P raw = .ok msg.envelope) : '.' ∉ (sender msg).toList := by
  obtain ⟨s, hparse, _⟩ := CodecTotality.decodeEnvelope_sender P h
  unfold sender Address.organismName Address.organism
  cases hseg : msg.envelope.header.fromAddr.segments[
      msg.envelope.header.fromAddr.organismIndex]? with
  | none => simp
  | some segment =>
    have hnamed := AddressText.parse_named hparse segment (List.mem_of_getElem? hseg)
    intro hdot
    exact (hnamed.plain.2 '.' hdot).2.2 rfl

/-- Whom the thread that the message opens leads back to. -/
def openedBy (msg : RoutedMsg F) : String :=
  if '.' ∈ msg.targetName.toList then returnHop msg.targetName else sender msg

theorem returnHop_append {s t : String} (h : '.' ∈ t.toList) :
    returnHop (s ++ "." ++ t) = returnHop t := by
  have hsplit : split '.' (s ++ "." ++ t) = split '.' s ++ split '.' t := split_append s t
  have hlen := mem_iff_length_split.mp h
  have hne : split '.' t ≠ [] := split_ne_nil '.' t
  have hinit : (split '.' t).dropLast ≠ [] := by
    intro hnil
    have hzero := congrArg List.length hnil
    rw [List.length_dropLast, List.length_nil] at hzero
    omega
  unfold returnHop
  rw [hsplit, List.dropLast_append_of_ne_nil hne, List.getLastD_eq_getLast?,
    List.getLast?_append_of_ne_nil _ hinit, ← List.getLastD_eq_getLast?]

theorem returnHop_opened (threads : ThreadRegistry) {msg : RoutedMsg F}
    (hs : '.' ∉ (sender msg).toList) :
    returnHop (threads.rootedChain (sender msg) msg.targetName) = openedBy msg := by
  unfold openedBy
  split_ifs with ht
  · unfold ThreadRegistry.rootedChain
    split_ifs
    · have hcall : '.' ∈ (sender msg ++ "." ++ msg.targetName).toList := by simp
      rw [returnHop_append hcall, returnHop_append ht]
    · exact returnHop_append ht
  · exact returnHop_rootedChain threads hs ht

/-! ## Splits of a run -/

theorem cons_eq_split {a b : Event F} {as pre post : List (Event F)}
    (h : a :: as = pre ++ b :: post) :
    (pre = [] ∧ b = a ∧ post = as) ∨ ∃ pre', pre = a :: pre' ∧ as = pre' ++ b :: post := by
  cases pre with
  | nil =>
    rw [List.nil_append, List.cons.injEq] at h
    exact .inl ⟨rfl, h.1.symm, h.2.symm⟩
  | cons c pre =>
    rw [List.cons_append, List.cons.injEq] at h
    exact .inr ⟨pre, by rw [h.1], h.2⟩

end RustPipeline.ReturnHops
