import RustPipeline.ReturnHops

set_option autoImplicit false

/-!
# Conversation partners

The switchboard stamps one delivery thread on all messages of an instance. A reply to one of them
goes to the sender of the message that opened the thread.
-/
namespace RustPipeline.ConversationPartner
open Text Wire Codec CodecImage Handling Routing Registry Thread Federation Pipeline PipelineEffects
open Ingress Conversations RoundTrip FederatedReply ReturnHops PlainPlatform

variable {F : Type} (P : Platform F)

/-- The delivery thread that an event stamps, as it reads back. -/
def deliveryThread : Event F → Option String
  | .deliver resolve env => (env.header.toAddr.bind fun a => (resolve a).toOption).bind headerText
  | .inject _ => none
  | .route _ => none
  | .handle _ _ _ => none

/-- No delivery thread is in use at boot, and no generated id is one. -/
structure Apart (boot : ThreadRegistry) (events : List (Event F)) : Prop where
  unused : ∀ e ∈ events, ∀ d, deliveryThread e = some d → boot.lookup d = none
  ungenerated : ∀ e ∈ events, ∀ d, deliveryThread e = some d →
    ∀ i result fresh, .handle i result fresh ∈ events → d ≠ fresh

/-- Whatever a handler replies to a delivered message is addressed to the sender of the message. -/
def RightPartner (registry : ListenerRegistry F) (federation : Option PeerDirectory)
    (boot : ThreadRegistry) (events : List (Event F)) : Prop :=
  ∀ pre j payload fresh post,
    events = pre ++ .handle j (some (.ok (.reply payload))) fresh :: post →
      ∀ w, ((Traffic.boot boot).after P registry federation pre).waiting[j]? = some w →
        w.source = .delivered →
          ∀ out raw, .answer out raw ∈ (respond P registry
              ((Traffic.boot boot).after P registry federation pre).threads fresh w.msg
              (.reply payload)).2 →
            out.header.toAddr = some (.flat (sender w.msg))

/-- A delivered message whose handler replies is from the one that opened its thread. -/
def OneSender (registry : ListenerRegistry F) (federation : Option PeerDirectory)
    (boot : ThreadRegistry) (events : List (Event F)) : Prop :=
  ∀ first i mid j payload fresh post, events = first ++ .route i ::
      (mid ++ .handle j (some (.ok (.reply payload))) fresh :: post) →
    ∀ msg, Opens P registry federation ((Traffic.boot boot).after P registry federation first) i
        msg →
      ∀ w, ((Traffic.boot boot).after P registry federation
          (first ++ .route i :: mid)).waiting[j]? = some w →
        w.source = .delivered → thread w.msg = thread msg → sender w.msg = openedBy msg

/-! ## Where a delivered message comes from -/

/-- The switchboard has put these bytes on the ingress. -/
def Delivery (events : List (Event F)) (raw : Bytes) : Prop :=
  ∃ resolve env, .deliver resolve env ∈ events ∧ Switchboard.route P resolve env = .ok raw

/-- The delivered items and messages of a state are deliveries of the run. -/
structure Traced (events : List (Event F)) (s : Traffic F) : Prop where
  queue : ∀ item ∈ s.queue, item.source = .delivered → Delivery P events item.raw
  waiting : ∀ w ∈ s.waiting, w.source = .delivered →
    ∃ raw, Delivery P events raw ∧ decodeEnvelope P raw = .ok w.msg.envelope

variable {P} {registry : ListenerRegistry F} {federation : Option PeerDirectory}
  {boot : ThreadRegistry} {events : List (Event F)}

theorem deliveryThread_of_delivery (lawful : Lawful P) {raw : Bytes} {out : Envelope F}
    (h : Delivery P events raw) (hd : decodeEnvelope P raw = .ok out) :
    ∃ e ∈ events, deliveryThread e = some out.header.thread := by
  obtain ⟨resolve, env, he, hr⟩ := h
  refine ⟨_, he, ?_⟩
  unfold Switchboard.route at hr
  cases hto : env.header.toAddr with
  | none =>
    rw [hto] at hr
    cases hr
  | some toAddr =>
    simp only [hto] at hr
    cases hid : resolve toAddr with
    | error m =>
      rw [hid] at hr
      cases hr
    | ok id =>
      simp only [hid, Except.ok.injEq] at hr
      subst hr
      rw [decode_encode lawful, wireImage_eq_ok] at hd
      change (env.header.toAddr.bind fun a => (resolve a).toOption).bind headerText = _
      rw [hto, Option.bind_some, hid]
      have hread : headerText id = some out.header.thread := hd.2.2.1
      rw [← hread]
      rfl

theorem Traced.perform {s : Traffic F} {e : Event F} (h : Traced P events s) (he : e ∈ events) :
    Traced P events (s.perform P registry federation e) := by
  cases e with
  | deliver resolve env =>
    rw [perform_deliver]
    cases hr : Switchboard.route P resolve env with
    | error e =>
      unfold Traffic.deliver
      rw [hr]
      exact h
    | ok raw =>
      rw [deliver_of_ok hr]
      refine ⟨?_, h.waiting⟩
      intro item hitem hsource
      rcases List.mem_append.mp hitem with hitem | hitem
      · exact h.queue item hitem hsource
      · rw [List.mem_singleton.mp hitem]
        exact ⟨resolve, env, he, hr⟩
  | inject raw =>
    refine ⟨?_, h.waiting⟩
    intro item hitem hsource
    rcases List.mem_append.mp hitem with hitem | hitem
    · exact h.queue item hitem hsource
    · rw [List.mem_singleton.mp hitem] at hsource
      cases hsource
  | route i =>
    rw [perform_route]
    have hrest : ∀ item ∈ s.queue.eraseIdx i, item.source = .delivered →
        Delivery P events item.raw :=
      fun item hitem => h.queue item (List.mem_of_mem_eraseIdx hitem)
    rcases route_cases P registry federation s i with
      hr | ⟨item, msg, hitem, hf, hr⟩ | hr
    · rw [hr]
      exact h
    · rw [hr]
      refine ⟨hrest, ?_⟩
      intro w hw hsource
      rcases List.mem_append.mp hw with hw | hw
      · exact h.waiting w hw hsource
      · rw [List.mem_singleton.mp hw] at hsource ⊢
        exact ⟨item.raw, h.queue item (List.mem_of_getElem? hitem) hsource,
          (ingress_forwarded P hf).1⟩
    · rw [hr]
      exact ⟨hrest, h.waiting⟩
  | handle i result fresh =>
    rw [perform_handle]
    rcases handle_cases P registry s i result fresh with hr | ⟨w, _, hr⟩
    · rw [hr]
      exact h
    · rw [hr]
      constructor
      · intro item hitem hsource
        rcases List.mem_append.mp hitem with hitem | hitem
        · exact h.queue item hitem hsource
        · exact absurd hsource (source_of_emitted hitem)
      · intro v hv
        exact h.waiting v (List.mem_of_mem_eraseIdx hv)

variable (P registry federation) in
theorem traced_after (boot : ThreadRegistry) (pre post : List (Event F))
    (he : events = pre ++ post) :
    Traced P events ((Traffic.boot boot).after P registry federation pre) := by
  induction pre using List.reverseRecOn generalizing post with
  | nil =>
    constructor
    · intro item hitem
      cases hitem
    · intro w hw
      cases hw
  | append_singleton pre e ih =>
    rw [List.append_assoc] at he
    rw [after_concat]
    exact (ih _ he).perform (by rw [he]; simp)

/-! ## The chain of a delivery thread -/

/-- Only a message that is routed gives a delivery thread its chain. -/
theorem opened_before (h : Apart boot events) {d : String}
    (hd : ∃ e ∈ events, deliveryThread e = some d) {chain : String} (pre post : List (Event F))
    (he : events = pre ++ post)
    (hl : ((Traffic.boot boot).after P registry federation pre).threads.lookup d = some chain) :
    ∃ first i mid msg, pre = first ++ .route i :: mid ∧
      Opens P registry federation ((Traffic.boot boot).after P registry federation first) i msg ∧
      thread msg = d ∧ ((Traffic.boot boot).after P registry federation first).threads.rootedChain
        (sender msg) msg.targetName = chain := by
  obtain ⟨stamped, hstamped, hthread⟩ := hd
  induction pre using List.reverseRecOn generalizing post with
  | nil =>
    have hnone := h.unused stamped hstamped d hthread
    cases hnone.symm.trans hl
  | append_singleton pre e ih =>
    rw [List.append_assoc] at he
    rw [after_concat] at hl
    have hne : ∀ i result fresh, e = .handle i result fresh → d ≠ fresh := by
      intro i result fresh hh
      exact h.ungenerated stamped hstamped d hthread i result fresh (by rw [he, hh]; simp)
    rcases perform_lookup_cases hne hl with hl | ⟨i, msg, rfl, hopens, hid, hchain⟩
    · obtain ⟨first, i, mid, msg, rfl, hopens⟩ := ih _ he hl
      exact ⟨first, i, mid ++ [e], msg, by simp, hopens⟩
    · exact ⟨pre, i, [], msg, rfl, hopens, hid, hchain⟩

/-- The chain with which a delivery thread is opened stays. -/
theorem lookup_of_opened (h : Apart boot events) {first : List (Event F)} {i : ℕ}
    {msg : RoutedMsg F} (hd : ∃ e ∈ events, deliveryThread e = some (thread msg))
    (hopens : Opens P registry federation ((Traffic.boot boot).after P registry federation first) i
      msg) (mid post : List (Event F)) (he : events = first ++ .route i :: (mid ++ post)) :
    ((Traffic.boot boot).after P registry federation
        (first ++ .route i :: mid)).threads.lookup (thread msg) =
      some (((Traffic.boot boot).after P registry federation first).threads.rootedChain
        (sender msg) msg.targetName) := by
  obtain ⟨stamped, hstamped, hthread⟩ := hd
  induction mid using List.reverseRecOn generalizing post with
  | nil =>
    obtain ⟨⟨⟨raw, source⟩, hitem, hf⟩, hunused, hfree⟩ := hopens
    rw [after_concat, perform_route, route_of_some hitem, take_of_forwarded _ _ hf]
    exact (registerThread_lookup_iff _ _ _ _ _).mpr (.inr ⟨hunused, hfree, rfl⟩)
  | append_singleton mid e ih =>
    rw [List.append_assoc] at he
    have hne : ∀ i result fresh, e = .handle i result fresh → thread msg ≠ fresh := by
      intro i result fresh hh
      exact h.ungenerated stamped hstamped _ hthread i result fresh (by rw [he, hh]; simp)
    have hrun : first ++ .route i :: (mid ++ [e]) = (first ++ .route i :: mid) ++ [e] := by simp
    rw [hrun, after_concat]
    exact perform_lookup hne (ih _ he) (rootedChain_dot _ _ _)

theorem flat_inj {f g : String} (h : Address.flat f = .flat g) : f = g :=
  congrArg Address.organismName h

theorem openedBy_of_opens {s : Traffic F} {i : ℕ} {msg : RoutedMsg F}
    (h : Opens P registry federation s i msg) :
    returnHop (s.threads.rootedChain (sender msg) msg.targetName) = openedBy msg := by
  obtain ⟨item, _, hf⟩ := h.forwarded
  exact returnHop_opened _ (sender_plain (ingress_forwarded P hf).1)

/-- Along a run, whatever the handlers answer, every reply to a delivered message goes to its sender
    exactly when on each delivery thread the messages whose handlers reply are from the one that
    opened it. -/
theorem right_partner_run_iff (lawful : Lawful P) (registry : ListenerRegistry F)
    (federation : Option PeerDirectory) (h : Apart boot events) :
    RightPartner P registry federation boot events ↔
      OneSender P registry federation boot events := by
  constructor
  · intro hright first i mid j payload fresh post he msg hopens w hw hsource hthread
    have hsplit : events = (first ++ .route i :: mid) ++
        .handle j (some (.ok (.reply payload))) fresh :: post := by
      rw [he]
      simp
    obtain ⟨raw, hdelivery, hdecode⟩ :=
      (traced_after P registry federation boot _ _
        hsplit).waiting w (List.mem_of_getElem? hw) hsource
    have hd := deliveryThread_of_delivery lawful hdelivery hdecode
    change ∃ e ∈ events, deliveryThread e = some (thread w.msg) at hd
    rw [hthread] at hd
    have hl := lookup_of_opened h hd hopens mid _ he
    rw [← hthread] at hl
    obtain ⟨out, raw, hm, hto⟩ := answer_of_chain (P := P) hl (rootedChain_dot _ _ _) fresh payload
    have hs := hright _ j payload fresh post hsplit w hw hsource out raw hm
    rw [hto, openedBy_of_opens hopens] at hs
    exact (flat_inj (Option.some_inj.mp hs)).symm
  · intro hone pre j payload fresh post he w hw hsource out raw hm
    obtain ⟨chain, hl, _, _, hto⟩ := answer_up payload hm
    obtain ⟨bytes, hdelivery, hdecode⟩ :=
      (traced_after P registry federation boot _ _
        he).waiting w (List.mem_of_getElem? hw) hsource
    have hd := deliveryThread_of_delivery lawful hdelivery hdecode
    obtain ⟨first, i, mid, msg, rfl, hopens, hthread, rfl⟩ := opened_before h hd pre _ he hl
    have hsender := hone first i mid j payload fresh post (by rw [he]; simp) msg hopens w hw hsource
      hthread.symm
    rw [hto, openedBy_of_opens hopens, hsender]

/-! ## One sender and two senders to an instance -/

def bobDesk : Address := ⟨[⟨"bob", some "desk"⟩]⟩

def greet (fromName thread : String) : Envelope UInt32 :=
  ⟨⟨.flat fromName, some bobDesk, thread, .empty⟩, ⟨"Greeting", .text "hi"⟩⟩

def greeted (fromName : String) : RoutedMsg UInt32 :=
  ⟨greet fromName "d1", ⟨"Greeting", .text "hi"⟩, "bob"⟩

/-- What the switchboard puts on the ingress: the delivery thread of the instance is `d1`. -/
def stamped (fromName : String) : Bytes := encodeEnvelope plain (greet fromName "d1")

def delivery (fromName : String) : Event UInt32 :=
  .deliver (fun _ => .ok "d1") (greet fromName "t0")

def greetingReply : Payload UInt32 := ⟨"GreetingReply", .text "hi"⟩

def replied (i : ℕ) (fresh : String) : Event UInt32 :=
  .handle i (some (.ok (.reply greetingReply))) fresh

theorem route_greet (fromName : String) :
    Switchboard.route plain (fun _ => .ok "d1") (greet fromName "t0") = .ok (stamped fromName) :=
  rfl

theorem decode_alice : decodeEnvelope plain (stamped "alice") = .ok (greet "alice" "d1") := by
  rw [stamped]
  exact decode_of_image rfl

theorem decode_carol : decodeEnvelope plain (stamped "carol") = .ok (greet "carol" "d1") := by
  rw [stamped]
  exact decode_of_image rfl

theorem greet_forwarded {fromName : String}
    (hd : decodeEnvelope plain (stamped fromName) = .ok (greet fromName "d1"))
    (threads : ThreadRegistry) :
    (ingress plain bobOnly.registry none threads (stamped fromName)).2 =
      .routed (.forwarded (greeted fromName)) :=
  (ingress_forwarded_iff plain _ _ _ _ _).mpr ⟨greet fromName "d1", _,
    ⟨hd, rfl, rfl, RoutingTable.resolve_register_of_free false [] rfl⟩,
    ListenerRegistry.not_refuses_build (by simp [bob]) _ _, rfl⟩

/-- The registry once alice's message is routed. -/
def opened : ThreadRegistry := registerThread .new "d1" "alice" "bob"

/-- Two messages for `bob[desk]`, delivered. -/
def twoDelivered (second : String) : Traffic UInt32 :=
  ⟨.new, [⟨stamped "alice", .delivered⟩, ⟨stamped second, .delivered⟩], [], []⟩

def oneRouted (second : String) : Traffic UInt32 :=
  ⟨opened, [⟨stamped second, .delivered⟩], [⟨greeted "alice", .delivered⟩],
    [⟨"alice", "bob", "d1"⟩]⟩

def bothRouted (second : String) : Traffic UInt32 :=
  ⟨opened, [], [⟨greeted "alice", .delivered⟩, ⟨greeted second, .delivered⟩],
    [⟨"alice", "bob", "d1"⟩, ⟨second, "bob", "d1"⟩]⟩

theorem route_first (second : String) :
    (twoDelivered second).route plain bobOnly.registry none 0 = oneRouted second := by
  have hitem : (twoDelivered second).queue[0]? = some ⟨stamped "alice", .delivered⟩ := rfl
  have hf : (ingress plain bobOnly.registry none (twoDelivered second).threads
      (stamped "alice")).2 = .routed (.forwarded (greeted "alice")) :=
    greet_forwarded decode_alice _
  rw [route_of_some hitem, take_of_forwarded _ _ hf]
  rfl

theorem route_second {second : String}
    (hd : decodeEnvelope plain (stamped second) = .ok (greet second "d1")) :
    (oneRouted second).route plain bobOnly.registry none 0 = bothRouted second := by
  have hitem : (oneRouted second).queue[0]? = some ⟨stamped second, .delivered⟩ := rfl
  have hf : (ingress plain bobOnly.registry none (oneRouted second).threads
      (stamped second)).2 = .routed (.forwarded (greeted second)) := greet_forwarded hd _
  rw [route_of_some hitem, take_of_forwarded _ _ hf]
  rfl

theorem deliver_greet (s : Traffic UInt32) (fromName : String) :
    s.perform plain bobOnly.registry none (delivery fromName) =
      { s with queue := s.queue ++ [⟨stamped fromName, .delivered⟩] } :=
  deliver_of_ok (route_greet fromName)

theorem after_deliveries (second : String) :
    (Traffic.boot .new).after plain bobOnly.registry none [delivery "alice", delivery second] =
      twoDelivered second := by
  rw [after_cons, after_cons, after_nil, deliver_greet, deliver_greet]
  rfl

theorem after_first_route (second : String) :
    (Traffic.boot .new).after plain bobOnly.registry none
      [delivery "alice", delivery second, .route 0] = oneRouted second := by
  rw [show [delivery "alice", delivery second, .route 0] =
    [delivery "alice", delivery second] ++ [.route 0] from rfl, after_concat, after_deliveries,
    perform_route, route_first]

theorem after_both_routes {second : String}
    (hd : decodeEnvelope plain (stamped second) = .ok (greet second "d1")) :
    (Traffic.boot .new).after plain bobOnly.registry none
      [delivery "alice", delivery second, .route 0, .route 0] = bothRouted second := by
  rw [show [delivery "alice", delivery second, .route 0, .route 0] =
    [delivery "alice", delivery second, .route 0] ++ [.route 0] from rfl, after_concat,
    after_first_route, perform_route, route_second hd]

/-- Two messages of alice, and bob's reply to each. -/
def aliceTwice : List (Event UInt32) :=
  [delivery "alice", delivery "alice", .route 0, .route 0, replied 0 "u1", replied 0 "u2"]

/-- A message of alice and one of carol, and bob's reply to carol's. -/
def aliceAndCarol : List (Event UInt32) :=
  [delivery "alice", delivery "carol", .route 0, .route 0, replied 1 "u1"]

theorem aliceTwice_apart : Apart .new aliceTwice := by
  constructor
  · intro e _ d _
    rfl
  · intro e he d hd i result fresh hfresh
    have hthread : d = "d1" := by
      simp only [aliceTwice, List.mem_cons, List.not_mem_nil, or_false] at he
      rcases he with rfl | rfl | rfl | rfl | rfl | rfl <;> cases hd <;> rfl
    have hgenerated : fresh = "u1" ∨ fresh = "u2" := by
      have hmem := hfresh
      simp only [aliceTwice, delivery, replied, List.mem_cons, reduceCtorEq, false_or,
        Event.handle.injEq, List.not_mem_nil, or_false] at hmem
      exact hmem.imp (fun h => h.2.2) fun h => h.2.2
    rw [hthread]
    rcases hgenerated with rfl | rfl
    · decide
    · decide

/-- Only alice's messages wait, and one of them has opened the thread. -/
theorem aliceTwice_one_sender : OneSender plain bobOnly.registry none .new aliceTwice := by
  intro first i mid j payload fresh post he msg hopens w hw hsource _
  have hsplit : aliceTwice = (first ++ .route i :: mid) ++
      .handle j (some (.ok (.reply payload))) fresh :: post := by
    rw [he]
    simp
  have hwaiting : sender w.msg = "alice" := by
    obtain ⟨raw, ⟨resolve, env, hdeliver, hr⟩, hdecode⟩ :=
      (traced_after plain bobOnly.registry none .new _ _
        hsplit).waiting w (List.mem_of_getElem? hw) hsource
    have halice : Event.deliver resolve env = delivery "alice" := by
      simpa [aliceTwice, replied] using hdeliver
    obtain ⟨rfl, rfl⟩ := Event.deliver.inj halice
    obtain rfl := Except.ok.inj hr
    have henv := Except.ok.inj (decode_alice.symm.trans hdecode)
    unfold sender
    rw [← henv]
    rfl
  have hopener : ∀ s : Traffic UInt32, (∀ item ∈ s.queue, item.raw = stamped "alice") →
      Opens plain bobOnly.registry none s i msg → openedBy msg = "alice" := by
    intro s hqueue h
    obtain ⟨item, hitem, hf⟩ := h.forwarded
    rw [hqueue item (List.mem_of_getElem? hitem)] at hf
    have hmsg := (greet_forwarded decode_alice s.threads).symm.trans hf
    obtain rfl := RouteOutcome.forwarded.inj (IngressOutcome.routed.inj hmsg)
    rfl
  rw [hwaiting]
  symm
  rcases cons_eq_split he with ⟨_, hr, _⟩ | ⟨rest, rfl, h1⟩
  · cases hr
  rcases cons_eq_split h1 with ⟨_, hr, _⟩ | ⟨rest, rfl, h2⟩
  · cases hr
  rcases cons_eq_split h2 with ⟨rfl, _, _⟩ | ⟨rest, rfl, h3⟩
  · have hstate := after_deliveries "alice"
    refine hopener (twoDelivered "alice") ?_ (hstate ▸ hopens)
    intro item hitem
    simp only [twoDelivered, List.mem_cons, List.not_mem_nil, or_false, or_self] at hitem
    rw [hitem]
  rcases cons_eq_split h3 with ⟨rfl, hr, _⟩ | ⟨rest, rfl, h4⟩
  · have hstate := after_first_route "alice"
    refine hopener (oneRouted "alice") ?_ (hstate ▸ hopens)
    intro item hitem
    rw [List.mem_singleton.mp hitem]
  rcases cons_eq_split h4 with ⟨_, hr, _⟩ | ⟨rest, rfl, h5⟩
  · cases hr
  rcases cons_eq_split h5 with ⟨_, hr, _⟩ | ⟨rest, rfl, h6⟩
  · cases hr
  · simp at h6

/-- Once bob has replied to her first message, alice has a chain of her own. -/
def oneReplied : Traffic UInt32 :=
  (bothRouted "alice").leave [⟨greeted "alice", .delivered⟩]
    (respond plain bobOnly.registry opened "u1" (greeted "alice") (.reply greetingReply))

theorem after_one_reply :
    (Traffic.boot .new).after plain bobOnly.registry none
      [delivery "alice", delivery "alice", .route 0, .route 0, replied 0 "u1"] = oneReplied := by
  have hw : (bothRouted "alice").waiting[0]? = some ⟨greeted "alice", .delivered⟩ := rfl
  rw [show [delivery "alice", delivery "alice", .route 0, .route 0, replied 0 "u1"] =
    [delivery "alice", delivery "alice", .route 0, .route 0] ++ [replied 0 "u1"] from rfl,
    after_concat, after_both_routes decode_alice, replied, perform_handle, handle_of_some hw]
  rfl

theorem oneReplied_lookup : oneReplied.threads.lookup "d1" = some "alice.bob" := by
  have hprune : oneReplied.threads = (opened.pruneForResponse "d1" "u1").2 :=
    answerUp_threads plain opened "u1" (greeted "alice") greetingReply
  rw [hprune]
  rfl

/-- Both replies go to alice, the second on the thread that her first message has opened. -/
theorem right_partner_alice :
    Apart .new aliceTwice ∧ RightPartner plain bobOnly.registry none .new aliceTwice ∧
      ∃ out raw, .answer out raw ∈ (respond plain bobOnly.registry oneReplied.threads "u2"
        (greeted "alice") (.reply greetingReply)).2 ∧ out.header.toAddr = some (.flat "alice") := by
  have hright : RightPartner plain bobOnly.registry none .new aliceTwice :=
    (right_partner_run_iff plain_lawful bobOnly.registry none aliceTwice_apart).mpr
      aliceTwice_one_sender
  obtain ⟨out, raw, hm, _⟩ := answer_of_chain (P := plain) 
    (show oneReplied.threads.lookup (thread (greeted "alice")) = _ from oneReplied_lookup)
    (by decide) "u2" greetingReply
  refine ⟨aliceTwice_apart, hright, out, raw, hm, ?_⟩
  refine hright [delivery "alice", delivery "alice", .route 0, .route 0, replied 0 "u1"] 0
    greetingReply "u2" [] rfl ⟨greeted "alice", .delivered⟩ ?_ rfl out raw ?_
  · rw [after_one_reply]
    rfl
  · rw [after_one_reply]
    exact hm

/-- Carol's message waits on the thread that alice's has opened, and the reply to it goes to
    alice. -/
theorem wrong_partner_carol :
    Switchboard.route plain (fun _ => .ok "d1") (greet "alice" "t0") = .ok (stamped "alice") ∧
    Switchboard.route plain (fun _ => .ok "d1") (greet "carol" "t0") = .ok (stamped "carol") ∧
    (Traffic.boot .new).after plain bobOnly.registry none
      [delivery "alice", delivery "carol", .route 0, .route 0] = bothRouted "carol" ∧
    (∃ out raw, .answer out raw ∈ (respond plain bobOnly.registry (bothRouted "carol").threads "u1"
      (greeted "carol") (.reply greetingReply)).2 ∧ out.header.toAddr = some (.flat "alice")) ∧
    ¬ RightPartner plain bobOnly.registry none .new aliceAndCarol := by
  have hrun := after_both_routes decode_carol
  have hlookup : (bothRouted "carol").threads.lookup (thread (greeted "carol")) =
      some "alice.bob" := rfl
  have hanswer := answer_of_chain (P := plain) hlookup (by decide) "u1" greetingReply
  refine ⟨route_greet "alice", route_greet "carol", hrun, hanswer, ?_⟩
  intro h
  obtain ⟨out, raw, hm, hto⟩ := hanswer
  have hs := h [delivery "alice", delivery "carol", .route 0, .route 0] 1 greetingReply "u1" [] rfl
    ⟨greeted "carol", .delivered⟩ (by rw [hrun]; rfl) rfl out raw (by rw [hrun]; exact hm)
  rw [hto] at hs
  have hne : "alice" = "carol" := flat_inj (Option.some_inj.mp hs)
  revert hne
  decide

end RustPipeline.ConversationPartner
