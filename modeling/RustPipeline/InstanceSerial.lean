import RustPipeline.ConversationPartner
import RustPipeline.Interleaving

set_option autoImplicit false

/-!
# One message of an instance at a time

The workers are serial for each thread id. They are serial for each instance when every message is
routed on the thread id of the unfinished messages to its instance; the switchboard's delivery
thread and the extended chain of a call are two thread ids for one instance.
-/
namespace RustPipeline.InstanceSerial
open Text Wire Codec CodecImage Routing Registry Thread Federation Pipeline Ingress CallReturn
open ConversationPartner Interleaving Lanes TransitionSystem PlainPlatform

variable {F : Type}

/-- An `organism[key]` address. -/
def Keyed (a : Address) : Prop := ∃ s ∈ a.segments, s.key.isSome

/-- The instance that a message is addressed to. -/
def addressee (msg : RoutedMsg F) : Option Address :=
  msg.envelope.header.toAddr.map Address.instanceAddress

/-- At most one handler works on a message to the instance. -/
def OneAtATime (s : State F) : Prop :=
  ∀ a, Keyed a → ∀ k k' job job', s.running k = some job → s.running k' = some job' →
    addressee job.msg = some a → addressee job'.msg = some a → k = k'

variable (P : Platform F)

/-- A message to an instance is routed on the thread id of the unfinished ones. -/
def SameThread (registry : ListenerRegistry F) (federation : Option PeerDirectory) (s : State F) :
    Event F → Prop
  | .route => ∀ item rest, s.queue = item :: rest → ∀ msg,
      (ingress P registry federation s.threads item.raw).2 = .routed (.forwarded msg) →
        ∀ a, Keyed a → addressee msg = some a → ∀ job, Unfinished s job →
          addressee job.msg = some a → job.thread = Dispatch.key msg
  | _ => True

/-- The unfinished messages of an instance have one thread id. -/
def Together (s : State F) : Prop :=
  ∀ a, Keyed a → ∀ job job', Unfinished s job → Unfinished s job' →
    addressee job.msg = some a → addressee job'.msg = some a → job.thread = job'.thread

variable {P} {registry : ListenerRegistry F} {federation : Option PeerDirectory}

theorem Together.mono {s t : State F} (h : Together s)
    (hu : ∀ job, Unfinished t job → Unfinished s job) : Together t :=
  fun a ha job job' hj hj' => h a ha job job' (hu job hj) (hu job' hj')

theorem Together.step {s t : State F} {e : Event F} (h : Together s)
    (hc : SameThread P registry federation s e) (hs : Step P registry federation s e t) :
    Together t := by
  cases hs with
  | inject raw => exact h.mono fun _ hu => hu
  | route item rest hq =>
    -- two new messages are the same, and a new one meets the condition with the old ones
    have hnew := hc item rest hq
    intro a ha job job' hj hj' hi hi'
    rcases unfinished_take hj with hold | ⟨hf, _⟩
    · rcases unfinished_take hj' with hold' | ⟨hf', _⟩
      · exact h a ha job job' hold hold' hi hi'
      · exact hnew _ hf' a ha hi' job hold hi
    · rcases unfinished_take hj' with hold' | ⟨hf', _⟩
      · exact (hnew _ hf a ha hi job' hold' hi').symm
      · have hmsg := hf.symm.trans hf'
        simp only [IngressOutcome.routed.injEq, RouteOutcome.forwarded.injEq] at hmsg
        unfold Job.thread
        rw [hmsg]
  | accept job rest hr => exact h.mono fun _ hu => unfinished_accept hr hu
  | start k job fin rest hl hp => exact h.mono fun _ hu => unfinished_start hl hu
  | handled k job result hr hp hh => exact h.mono fun _ hu => hu
  | prune k fresh job payload hr hp => exact h.mono fun _ hu => hu
  | extend k fresh job kind toAddr payload hr hp => exact h.mono fun _ hu => hu
  | emit k job call effect rest hr hp => exact h.mono fun _ hu => hu
  | finish k job call fin rest hl hp => exact h.mono fun _ hu => unfinished_finish hl hu

theorem together_of_reachable {s : State F}
    (hs : Reachable (guarded P registry federation (SameThread P registry federation)) s) :
    Together s := by
  refine hs.invariant ?_ ?_
  · intro s h a _ job _ hj
    obtain ⟨threads, rfl⟩ := h
    rcases hj with hj | ⟨k, hj | hj⟩ <;> cases hj
  · intro s t h hst
    obtain ⟨e, hc, he⟩ := hst
    exact h.step hc he

/-- In every run that routes each message to an instance on the thread id of the unfinished ones,
    at most one handler works on a message to an instance. -/
theorem one_at_a_time {s : State F}
    (hs : Reachable (guarded P registry federation (SameThread P registry federation)) s) :
    OneAtATime s := by
  intro a ha k k' job job' hk hk' hi hi'
  have hthread : ∀ {i : String} {j : Job F}, s.running i = some j → j.thread = i := by
    intro i j hj
    refine thread_of_contents hs ?_
    change (s.lanes.lane i).running = some j at hj
    unfold Lane.contents
    rw [hj]
    simp
  rw [← hthread hk, ← hthread hk']
  exact together_of_reachable hs a ha job job' (.inr ⟨k, .inl hk⟩) (.inr ⟨k', .inl hk'⟩) hi hi'

/-- A step that forwards a message keeps it on the thread of the unfinished ones to its instance. -/
theorem sameThread_route {s : State F} {raw : Bytes} {origin : Origin F} {rest : List (Item F)}
    {threads : ThreadRegistry} {msg : RoutedMsg F} (hq : s.queue = ⟨raw, origin⟩ :: rest)
    (hf : ingress P registry federation s.threads raw = (threads, .routed (.forwarded msg)))
    (hc : ∀ job, Unfinished s job → job.thread = Dispatch.key msg) :
    SameThread P registry federation s .route := by
  intro item rest' hi msg' hm a _ _ job hj _
  rw [hq] at hi
  obtain ⟨rfl, -⟩ := List.cons.inj hi
  rw [hf] at hm
  cases hm
  exact hc job hj

theorem unfinished_begun {s : State F} {threads : ThreadRegistry} {job j : Job F}
    {rest : List (Item F)} {fin : List (Job F)} (h : Unfinished (s.begun threads job rest fin) j) :
    Unfinished s j ∨ j = job := by
  rcases h with h | ⟨k, h⟩
  · cases h
  · change (Function.update (accepted job s.lanes).lane job.thread _ k).running = some j ∨
      j ∈ (Function.update (accepted job s.lanes).lane job.thread _ k).waiting at h
    by_cases hk : k = job.thread
    · rw [hk, Function.update_self] at h
      rcases h with h | h
      · exact .inr (Option.some_inj.mp h).symm
      · cases h
    · rw [Function.update_of_ne hk] at h
      change (Function.update s.lanes.lane job.thread _ k).running = some j ∨
        j ∈ (Function.update s.lanes.lane job.thread _ k).waiting at h
      rw [Function.update_of_ne hk] at h
      exact .inl (.inr ⟨k, h⟩)

theorem unfinished_boot {s : State F} (hr : s.routed = []) (hl : ∀ k, s.lanes.lane k = .empty)
    (job : Job F) : ¬ Unfinished s job := by
  rintro (h | ⟨k, h | h⟩)
  · rw [hr] at h
    cases h
  · unfold State.running at h
    rw [hl] at h
    cases h
  · rw [hl] at h
    cases h

/-! ## The switchboard and a call to one instance -/

/-- An order for `bob[desk]`. Alice's own is `asked bobDesk`. -/
def order (fromName thread : String) : Envelope UInt32 :=
  ⟨⟨.flat fromName, some bobDesk, thread, .empty⟩, ⟨"Order", .nil⟩⟩

def orderRouted (fromName thread : String) : RoutedMsg UInt32 :=
  ⟨order fromName thread, ⟨"Order", .nil⟩, "bob"⟩

/-- What the switchboard puts on the ingress when the delivery thread of the instance is `d1`. -/
def stamped : Bytes := encodeEnvelope plain (order "carol" "d1")

theorem route_stamped : Switchboard.route plain (fun _ => .ok "d1") (order "carol" "t0") =
    .ok stamped := rfl

theorem decode_stamped : decodeEnvelope plain stamped = .ok (order "carol" "d1") := by
  rw [stamped]
  exact decode_of_image rfl

theorem decode_asked_desk : decodeEnvelope plain (encodeEnvelope plain (order "alice" "u1")) =
    .ok (order "alice" "u1") :=
  decode_of_image rfl

theorem order_forwarded {fromName thread : String}
    (hd : decodeEnvelope plain (encodeEnvelope plain (order fromName thread)) =
      .ok (order fromName thread)) (threads : ThreadRegistry) :
    ingress plain (desk bobDesk).registry none threads
        (encodeEnvelope plain (order fromName thread)) =
      (registerThread threads thread fromName "bob",
        .routed (.forwarded (orderRouted fromName thread))) := by
  have hf : (ingress plain (desk bobDesk).registry none threads
      (encodeEnvelope plain (order fromName thread))).2 =
        .routed (.forwarded (orderRouted fromName thread)) := desk_forwards_order hd rfl threads
  exact Prod.ext (ingress_forwarded plain hf).2 hf

/-- The runs of alice's desk. -/
abbrev deskRuns (condition : State UInt32 → Event UInt32 → Prop) : System (State UInt32) :=
  guarded plain (desk bobDesk).registry none condition

/-- The delivery thread is registered. -/
def delivered : ThreadRegistry := registerThread .new "d1" "carol" "bob"

def visited : Bytes := encodeEnvelope plain visit

/-- The stamped order and the visit to alice are on the ingress. -/
def arrivals : State UInt32 :=
  { State.boot .new with queue := [⟨stamped, .outside⟩, ⟨visited, .outside⟩] }

/-- Bob works on carol's order. -/
def bobBusy : State UInt32 :=
  arrivals.begun delivered ⟨orderRouted "carol" "d1", .outside⟩ [⟨visited, .outside⟩] []

theorem stamped_forwarded : ingress plain (desk bobDesk).registry none .new stamped =
    (delivered, .routed (.forwarded (orderRouted "carol" "d1"))) :=
  order_forwarded decode_stamped .new

theorem bobBusy_reachable : Reachable (deskRuns fun _ _ => True) bobBusy := by
  have h0 : Reachable (deskRuns fun _ _ => True) (State.boot .new) := .start ⟨.new, rfl⟩
  have h1 := h0.next ⟨_, trivial, .inject _ stamped⟩
  have h2 : Reachable (deskRuns fun _ _ => True) arrivals :=
    h1.next ⟨_, trivial, .inject _ visited⟩
  have hq : arrivals.queue = ⟨stamped, .outside⟩ :: [⟨visited, .outside⟩] := rfl
  exact begun_of_idle h2 hq rfl stamped_forwarded rfl rfl trivial fun _ => ⟨trivial, trivial⟩

/-- What the switchboard puts on the ingress for dave. -/
def daves : Bytes := encodeEnvelope plain (order "dave" "d1")

theorem decode_daves : decodeEnvelope plain (encodeEnvelope plain (order "dave" "d1")) =
    .ok (order "dave" "d1") :=
  decode_of_image rfl

theorem daves_forwarded : ingress plain (desk bobDesk).registry none delivered daves =
    (delivered, .routed (.forwarded (orderRouted "dave" "d1"))) :=
  order_forwarded decode_daves delivered

/-- Two orders for the instance are on the ingress. -/
def orders : State UInt32 :=
  { State.boot .new with queue := [⟨stamped, .outside⟩, ⟨daves, .outside⟩] }

/-- Bob works on carol's. -/
def carolFirst : State UInt32 :=
  orders.begun delivered ⟨orderRouted "carol" "d1", .outside⟩ [⟨daves, .outside⟩] []

/-- Dave's is in the same lane. -/
def daveWaits : State UInt32 :=
  { carolFirst with
    queue := []
    lanes := accepted ⟨orderRouted "dave" "d1", .outside⟩ carolFirst.lanes }

theorem daveWaits_reachable :
    Reachable (deskRuns (SameThread plain (desk bobDesk).registry none)) daveWaits := by
  have h0 : Reachable (deskRuns (SameThread plain (desk bobDesk).registry none))
      (State.boot .new) := .start ⟨.new, rfl⟩
  have h1 := h0.next ⟨.inject stamped, trivial, .inject _ _⟩
  have h2 : Reachable (deskRuns (SameThread plain (desk bobDesk).registry none)) orders :=
    h1.next ⟨.inject daves, trivial, .inject _ _⟩
  have hq : orders.queue = ⟨stamped, .outside⟩ :: [⟨daves, .outside⟩] := rfl
  have hfirst : SameThread plain (desk bobDesk).registry none orders .route :=
    sameThread_route hq stamped_forwarded fun job hj =>
      absurd hj (unfinished_boot rfl (fun _ => rfl) job)
  have h3 : Reachable (deskRuns (SameThread plain (desk bobDesk).registry none)) carolFirst :=
    begun_of_idle h2 hq rfl stamped_forwarded rfl rfl hfirst fun _ => ⟨trivial, trivial⟩
  have hq' : carolFirst.queue = [⟨daves, .outside⟩] := rfl
  have hthreads : carolFirst.threads = delivered := rfl
  have hf := daves_forwarded
  rw [← hthreads] at hf
  have hsecond : SameThread plain (desk bobDesk).registry none carolFirst .route := by
    refine sameThread_route hq' hf ?_
    intro job hj
    rcases unfinished_begun hj with hj | rfl
    · exact absurd hj (unfinished_boot rfl (fun _ => rfl) job)
    · rfl
  have h4 := h3.next ⟨_, hsecond, .forwarded hq' hf⟩
  exact h4.next ⟨.accept, trivial, .accept _ ⟨orderRouted "dave" "d1", .outside⟩ [] rfl⟩

/-- Bob works on carol's order, and dave's waits behind it. -/
theorem one_at_a_time_bob :
    Reachable (deskRuns (SameThread plain (desk bobDesk).registry none)) daveWaits ∧
      daveWaits.running "d1" = some ⟨orderRouted "carol" "d1", .outside⟩ ∧
      (daveWaits.lanes.lane "d1").waiting = [⟨orderRouted "dave" "d1", .outside⟩] ∧
      OneAtATime daveWaits :=
  ⟨daveWaits_reachable, rfl, rfl, one_at_a_time daveWaits_reachable⟩

/-- Alice's thread is registered too. -/
def greeted : ThreadRegistry := registerThread delivered "t1" "user" "alice"

def aliceBusy : State UInt32 := bobBusy.begun greeted ⟨visitRouted, .outside⟩ [] []

def ordered : ThreadRegistry := (greeted.extendChain "t1" "bob" "u1").2

def aliceCall : CallEdge UInt32 := ⟨0, visitRouted, bobDesk, .sync, "u1"⟩

/-- Alice's order is on the ingress. -/
def aliceAsks : State UInt32 :=
  aliceBusy.called plain ordered "t1" ⟨visitRouted, .outside⟩ aliceCall ⟨"Order", .nil⟩

/-- Bob works on carol's order and on alice's. -/
def bobTwice : State UInt32 :=
  aliceAsks.begun (registerThread ordered "u1" "alice" "bob")
    ⟨orderRouted "alice" "u1", some aliceCall, []⟩ [] []

theorem aliceBusy_reachable : Reachable (deskRuns fun _ _ => True) aliceBusy := by
  have hf : ingress plain (desk bobDesk).registry none bobBusy.threads visited =
      (greeted, .routed (.forwarded visitRouted)) := by
    have hthreads : bobBusy.threads = delivered := rfl
    rw [hthreads]
    exact Prod.ext (ingress_forwarded plain (visit_forwarded bobDesk delivered)).2
      (visit_forwarded bobDesk delivered)
  exact begun_of_idle bobBusy_reachable rfl rfl hf rfl rfl trivial fun _ => ⟨trivial, trivial⟩

theorem aliceAsks_reachable : Reachable (deskRuns fun _ _ => True) aliceAsks :=
  called_of_handling aliceBusy_reachable
    (r := some (.ok (.send bobDesk ⟨"Order", .nil⟩))) rfl rfl rfl rfl rfl trivial trivial
    fun _ => trivial

theorem bobTwice_reachable : Reachable (deskRuns fun _ _ => True) bobTwice := by
  have hcall : callEnvelope visitRouted bobDesk "u1" (⟨"Order", .nil⟩ : Payload UInt32) =
      order "alice" "u1" := rfl
  have hq : aliceAsks.queue = [⟨encodeEnvelope plain (order "alice" "u1"), some aliceCall, []⟩] := by
    rw [← hcall]
    rfl
  have hthreads : aliceAsks.threads = ordered := rfl
  have hf : ingress plain (desk bobDesk).registry none aliceAsks.threads
      (encodeEnvelope plain (order "alice" "u1")) = _ := order_forwarded decode_asked_desk _
  rw [hthreads] at hf
  exact begun_of_idle aliceAsks_reachable hq rfl hf rfl rfl trivial fun _ => ⟨trivial, trivial⟩

/-- Carol's order comes through the switchboard on the delivery thread of `bob[desk]`, alice's on
    the extended chain of her call, and two workers handle them at the same time. -/
theorem not_one_at_a_time :
    Switchboard.route plain (fun _ => .ok "d1") (order "carol" "t0") = .ok stamped ∧
    Reachable (deskRuns fun _ _ => True) bobTwice ∧
    bobTwice.running "d1" = some ⟨orderRouted "carol" "d1", .outside⟩ ∧
    bobTwice.progress "d1" = .handling ∧
    bobTwice.running "u1" = some ⟨orderRouted "alice" "u1", some aliceCall, []⟩ ∧
    bobTwice.progress "u1" = .handling ∧
    ¬ OneAtATime bobTwice := by
  refine ⟨route_stamped, bobTwice_reachable, rfl, rfl, rfl, rfl, ?_⟩
  intro h
  have hkey : Keyed bobDesk := ⟨_, List.mem_cons_self, rfl⟩
  have hthread : "d1" = "u1" := h bobDesk hkey "d1" "u1" _ _ rfl rfl rfl rfl
  revert hthread
  decide

end RustPipeline.InstanceSerial
