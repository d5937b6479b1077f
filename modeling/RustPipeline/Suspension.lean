import RustPipeline.Foundation.History
import RustPipeline.ThreadProvenance

set_option autoImplicit false

/-!
# Conversations that wait for an answer

A `Send` puts its work on the ingress and the worker goes on with the next message of the thread.
The caller is not called with another message before the answer when none is routed in between.
-/
namespace RustPipeline.Suspension
open Text Wire Codec Handling Routing Registry Thread Federation Pipeline Ingress History
open CallReturn Interleaving Lanes TransitionSystem PlainPlatform

variable {F : Type}

/-! ## Waiting for the answer -/

/-- The message is for the caller and descends from the call. -/
def Fulfils (c : CallEdge F) (job : Job F) : Prop :=
  job.msg.targetName = c.msg.targetName ∧ c ∈ job.origin.calls

/-- A message for the caller descends from the call, or comes after one that does. -/
def InTurn (c : CallEdge F) (before : List (Job F)) (job : Job F) : Prop :=
  job.msg.targetName = c.msg.targetName → c ∈ job.origin.calls ∨ ∃ a ∈ before, Fulfils c a

/-- The messages of the thread that have been dispatched to their handlers. -/
def started (s : State F) (k : String) : List (Job F) :=
  (s.lanes.lane k).finished ++ (s.running k).toList

/-- The messages of the thread that are routed and not yet dispatched. -/
def coming (s : State F) (k : String) : List (Job F) :=
  (s.lanes.lane k).waiting ++ s.routed.filter fun job => job.thread = k

/-- A handler that has sent and is called again on the thread of its `Send` is called with what
descends from the answer, or has been before. -/
def Suspends (s : State F) : Prop :=
  ∀ c ∈ s.calls, c.kind = .sync → ∀ job, s.running (Dispatch.key c.msg) = some job →
    s.progress (Dispatch.key c.msg) = .handling →
      InTurn c (s.lanes.lane (Dispatch.key c.msg)).finished job

/-- A `Send` of which no answer has been routed to the caller. -/
def Outstanding (s : State F) (c : CallEdge F) : Prop :=
  c ∈ s.calls ∧ c.kind = .sync ∧
    ∀ a ∈ started s (Dispatch.key c.msg) ++ coming s (Dispatch.key c.msg), ¬ Fulfils c a

variable (P : Platform F)

/-- Nothing else for the caller is routed on the thread of a `Send` that waits for its answer, and
nothing for the caller is on the way there when the chain is extended for a `Send`. -/
def Undisturbed (registry : ListenerRegistry F) (federation : Option PeerDirectory) (s : State F) :
    Event F → Prop
  | .route => ∀ item rest, s.queue = item :: rest → ∀ msg,
      (ingress P registry federation s.threads item.raw).2 = .routed (.forwarded msg) →
        ∀ c, Outstanding s c → Dispatch.key msg = Dispatch.key c.msg →
          msg.targetName = c.msg.targetName → c ∈ item.origin.calls
  | .extend k _ => ∀ job toAddr payload, s.running k = some job →
      s.progress k = .calling .sync toAddr payload →
        ∀ other ∈ coming s k, other.msg.targetName ≠ job.msg.targetName
  | _ => True

/-- What is still to be dispatched on the caller's thread comes in turn. -/
def Queued (s : State F) : Prop :=
  ∀ c ∈ s.calls, c.kind = .sync →
    Each (fun pre job => InTurn c (started s (Dispatch.key c.msg) ++ pre) job)
      (coming s (Dispatch.key c.msg))

variable {P} {registry : ListenerRegistry F} {federation : Option PeerDirectory}

/-! ## What each step does to the messages of a thread -/

theorem coming_accept {s : State F} {job : Job F} {rest : List (Job F)}
    (h : s.routed = job :: rest) (k : String) :
    coming { s with routed := rest, lanes := accepted job s.lanes } k = coming s k := by
  unfold coming
  rw [h]
  change (Function.update s.lanes.lane job.thread _ k).waiting ++ _ = _
  by_cases hk : k = job.thread
  · subst hk
    rw [Function.update_self, List.filter_cons_of_pos (by simp)]
    simp [Lane.accept]
  · rw [Function.update_of_ne hk, List.filter_cons_of_neg (by simpa using Ne.symm hk)]

theorem started_accept (s : State F) (job : Job F) (rest : List (Job F)) (k : String) :
    started { s with routed := rest, lanes := accepted job s.lanes } k = started s k := by
  unfold started State.running
  change (Function.update s.lanes.lane job.thread _ k).finished ++ _ = _
  rw [accepted_running]
  by_cases hk : k = job.thread
  · subst hk
    rw [Function.update_self]
    rfl
  · rw [Function.update_of_ne hk]

theorem coming_set {s : State F} {k : String} (l : Lane (Job F)) (progress : String → Progress F)
    (j : String) : coming { s with lanes := s.lanes.set k l, progress := progress } j =
      if j = k then l.waiting ++ s.routed.filter fun job => job.thread = k else coming s j := by
  unfold coming
  change (Function.update s.lanes.lane k l j).waiting ++ _ = _
  by_cases hj : j = k
  · subst hj
    rw [Function.update_self, if_pos rfl]
  · rw [Function.update_of_ne hj, if_neg hj]

theorem started_set {s : State F} {k : String} (l : Lane (Job F)) (progress : String → Progress F)
    (j : String) : started { s with lanes := s.lanes.set k l, progress := progress } j =
      if j = k then l.finished ++ l.running.toList else started s j := by
  unfold started State.running
  change (Function.update s.lanes.lane k l j).finished ++
    (Function.update s.lanes.lane k l j).running.toList = _
  by_cases hj : j = k
  · subst hj
    rw [Function.update_self, if_pos rfl]
  · rw [Function.update_of_ne hj, if_neg hj]

/-! ## One step -/

theorem InTurn.mono {c : CallEdge F} {before after : List (Job F)} {job : Job F}
    (h : InTurn c before job) (hb : ∀ a ∈ before, a ∈ after) : InTurn c after job := by
  intro ht
  rcases h ht with h | ⟨a, ha, hf⟩
  · exact .inl h
  · exact .inr ⟨a, hb a ha, hf⟩

theorem Queued.of_eq {s t : State F} (h : Queued s) (hc : t.calls = s.calls)
    (hstarted : ∀ k, started t k = started s k) (hcoming : ∀ k, coming t k = coming s k) :
    Queued t := by
  intro c hmem hk
  rw [hstarted, hcoming]
  exact h c (hc ▸ hmem) hk

/-- A worker that is not about to call its handler. -/
theorem Suspends.setProgress {s t : State F} (h : Suspends s) {k : String} {p : Progress F}
    (hc : t.calls = s.calls) (hl : t.lanes = s.lanes)
    (hp : t.progress = Function.update s.progress k p) (hn : p ≠ .handling) : Suspends t := by
  intro c hmem hk job hr hh
  unfold State.running at hr
  rw [hl] at hr ⊢
  rw [hp] at hh
  by_cases hj : Dispatch.key c.msg = k
  · rw [hj, Function.update_self] at hh
    exact absurd hh hn
  · rw [Function.update_of_ne hj] at hh
    exact h c (hc ▸ hmem) hk job hr hh

/-- The lane of one worker changes, and the worker does not call its handler. -/
theorem Suspends.setLane {s : State F} (h : Suspends s) {k : String} {l : Lane (Job F)}
    {p : Progress F} (hk : ∀ c ∈ s.calls, c.kind = .sync → Dispatch.key c.msg = k →
      ∀ job, l.running = some job → p = .handling → InTurn c l.finished job) :
    Suspends { s.setProgress k p with lanes := s.lanes.set k l } := by
  intro c hmem hs job hr hh
  change (Function.update s.lanes.lane k l _).running = some job at hr
  change Function.update s.progress k p _ = .handling at hh
  change InTurn c (Function.update s.lanes.lane k l _).finished job
  by_cases hj : Dispatch.key c.msg = k
  · rw [hj, Function.update_self] at hr hh ⊢
    exact hk c hmem hs hj job hr hh
  · rw [Function.update_of_ne hj] at hr hh ⊢
    exact h c hmem hs job hr hh

theorem afterHandler_ne_handling (msg : RoutedMsg F)
    (result : Option (Except PipelineError (HandlerResponse F))) :
    afterHandler P registry msg result ≠ .handling := by
  unfold afterHandler
  split
  · simp
  · simp
  · split <;> simp
  · split <;> simp
  · simp
  · simp

variable (P registry federation) in
theorem take_routed (s : State F) (item : Item F) (rest : List (Item F)) :
    (s.take P registry federation item rest).routed = s.routed ∨ ∃ msg,
      (ingress P registry federation s.threads item.raw).2 = .routed (.forwarded msg) ∧
        (s.take P registry federation item rest).routed = s.routed ++ [⟨msg, item.origin⟩] := by
  unfold State.take
  split
  · next threads msg hi => exact .inr ⟨msg, by rw [hi], rfl⟩
  · exact .inl rfl

theorem Queued.route {s : State F} (h : Queued s) {item : Item F} {rest : List (Item F)}
    (hq : s.queue = item :: rest) (hc : Undisturbed P registry federation s .route) :
    Queued (s.take P registry federation item rest) := by
  have hlanes : (s.take P registry federation item rest).lanes = s.lanes := s.take_lanes item rest
  have hstarted : ∀ k, started (s.take P registry federation item rest) k = started s k := by
    intro k
    unfold started State.running
    rw [hlanes]
  rcases take_routed P registry federation s item rest with hr | ⟨msg, hi, hr⟩
  · apply h.of_eq (s.take_calls item rest) hstarted
    intro k
    unfold coming
    rw [hlanes, hr]
  · intro c hmem hk
    rw [s.take_calls] at hmem
    rw [hstarted]
    have hcoming : coming (s.take P registry federation item rest) (Dispatch.key c.msg) =
        coming s (Dispatch.key c.msg) ++
          ([⟨msg, item.origin⟩] : List (Job F)).filter fun job =>
            job.thread = Dispatch.key c.msg := by
      unfold coming
      rw [hlanes, hr, List.filter_append, List.append_assoc]
    rw [hcoming]
    by_cases hkey : Job.thread ⟨msg, item.origin⟩ = Dispatch.key c.msg
    · rw [List.filter_cons_of_pos (by simpa using hkey), List.filter_nil, each_concat]
      refine ⟨h c hmem hk, ?_⟩
      intro htarget
      by_cases hf : ∃ a ∈ started s (Dispatch.key c.msg) ++ coming s (Dispatch.key c.msg),
          Fulfils c a
      · exact .inr hf
      · have hout : Outstanding s c := ⟨hmem, hk, fun a ha hfa => hf ⟨a, ha, hfa⟩⟩
        exact .inl (hc item rest hq msg hi c hout hkey htarget)
    · rw [List.filter_cons_of_neg (by simpa using hkey), List.filter_nil, List.append_nil]
      exact h c hmem hk

/-- The next message of a lane is dispatched: it is in turn, and so are those behind it. -/
theorem Queued.start {s : State F} (h : Queued s) {k : String} {job : Job F}
    {fin rest : List (Job F)} (hl : s.lanes.lane k = ⟨fin, none, job :: rest⟩) :
    Queued { s.setProgress k .handling with lanes := s.lanes.set k ⟨fin, some job, rest⟩ } ∧
      ∀ c ∈ s.calls, c.kind = .sync → Dispatch.key c.msg = k → InTurn c fin job := by
  have hstarted : started s k = fin := by
    unfold started State.running
    rw [hl]
    simp
  have hcoming : coming s k = job :: (rest ++ s.routed.filter fun job => job.thread = k) := by
    unfold coming
    rw [hl]
    rfl
  constructor
  · intro c hmem hk
    have hold := h c hmem hk
    change Each (fun pre j => InTurn c (started { s with lanes := _, progress := _ } _ ++ pre) j)
      (coming { s with lanes := _, progress := _ } _)
    rw [coming_set, started_set]
    by_cases hkey : Dispatch.key c.msg = k
    · rw [hkey, hstarted, hcoming, each_cons] at hold
      rw [if_pos hkey, if_pos hkey]
      intro pre j post hj
      have hturn : InTurn c (fin ++ job :: pre) j := hold.2 pre j post hj
      rw [← List.singleton_append, ← List.append_assoc] at hturn
      exact hturn
    · rw [if_neg hkey, if_neg hkey]
      exact hold
  · intro c hmem hk hkey
    have hold := h c hmem hk
    rw [hkey, hstarted, hcoming, each_cons, List.append_nil] at hold
    exact hold.1

theorem Queued.finish {s : State F} (h : Queued s) {k : String} {job : Job F}
    {fin rest : List (Job F)} (hl : s.lanes.lane k = ⟨fin, some job, rest⟩) :
    Queued { s.setProgress k .idle with lanes := s.lanes.set k ⟨fin ++ [job], none, rest⟩ } := by
  refine h.of_eq (t := { s.setProgress k .idle with
    lanes := s.lanes.set k ⟨fin ++ [job], none, rest⟩ }) rfl ?_ ?_
  · intro j
    change started { s with lanes := _, progress := _ } j = _
    rw [started_set]
    by_cases hj : j = k
    · rw [if_pos hj, hj]
      unfold started State.running
      rw [hl]
      simp
    · rw [if_neg hj]
  · intro j
    change coming { s with lanes := _, progress := _ } j = _
    rw [coming_set]
    by_cases hj : j = k
    · rw [if_pos hj, hj]
      unfold coming
      rw [hl]
    · rw [if_neg hj]

theorem Suspends.take {s : State F} (h : Suspends s) (item : Item F) (rest : List (Item F)) :
    Suspends (s.take P registry federation item rest) := by
  intro c hmem hk job hr hh
  unfold State.running at hr
  rw [s.take_calls] at hmem
  rw [s.take_lanes] at hr ⊢
  rw [s.take_progress] at hh
  exact h c hmem hk job hr hh

theorem Suspends.accept {s : State F} (h : Suspends s) (job : Job F) (rest : List (Job F)) :
    Suspends { s with routed := rest, lanes := accepted job s.lanes } := by
  intro c hmem hk j hr hh
  have hfin : ((accepted job s.lanes).lane (Dispatch.key c.msg)).finished =
      (s.lanes.lane (Dispatch.key c.msg)).finished := by
    change (Function.update s.lanes.lane job.thread _ _).finished = _
    by_cases hj : Dispatch.key c.msg = job.thread
    · rw [hj, Function.update_self]
      rfl
    · rw [Function.update_of_ne hj]
  rw [hfin]
  exact h c hmem hk j ((accepted_running job s.lanes _).symm.trans hr) hh

/-- A new call waits for nothing yet: no other message for the caller is on its way. -/
theorem Queued.extend {s t : State F} (h : Queued s) {call : CallEdge F}
    (hc : t.calls = s.calls ++ [call]) (hl : t.lanes = s.lanes) (hr : t.routed = s.routed)
    (hnone : call.kind = .sync → ∀ other ∈ coming s (Dispatch.key call.msg),
      other.msg.targetName ≠ call.msg.targetName) : Queued t := by
  intro c hmem hk
  have hstarted : started t (Dispatch.key c.msg) = started s (Dispatch.key c.msg) := by
    unfold started State.running
    rw [hl]
  have hcoming : coming t (Dispatch.key c.msg) = coming s (Dispatch.key c.msg) := by
    unfold coming
    rw [hl, hr]
  rw [hstarted, hcoming]
  rw [hc] at hmem
  rcases List.mem_append.mp hmem with hmem | hmem
  · exact h c hmem hk
  · obtain rfl := List.mem_singleton.mp hmem
    intro pre job post hj htarget
    have hin : job ∈ coming s (Dispatch.key c.msg) := by simp [hj]
    exact absurd htarget (hnone hk job hin)

theorem Suspends.extend {s t : State F} (h : Suspends s) {k : String} {call : CallEdge F}
    {p : Progress F} (hkey : Dispatch.key call.msg = k) (hc : t.calls = s.calls ++ [call])
    (hl : t.lanes = s.lanes) (hp : t.progress = Function.update s.progress k p)
    (hn : p ≠ .handling) : Suspends t := by
  intro c hmem hk job hr hh
  unfold State.running at hr
  rw [hl] at hr ⊢
  rw [hp] at hh
  rw [hc] at hmem
  by_cases hj : Dispatch.key c.msg = k
  · rw [hj, Function.update_self] at hh
    exact absurd hh hn
  · rw [Function.update_of_ne hj] at hh
    rcases List.mem_append.mp hmem with hmem | hmem
    · exact h c hmem hk job hr hh
    · obtain rfl := List.mem_singleton.mp hmem
      exact absurd hkey hj

theorem waits_step {s t : State F} {e : Event F} (hq : Queued s) (hs : Suspends s)
    (hown : ∀ k job, s.running k = some job → job.thread = k)
    (hc : Undisturbed P registry federation s e) (hst : Step P registry federation s e t) :
    Queued t ∧ Suspends t := by
  cases hst with
  | inject raw => exact ⟨hq, hs⟩
  | route item rest hitem => exact ⟨hq.route hitem hc, hs.take item rest⟩
  | accept job rest hr =>
    exact ⟨hq.of_eq rfl (started_accept s job rest) (coming_accept hr), hs.accept job rest⟩
  | start k job fin rest hl hp =>
    obtain ⟨hq', hturn⟩ := hq.start hl
    refine ⟨hq', hs.setLane ?_⟩
    intro c hmem hk hkey j hj _
    obtain rfl := Option.some_inj.mp hj
    exact hturn c hmem hk hkey
  | handled k job result hr hp hh =>
    exact ⟨hq, hs.setProgress rfl rfl rfl (afterHandler_ne_handling job.msg result)⟩
  | prune k fresh job payload hr hp =>
    exact ⟨hq, hs.setProgress rfl rfl rfl (by simp)⟩
  | extend k fresh job kind toAddr payload hr hp =>
    have hkey : Dispatch.key job.msg = k := hown k job hr
    refine ⟨hq.extend rfl rfl rfl ?_, hs.extend hkey rfl rfl rfl (by simp)⟩
    intro hk other ho
    change kind = .sync at hk
    subst hk
    change other ∈ coming s (Dispatch.key job.msg) at ho
    rw [hkey] at ho
    exact hc job toAddr payload hr hp other ho
  | emit k job call effect rest hr hp =>
    exact ⟨hq, hs.setProgress rfl rfl rfl (by simp)⟩
  | finish k job call fin rest hl hp =>
    refine ⟨hq.finish hl, hs.setLane ?_⟩
    intro c _ _ _ j hj
    cases hj

/-- In every run in which nothing else for the caller is on its thread when its chain is extended
for a `Send`, and nothing else for it is routed there before what descends from the `Send`, the
caller is called again on the thread only with what descends from the answer, or after that. -/
theorem suspends_of_reachable {s : State F}
    (hs : Reachable (guarded P registry federation (Undisturbed P registry federation)) s) :
    Suspends s := by
  have hboth : Queued s ∧ Suspends s := by
    induction hs with
    | start h =>
      obtain ⟨threads, rfl⟩ := h
      constructor
      · intro c hmem
        cases hmem
      · intro c hmem
        cases hmem
    | next hs hst ih =>
      obtain ⟨e, hc, hst⟩ := hst
      refine waits_step ih.1 ih.2 ?_ hc hst
      intro k job hr
      refine thread_of_contents hs ?_
      unfold State.running at hr
      unfold Lane.contents
      rw [hr]
      simp
  exact hboth.2

/-- A step that forwards a message is undisturbed when the message descends from the calls of its
listener on its thread that wait. -/
theorem undisturbed_route {s : State F} {raw : Bytes} {origin : Origin F} {rest : List (Item F)}
    {threads : ThreadRegistry} {msg : RoutedMsg F} (hq : s.queue = ⟨raw, origin⟩ :: rest)
    (hf : ingress P registry federation s.threads raw = (threads, .routed (.forwarded msg)))
    (hc : ∀ c, Outstanding s c → Dispatch.key msg = Dispatch.key c.msg →
      msg.targetName = c.msg.targetName → c ∈ origin.calls) :
    Undisturbed P registry federation s .route := by
  intro item rest' hi msg' hm c hout hkey htarget
  rw [hq] at hi
  obtain ⟨rfl, -⟩ := List.cons.inj hi
  rw [hf] at hm
  cases hm
  exact hc c hout hkey htarget

/-! ## A question, and its answer -/

open ThreadProvenance

def alice : Job UInt32 := jobWith .empty

def question : CallEdge UInt32 := ⟨0, routedWith .empty, .flat "bob", .sync, "u1"⟩

def extendedBooking : ThreadRegistry := (booked.extendChain "t1" "bob" "u1").2

/-- Alice handles a visit. -/
def visited : State UInt32 :=
  { State.boot .new with queue := [rawVisit .empty] }.begun booked alice [] []

/-- Her question to bob is on the ingress. -/
def asks : State UInt32 :=
  visited.called plain extendedBooking "t1" alice question ⟨"Order", .nil⟩

def order : Job UInt32 := ⟨askedRouted (.flat "bob"), some question, []⟩

/-- Bob handles it. -/
def ordered : State UInt32 :=
  asks.begun (registerThread extendedBooking "u1" "alice" "bob") order [] []

def greeting : Payload UInt32 := ⟨"Greeting", .nil⟩

/-- His answer is on the ingress. -/
def replied : State UInt32 :=
  ordered.answered plain extendedBooking "u1" order ⟨"alice", "t1"⟩ greeting

/-- Alice's worker is free. -/
def waits : State UInt32 :=
  let s := replied.emitted "t1" alice (some question) (.onOpen "alice" "bob" "u1" .sync) []
  { s.setProgress "t1" .idle with lanes := s.lanes.set "t1" ⟨[alice], none, []⟩ }

def reply : Envelope UInt32 :=
  answerEnvelope (askedRouted (.flat "bob")) ⟨"alice", "t1"⟩ greeting

def replyRouted : RoutedMsg UInt32 := ⟨reply, ⟨"Greeting", .nil⟩, "alice"⟩

def answer : Job UInt32 := ⟨replyRouted, none, [question]⟩

/-- Her handler is called with the answer. -/
def resumed : State UInt32 :=
  waits.begun (registerThread extendedBooking "t1" "bob" "alice") answer [] [alice]

theorem order_forwarded (threads : ThreadRegistry) :
    ingress plain (desk (.flat "bob")).registry none threads
        (encodeEnvelope plain (asked (.flat "bob"))) =
      (registerThread threads "u1" "alice" "bob",
        .routed (.forwarded (askedRouted (.flat "bob")))) := by
  have hf := asked_forwarded decode_asked_bob rfl threads
  exact Prod.ext (ingress_forwarded plain hf).2 hf

theorem decode_reply : decodeEnvelope plain (encodeEnvelope plain reply) = .ok reply :=
  decode_of_image rfl

theorem reply_forwarded (threads : ThreadRegistry) :
    ingress plain (desk (.flat "bob")).registry none threads (encodeEnvelope plain reply) =
      (registerThread threads "t1" "bob" "alice", .routed (.forwarded replyRouted)) := by
  have hroute : (desk (.flat "bob")).registry.routing.resolve plain.lowercase (some "alice")
      "Greeting" = .ok ⟨"alice", false, List.toFinset [],
        routeKey plain.lowercase "alice" "Greeting"⟩ :=
    (RoutingTable.resolve_register_of_ne false [] (by decide)).trans
      (RoutingTable.resolve_register_of_free false [] rfl)
  have hf := (ingress_forwarded_iff plain (desk (.flat "bob")).registry none threads
    (encodeEnvelope plain reply) replyRouted).mpr
      ⟨reply, _, ⟨decode_reply, rfl, rfl, hroute⟩, desk_no_agent _ _ _, rfl⟩
  exact Prod.ext (ingress_forwarded plain hf).2 hf

/-- No call is open when the visit is routed, the order is for another thread, and what is routed
next descends from the question. -/
theorem resumed_reachable :
    Reachable (visitRuns (Undisturbed plain (desk (.flat "bob")).registry none)) resumed := by
  have h0 : Reachable (visitRuns (Undisturbed plain (desk (.flat "bob")).registry none))
      (State.boot .new) := .start ⟨.new, rfl⟩
  have h1 := h0.next ⟨.inject (encodeEnvelope plain (visitWith .empty)), trivial, .inject _ _⟩
  have h2 : Reachable (visitRuns (Undisturbed plain (desk (.flat "bob")).registry none)) visited := by
    have hroute := undisturbed_route (s := { State.boot .new with queue := [rawVisit .empty] }) rfl
      (visitWith_forwarded .empty .new) fun c hout => nomatch hout.1
    exact begun_of_idle h1 rfl rfl (visitWith_forwarded .empty .new) rfl rfl hroute
      fun _ => ⟨trivial, trivial⟩
  have h3 : Reachable (visitRuns (Undisturbed plain (desk (.flat "bob")).registry none)) asks := by
    refine called_of_handling h2 (r := some (.ok (.send (.flat "bob") ⟨"Order", .nil⟩))) rfl rfl rfl
      rfl rfl trivial ?_ fun _ => trivial
    intro job toAddr payload _ _ other ho
    nomatch ho
  have hcall : callEnvelope (routedWith .empty) (.flat "bob") "u1"
      (⟨"Order", .nil⟩ : Payload UInt32) = asked (.flat "bob") := rfl
  have hq : asks.queue = [⟨encodeEnvelope plain (asked (.flat "bob")), some question, []⟩] := by
    rw [← hcall]
    rfl
  have h4 : Reachable (visitRuns (Undisturbed plain (desk (.flat "bob")).registry none))
      ordered := by
    have hroute := undisturbed_route hq (order_forwarded asks.threads) fun c hout hkey => by
      rw [List.mem_singleton.mp hout.1] at hkey
      exact absurd hkey (by decide)
    exact begun_of_idle h3 hq rfl (order_forwarded _) rfl rfl hroute fun _ => ⟨trivial, trivial⟩
  have hprune : ordered.threads.pruneForResponse order.thread "u2" =
      (some ⟨"alice", "t1"⟩, extendedBooking) := by
    rfl
  have h5 : Reachable (visitRuns (Undisturbed plain (desk (.flat "bob")).registry none))
      replied :=
    answered_of_handling (r := some (.ok (.reply greeting))) h4 rfl rfl rfl rfl hprune trivial
      fun _ => ⟨trivial, trivial⟩
  have h6 := h5.next ⟨.emit "t1", trivial, .emit _ _ _ _ _ _ rfl rfl⟩
  have h7 : Reachable (visitRuns (Undisturbed plain (desk (.flat "bob")).registry none)) waits :=
    h6.next ⟨.finish "t1", trivial, .finish _ "t1" alice (some question) [] [] rfl rfl⟩
  have hq' : waits.queue = [⟨encodeEnvelope plain reply, none, [question]⟩] := rfl
  have hroute := undisturbed_route hq' (reply_forwarded waits.threads) fun c hout _ _ => hout.1
  exact begun_of_idle h7 hq' rfl (reply_forwarded _) rfl rfl hroute fun _ => ⟨trivial, trivial⟩

/-- Alice is called again on the thread of her question, with bob's answer. -/
theorem suspends_alice :
    Reachable (visitRuns (Undisturbed plain (desk (.flat "bob")).registry none)) resumed ∧
      question ∈ resumed.calls ∧ resumed.running "t1" = some answer ∧
      resumed.progress "t1" = .handling ∧ Suspends resumed :=
  ⟨resumed_reachable, List.mem_cons_self, rfl, rfl, suspends_of_reachable resumed_reachable⟩

/-! ## A second visit while alice waits -/

/-- Alice's question to bob is on the ingress, behind a second visit. -/
def asking : State UInt32 :=
  (firstVisit .empty .empty).called plain extendedBooking "t1" alice question ⟨"Order", .nil⟩

/-- Her worker is free. -/
def released : State UInt32 :=
  let s := asking.emitted "t1" alice (some question) (.onOpen "alice" "bob" "u1" .sync) []
  { s.setProgress "t1" .idle with lanes := s.lanes.set "t1" ⟨[alice], none, []⟩ }

def work : Item UInt32 :=
  ⟨encodeEnvelope plain (callEnvelope (routedWith .empty) (.flat "bob") "u1" ⟨"Order", .nil⟩),
    some question, []⟩

/-- Her handler is called with the second visit. -/
def recalled : State UInt32 :=
  released.begun (registerThread extendedBooking "t1" "user" "alice") alice [work] [alice]

theorem recalled_reachable : Reachable (visitRuns fun _ _ => True) recalled := by
  have h0 : Reachable (visitRuns fun _ _ => True) (State.boot .new) := .start ⟨.new, rfl⟩
  have h1 := h0.next ⟨_, trivial, .inject _ (encodeEnvelope plain (visitWith .empty))⟩
  have h2 : Reachable (visitRuns fun _ _ => True) (twoVisits .empty .empty) :=
    h1.next ⟨_, trivial, .inject _ (encodeEnvelope plain (visitWith .empty))⟩
  have h3 : Reachable (visitRuns fun _ _ => True) (firstVisit .empty .empty) :=
    begun_of_idle h2 rfl rfl (visitWith_forwarded .empty .new) rfl rfl trivial
      fun _ => ⟨trivial, trivial⟩
  have h4 : Reachable (visitRuns fun _ _ => True) asking :=
    called_of_handling h3 (r := some (.ok (.send (.flat "bob") ⟨"Order", .nil⟩))) rfl rfl rfl rfl
      rfl trivial trivial fun _ => trivial
  have h5 := h4.next ⟨_, trivial, .emit _ "t1" alice (some question)
    (.onOpen "alice" "bob" "u1" .sync) [] rfl rfl⟩
  have h6 : Reachable (visitRuns fun _ _ => True) released :=
    h5.next ⟨_, trivial, .finish _ "t1" alice (some question) [] [] rfl rfl⟩
  exact begun_of_idle h6 rfl rfl (visitWith_forwarded .empty extendedBooking) rfl rfl trivial
    fun _ => ⟨trivial, trivial⟩

/-- Alice is called with a second visit while her question to bob is still unanswered. -/
theorem not_suspended :
    ∃ s : State UInt32, Reachable (visitRuns fun _ _ => True) s ∧ ¬ Suspends s := by
  refine ⟨recalled, recalled_reachable, ?_⟩
  intro h
  rcases h question List.mem_cons_self rfl alice rfl rfl rfl with hcalls | ⟨a, ha, hf⟩
  · cases hcalls
  · rw [List.mem_singleton.mp ha] at hf
    cases hf.2

end RustPipeline.Suspension
