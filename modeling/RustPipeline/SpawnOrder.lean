import RustPipeline.Foundation.History
import RustPipeline.InstanceSerial
import RustPipeline.SpawnHandoff

set_option autoImplicit false

/-!
# Received before done

A `Spawn` puts the work on the ingress before the acknowledgement. The acknowledgement comes before
every answer to the work when no handler returns on the work before it.
-/
namespace RustPipeline.SpawnOrder
open Text Wire Codec CodecImage Handling Routing Registry Thread Federation Pipeline Ingress
open CallReturn SpawnHandoff Interleaving Lanes History TransitionSystem PlainPlatform

variable {F : Type} (P : Platform F)

/-- The envelope that an effect puts on the ingress. -/
def sent : Effect F → Option (Envelope F)
  | .answer env _ => some env
  | .call env _ => some env
  | _ => none

/-- The acknowledgement that accepts a spawn is on the ingress. -/
def Acked (log : List (Entry F)) (c : CallEdge F) : Prop :=
  ∃ a ∈ log, a.call = some c ∧
    a.effect = emitAnswer P (spawnAckEnvelope c.msg c.toAddr.organismName true)

/-- What descends from the work of a spawn reaches the ingress, on the spawner's thread, after the
    acknowledgement. -/
def AckFirst (s : State F) : Prop :=
  ∀ pre e post, s.log = pre ++ e :: post → ∀ c ∈ e.past, c.kind = .async →
    ∀ env, sent e.effect = some env → env.header.thread = c.msg.envelope.header.thread →
      Acked P pre c

/-- The callee's handler returns on the work of a spawn after the acknowledgement. -/
def ReturnsLate (s : State F) : Event F → Prop
  | .handled k _ => ∀ job, s.running k = some job → ∀ c, job.origin.work = some c →
      c.kind = .async → Acked P s.log c
  | _ => True

/-! ## Descent -/

def Settled (log : List (Entry F)) (calls : List (CallEdge F)) : Prop :=
  ∀ c ∈ calls, c.kind = .async → Acked P log c

/-- The worker is past the handler and the middleware. -/
def Returned : Progress F → Prop
  | .idle => False
  | .handling => False
  | _ => True

/-- What descends from the handling of a spawn's work does so after the acknowledgement. -/
structure Inv (s : State F) : Prop where
  entries : Each (fun pre e => Settled P pre e.past) s.log
  queued : ∀ item ∈ s.queue, Settled P s.log item.origin.calls
  jobs : ∀ job, Unfinished s job → Settled P s.log job.origin.calls
  returned : ∀ k job, s.running k = some job → Returned (s.progress k) →
    Settled P s.log job.origin.past

variable {P} {registry : ListenerRegistry F} {federation : Option PeerDirectory}

theorem settled_nil (log : List (Entry F)) : Settled P log [] := fun _ hc => nomatch hc

theorem Settled.mono {log : List (Entry F)} {calls : List (CallEdge F)} (h : Settled P log calls)
    (later : List (Entry F)) : Settled P (log ++ later) calls := by
  intro c hc ha
  obtain ⟨a, hm, hack⟩ := h c hc ha
  exact ⟨a, List.mem_append_left later hm, hack⟩

/-- What is recorded with a settled past, and what it puts on the ingress. -/
theorem Inv.record {s t : State F} (h : Inv P s) {k : String} {job : Job F}
    (hr : s.running k = some job) (hs : Settled P s.log job.origin.past)
    {call : Option (CallEdge F)} {effects : List (Effect F)}
    (hlog : t.log = s.log ++ effects.map (Entry.mk job.origin.past call))
    (hone : effects.length ≤ 1)
    (hqueue : ∀ item ∈ t.queue, item ∈ s.queue ∨ item.origin.calls = job.origin.past)
    (hjobs : ∀ j, Unfinished t j → Unfinished s j)
    (hrunning : ∀ j, t.running j = s.running j)
    (hprogress : ∀ j, j ≠ k → t.progress j = s.progress j) : Inv P t where
  entries := by
    rw [hlog]
    match effects, hone with
    | [], _ =>
      rw [List.map_nil, List.append_nil]
      exact h.entries
    | [effect], _ => exact each_concat.mpr ⟨h.entries, hs⟩
  queued item hm := by
    rw [hlog]
    rcases hqueue item hm with hm | he
    · exact (h.queued item hm).mono _
    · rw [he]
      exact hs.mono _
  jobs j hj := by
    rw [hlog]
    exact (h.jobs j (hjobs j hj)).mono _
  returned j job' hj hp := by
    rw [hlog]
    rw [hrunning] at hj
    by_cases hjk : j = k
    · rw [hjk, hr, Option.some_inj] at hj
      rw [← hj]
      exact hs.mono _
    · rw [hprogress j hjk] at hp
      exact (h.returned j job' hj hp).mono _

/-- A worker that has returned moves on. -/
theorem Inv.advance {s t : State F} (h : Inv P s) {k : String} {job : Job F}
    (hr : s.running k = some job) (hs : Settled P s.log job.origin.past) (hlog : t.log = s.log)
    (hqueue : t.queue = s.queue) (hrouted : t.routed = s.routed) (hlanes : t.lanes = s.lanes)
    (hprogress : ∀ j, j ≠ k → t.progress j = s.progress j) : Inv P t := by
  have hnone : t.log = s.log ++ ([] : List (Effect F)).map (Entry.mk job.origin.past none) := by
    rw [hlog, List.map_nil, List.append_nil]
  refine h.record hr hs hnone (Nat.zero_le 1) (fun item hm => .inl (hqueue ▸ hm)) ?_ ?_ hprogress
  · intro j hj
    unfold Unfinished State.running at hj ⊢
    rw [hrouted, hlanes] at hj
    exact hj
  · intro j
    unfold State.running
    rw [hlanes]

/-- No worker returns and nothing is recorded. -/
theorem Inv.keep {s t : State F} (h : Inv P s) (hlog : t.log = s.log)
    (hqueue : ∀ item ∈ t.queue, Settled P s.log item.origin.calls)
    (hjobs : ∀ job, Unfinished t job → Settled P s.log job.origin.calls)
    (hkeep : ∀ k job, t.running k = some job → Returned (t.progress k) →
      s.running k = some job ∧ Returned (s.progress k)) : Inv P t where
  entries := by
    rw [hlog]
    exact h.entries
  queued := by
    rw [hlog]
    exact hqueue
  jobs := by
    rw [hlog]
    exact hjobs
  returned k job hr hp := by
    obtain ⟨hr, hp⟩ := hkeep k job hr hp
    rw [hlog]
    exact h.returned k job hr hp

/-- A worker that has not returned does not count. -/
theorem keep_of_set {s : State F} {k : String} {l : Lane (Job F)} {p : Progress F}
    (hp : ¬ Returned p) {j : String} {job : Job F}
    (hr : (Function.update s.lanes.lane k l j).running = some job)
    (hret : Returned (Function.update s.progress k p j)) :
    s.running j = some job ∧ Returned (s.progress j) := by
  by_cases hj : j = k
  · rw [hj, Function.update_self] at hret
    exact absurd hret hp
  · rw [Function.update_of_ne hj] at hr hret
    exact ⟨hr, hret⟩

theorem Inv.step {s t : State F} {e : Event F} (h : Inv P s) (hc : ReturnsLate P s e)
    (hs : Step P registry federation s e t) : Inv P t := by
  cases hs with
  | inject raw =>
    refine ⟨h.entries, ?_, h.jobs, h.returned⟩
    intro item hm
    rcases List.mem_append.mp hm with hm | hm
    · exact h.queued item hm
    · rw [List.mem_singleton.mp hm]
      exact settled_nil _
  | route item rest hq =>
    have hrest : ∀ i, i ∈ item :: rest → Settled P s.log i.origin.calls := by
      rw [← hq]
      exact h.queued
    refine h.keep (s.take_log item rest) ?_ ?_ ?_
    · rw [s.take_queue]
      exact fun i hi => hrest i (List.mem_cons_of_mem item hi)
    · intro job hj
      rcases unfinished_take hj with hj | ⟨_, ho⟩
      · exact h.jobs job hj
      · rw [ho]
        exact hrest item List.mem_cons_self
    · intro k job hr hp
      unfold State.running at hr
      rw [s.take_lanes] at hr
      rw [s.take_progress] at hp
      exact ⟨hr, hp⟩
  | accept job rest hq =>
    refine h.keep rfl h.queued (fun j hj => h.jobs j (unfinished_accept hq hj)) ?_
    intro k job' hr hp
    exact ⟨(accepted_running job s.lanes k).symm.trans hr, hp⟩
  | start k job fin rest hl hp =>
    exact h.keep rfl h.queued (fun j hj => h.jobs j (unfinished_start hl hj))
      fun j job' hr hret => keep_of_set (p := .handling) (fun hf => hf) hr hret
  | handled k job result hr hp hh =>
    have hs : Settled P s.log job.origin.past := by
      intro c hm ha
      rcases List.mem_append.mp hm with hm | hm
      · exact hc job hr c (Option.mem_toList.mp hm) ha
      · exact h.jobs job (.inr ⟨k, .inl hr⟩) c hm ha
    refine h.record hr hs rfl ?_ (fun _ hm => .inl hm) (fun _ hj => hj) (fun _ => rfl)
      fun j hj => Function.update_of_ne hj _ _
    unfold closing
    split <;> simp
  | prune k fresh job payload hr hp =>
    have hs := h.returned k job hr (by rw [hp]; trivial)
    exact h.advance hr hs rfl rfl rfl rfl fun j hj => Function.update_of_ne hj _ _
  | extend k fresh job kind toAddr payload hr hp =>
    have hs := h.returned k job hr (by rw [hp]; trivial)
    exact h.advance hr hs rfl rfl rfl rfl fun j hj => Function.update_of_ne hj _ _
  | emit k job call effect rest hr hp =>
    have hs := h.returned k job hr (by rw [hp]; trivial)
    refine h.record hr hs rfl (Nat.le_refl 1) ?_ (fun _ hj => hj) (fun _ => rfl)
      fun j hj => Function.update_of_ne hj _ _
    intro item hm
    rcases List.mem_append.mp hm with hm | hm
    · exact .inl hm
    · exact .inr (injected_calls hm)
  | finish k job call fin rest hl hp =>
    exact h.keep rfl h.queued (fun j hj => h.jobs j (unfinished_finish hl hj))
      fun j job' hr hret => keep_of_set (p := .idle) (fun hf => hf) hr hret

theorem inv_of_reachable {s : State F}
    (hs : Reachable (guarded P registry federation (ReturnsLate P)) s) : Inv P s := by
  refine hs.invariant ?_ ?_
  · intro s h
    obtain ⟨threads, rfl⟩ := h
    refine ⟨each_nil _, (fun _ hm => nomatch hm), ?_, (fun _ _ hr _ => nomatch hr)⟩
    intro job hj
    rcases hj with hj | ⟨k, hj | hj⟩ <;> cases hj
  · intro s t h hst
    obtain ⟨e, hc, he⟩ := hst
    exact h.step hc he

/-- In every run in which the callee's handler returns on the work of a spawn after the
    acknowledgement is on the ingress, the acknowledgement comes before every answer to the work. -/
theorem ack_first {s : State F}
    (hs : Reachable (guarded P registry federation (ReturnsLate P)) s) : AckFirst P s := by
  intro pre e post hl c hc ha env _ _
  exact (inv_of_reachable hs).entries pre e post hl c hc ha

/-! ## A callee that is done first -/

abbrev delegation : ListenerRegistry UInt32 := (agency (.flat "bob")).registry

abbrev agencyRuns (condition : State UInt32 → Event UInt32 → Prop) : System (State UInt32) :=
  guarded plain delegation none condition

def spawnEdge : CallEdge UInt32 := ⟨0, visitRouted, .flat "bob", .async, "u1"⟩

/-- The visit to alice is on the ingress. -/
def visiting : State UInt32 :=
  { State.boot .new with queue := [⟨encodeEnvelope plain visit, .outside⟩] }

def aliceBusy : State UInt32 := visiting.begun booked ⟨visitRouted, .outside⟩ [] []

/-- The work is on the ingress; `on_open` and the acknowledgement are still to come. -/
def aliceSpawns : State UInt32 :=
  aliceBusy.called plain (called (.flat "bob")) "t1" ⟨visitRouted, .outside⟩ spawnEdge
    ⟨"Order", .nil⟩

def workJob : Job UInt32 := ⟨askedRouted (.flat "bob"), some spawnEdge, []⟩

def bobBusy : State UInt32 :=
  aliceSpawns.begun (registerThread (called (.flat "bob")) "u1" "alice" "bob") workJob [] []

theorem visit_spawned : ingress plain delegation none .new (encodeEnvelope plain visit) =
    (booked, .routed (.forwarded visitRouted)) := by
  have hf := visit_forwarded (.flat "bob") .new
  rw [agency_ingress]
  exact Prod.ext (ingress_forwarded plain hf).2 hf

theorem work_forwarded (threads : ThreadRegistry) :
    ingress plain delegation none threads (encodeEnvelope plain (asked (.flat "bob"))) =
      (registerThread threads "u1" "alice" "bob",
        .routed (.forwarded (askedRouted (.flat "bob")))) := by
  have hf := asked_forwarded decode_asked_bob rfl threads
  rw [agency_ingress]
  exact Prod.ext (ingress_forwarded plain hf).2 hf

theorem aliceSpawns_reachable {condition : State UInt32 → Event UInt32 → Prop}
    (hinject : ∀ s raw, condition s (.inject raw)) (hroute : ∀ s, condition s .route)
    (hfree : ∀ s, condition s .accept ∧ condition s (.start "t1"))
    (hhandled : condition aliceBusy (.handled "t1" (some (.ok (.spawn (.flat "bob")
      ⟨"Order", .nil⟩)))))
    (hextend : condition (aliceBusy.setProgress "t1" (.calling .async (.flat "bob")
      ⟨"Order", .nil⟩)) (.extend "t1" "u1")) (hemit : ∀ s, condition s (.emit "t1")) :
    Reachable (agencyRuns condition) aliceSpawns := by
  have h0 : Reachable (agencyRuns condition) (State.boot .new) := .start ⟨.new, rfl⟩
  have h1 : Reachable (agencyRuns condition) visiting :=
    h0.next ⟨_, hinject _ _, .inject _ (encodeEnvelope plain visit)⟩
  have hthreads : visiting.threads = .new := rfl
  have hf := visit_spawned
  rw [← hthreads] at hf
  have h2 : Reachable (agencyRuns condition) aliceBusy :=
    begun_of_idle h1 rfl rfl hf rfl rfl (hroute _) hfree
  exact called_of_handling h2 rfl rfl rfl rfl rfl hhandled hextend hemit

theorem bobBusy_reachable {condition : State UInt32 → Event UInt32 → Prop}
    (hs : Reachable (agencyRuns condition) aliceSpawns) (hroute : condition aliceSpawns .route)
    (hfree : ∀ s, condition s .accept ∧ condition s (.start "u1")) :
    Reachable (agencyRuns condition) bobBusy := by
  have hcall : callEnvelope visitRouted (.flat "bob") "u1" (⟨"Order", .nil⟩ : Payload UInt32) =
      asked (.flat "bob") := rfl
  have hq : aliceSpawns.queue =
      [⟨encodeEnvelope plain (asked (.flat "bob")), some spawnEdge, []⟩] := by
    rw [← hcall]
    rfl
  have hthreads : aliceSpawns.threads = called (.flat "bob") := rfl
  have hf : ingress plain delegation none aliceSpawns.threads
      (encodeEnvelope plain (asked (.flat "bob"))) = _ := work_forwarded _
  rw [hthreads] at hf
  exact begun_of_idle hs hq rfl hf rfl rfl hroute hfree

def orderReply : Payload UInt32 := ⟨"OrderReply", .nil⟩

def returned : Envelope UInt32 :=
  answerEnvelope (askedRouted (.flat "bob")) ⟨"alice", "t1"⟩ orderReply

def accepting : Envelope UInt32 := spawnAckEnvelope visitRouted "bob" true

/-- Alice's worker sends the acknowledgement. -/
def acknowledged (s : State UInt32) : State UInt32 :=
  (s.emitted "t1" ⟨visitRouted, .outside⟩ (some spawnEdge) (.onOpen "alice" "bob" "u1" .async)
    [emitAnswer plain accepting]).emitted "t1" ⟨visitRouted, .outside⟩ (some spawnEdge)
      (emitAnswer plain accepting) []

/-- Bob starts on the work when the acknowledgement is on the ingress. -/
def bobStarts : State UInt32 :=
  (acknowledged aliceSpawns).begun (registerThread (called (.flat "bob")) "u1" "alice" "bob")
    workJob [⟨encodeEnvelope plain accepting, none, []⟩] []

/-- His answer is behind it. -/
def ackedAndDone : State UInt32 :=
  bobStarts.answered plain (called (.flat "bob")) "u1" workJob ⟨"alice", "t1"⟩ orderReply

theorem bobStarts_acked : Acked plain bobStarts.log spawnEdge :=
  ⟨⟨[], some spawnEdge, emitAnswer plain accepting⟩, List.mem_append_right _ List.mem_cons_self,
    rfl, rfl⟩

theorem ackedAndDone_reachable {condition : State UInt32 → Event UInt32 → Prop}
    (hother : ∀ s e, (∀ k result, e ≠ .handled k result) → (∀ k fresh, e ≠ .extend k fresh) →
      condition s e)
    (hspawn : condition aliceBusy (.handled "t1" (some (.ok (.spawn (.flat "bob")
      ⟨"Order", .nil⟩)))))
    (hextend : condition (aliceBusy.setProgress "t1" (.calling .async (.flat "bob")
      ⟨"Order", .nil⟩)) (.extend "t1" "u1"))
    (hreply : condition bobStarts (.handled "u1" (some (.ok (.reply orderReply))))) :
    Reachable (agencyRuns condition) ackedAndDone := by
  have h1 : Reachable (agencyRuns condition) aliceSpawns :=
    aliceSpawns_reachable (fun s raw => hother _ _ (by simp) (by simp))
      (fun s => hother _ _ (by simp) (by simp))
      (fun s => ⟨hother _ _ (by simp) (by simp), hother _ _ (by simp) (by simp)⟩) hspawn hextend
      fun s => hother _ _ (by simp) (by simp)
  have h2 := h1.next ⟨.emit "t1", hother _ _ (by simp) (by simp), .emit _ _ _ _ _ _ rfl rfl⟩
  have h3 : Reachable (agencyRuns condition) (acknowledged aliceSpawns) :=
    h2.next ⟨.emit "t1", hother _ _ (by simp) (by simp), .emit _ _ _ _ _ _ rfl rfl⟩
  have hcall : callEnvelope visitRouted (.flat "bob") "u1" (⟨"Order", .nil⟩ : Payload UInt32) =
      asked (.flat "bob") := rfl
  have hq : (acknowledged aliceSpawns).queue =
      [⟨encodeEnvelope plain (asked (.flat "bob")), some spawnEdge, []⟩,
        ⟨encodeEnvelope plain accepting, none, []⟩] := by
    rw [← hcall]
    rfl
  have h4 : Reachable (agencyRuns condition) bobStarts :=
    begun_of_idle h3 hq rfl (work_forwarded _) rfl rfl (hother _ _ (by simp) (by simp))
      fun s => ⟨hother _ _ (by simp) (by simp), hother _ _ (by simp) (by simp)⟩
  have hprune : bobStarts.threads.pruneForResponse workJob.thread "u2" =
      (some ⟨"alice", "t1"⟩, called (.flat "bob")) := by
    rfl
  exact answered_of_handling (r := some (.ok (.reply orderReply))) h4 rfl rfl rfl rfl hprune hreply
    fun s => ⟨hother _ _ (by simp) (by simp), hother _ _ (by simp) (by simp)⟩

theorem ackedAndDone_late : Reachable (agencyRuns (ReturnsLate plain)) ackedAndDone := by
  apply ackedAndDone_reachable
  · intro s e hh _
    cases e with
    | handled k result => exact absurd rfl (hh k result)
    | inject raw => trivial
    | route => trivial
    | accept => trivial
    | start k => trivial
    | prune k fresh => trivial
    | extend k fresh => trivial
    | emit k => trivial
    | finish k => trivial
  · intro job hr c hw
    have hjob : (⟨visitRouted, .outside⟩ : Job UInt32) = job := Option.some_inj.mp hr
    rw [← hjob] at hw
    cases hw
  · trivial
  · intro job hr c hw _
    have hjob : workJob = job := Option.some_inj.mp hr
    rw [← hjob] at hw
    obtain rfl : spawnEdge = c := Option.some_inj.mp hw
    exact bobStarts_acked

/-- Bob's answer, on alice's thread, is behind the acknowledgement. -/
theorem ack_first_alice :
    Reachable (agencyRuns (ReturnsLate plain)) ackedAndDone ∧
    ackedAndDone.queue = [⟨encodeEnvelope plain accepting, none, []⟩,
      ⟨encodeEnvelope plain returned, none, [spawnEdge]⟩] ∧
    returned.header.thread = "t1" ∧ AckFirst plain ackedAndDone :=
  ⟨ackedAndDone_late, rfl, rfl, ack_first ackedAndDone_late⟩

/-- Bob's answer is on the ingress. -/
def bobDone : State UInt32 :=
  bobBusy.answered plain (called (.flat "bob")) "u1" workJob ⟨"alice", "t1"⟩ orderReply

/-- Alice's acknowledgement is on the ingress too. -/
def ackLast : State UInt32 := acknowledged bobDone

theorem bobDone_reachable : Reachable (agencyRuns fun _ _ => True) bobDone := by
  have hs : Reachable (agencyRuns fun _ _ => True) aliceSpawns :=
    aliceSpawns_reachable (fun _ _ => trivial) (fun _ => trivial) (fun _ => ⟨trivial, trivial⟩)
      trivial trivial fun _ => trivial
  have hb := bobBusy_reachable hs trivial fun _ => ⟨trivial, trivial⟩
  have hprune : bobBusy.threads.pruneForResponse workJob.thread "u2" =
      (some ⟨"alice", "t1"⟩, called (.flat "bob")) := by
    rfl
  exact answered_of_handling (r := some (.ok (.reply orderReply))) hb rfl rfl rfl rfl hprune trivial
    fun _ => ⟨trivial, trivial⟩

theorem ackLast_reachable : Reachable (agencyRuns fun _ _ => True) ackLast := by
  have h1 : Reachable (agencyRuns fun _ _ => True) (bobDone.emitted "t1" ⟨visitRouted, .outside⟩
      (some spawnEdge) (.onOpen "alice" "bob" "u1" .async) [emitAnswer plain accepting]) :=
    bobDone_reachable.next ⟨.emit "t1", trivial, .emit _ _ _ _ _ _ rfl rfl⟩
  exact h1.next ⟨.emit "t1", trivial, .emit _ _ _ _ _ _ rfl rfl⟩

/-- Alice delegates to bob, and bob's answer reaches the ingress, on alice's thread, before the
    acknowledgement does. -/
theorem ack_not_first :
    Reachable (agencyRuns fun _ _ => True) ackLast ∧
    ackLast.queue = [⟨encodeEnvelope plain returned, none, [spawnEdge]⟩,
      ⟨encodeEnvelope plain accepting, none, []⟩] ∧
    returned.header.thread = "t1" ∧ accepting.header.thread = "t1" ∧
    ¬ AckFirst plain ackLast := by
  refine ⟨ackLast_reachable, rfl, rfl, rfl, ?_⟩
  intro h
  obtain ⟨a, hm, _, he⟩ := h [_, _] _ [_, _] rfl spawnEdge List.mem_cons_self rfl returned rfl rfl
  rcases List.mem_cons.mp hm with rfl | hm
  · nomatch he
  · rw [List.mem_singleton.mp hm] at he
    nomatch he

end RustPipeline.SpawnOrder
