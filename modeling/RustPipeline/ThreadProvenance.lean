import RustPipeline.CallReturn
import RustPipeline.Interleaving
import RustPipeline.RoundTrip

set_option autoImplicit false

/-!
# Provenance along a thread

What a worker builds carries the provenance of the message that it handles. It carries that of
every message handled before on its thread when the message does.
-/
namespace RustPipeline.ThreadProvenance
open Text Wire Codec CodecImage Handling Routing Registry Thread Federation Pipeline Ingress
open CallReturn Interleaving Lanes TransitionSystem PlainPlatform

variable {F : Type}

/-- Every bit of the one is in the other. -/
def Covers (p q : Provenance) : Prop := ∀ bit, q.containsBit bit = true → p.containsBit bit = true

def Job.provenance (job : Job F) : Provenance := job.msg.envelope.header.provenance

/-- The effects put the envelope on the ingress. -/
def Builds (effects : List (Effect F)) (env : Envelope F) : Prop :=
  ∃ raw, .answer env raw ∈ effects ∨ .call env raw ∈ effects

/-- What the worker of the lane has built and not yet put on the ingress carries the provenance of
every message handled on the lane so far. -/
def Accumulated (l : Lane (Job F)) (p : Progress F) : Prop :=
  ∀ job call effects env, l.running = some job → p = .emitting call effects →
    Builds effects env → ∀ earlier ∈ l.finished ++ [job],
      Covers env.header.provenance (Job.provenance earlier)

def Accumulates (s : State F) : Prop := ∀ k, Accumulated (s.lanes.lane k) (s.progress k)

/-- The message being handled carries the provenance of every message handled before it. -/
def Covered (s : State F) (k : String) : Prop :=
  ∀ job, s.running k = some job → ∀ earlier ∈ (s.lanes.lane k).finished,
    Covers (Job.provenance job) (Job.provenance earlier)

/-- When the worker is about to build an envelope, the message being handled is covered. -/
def KeepsProvenance (registry : ListenerRegistry F) (s : State F) : Event F → Prop
  | .handled k result => ∀ job toAddr payload, s.running k = some job →
      result = some (.ok (.spawn toAddr payload)) →
      registry.routing.enforcePeers job.msg.targetName toAddr.organismName ≠ .ok () → Covered s k
  | .prune k _ => ∀ job chain, s.running k = some job →
      s.threads.lookup job.thread = some chain → '.' ∈ chain.toList → Covered s k
  | .extend k _ => Covered s k
  | _ => True

/-! ## What is built -/

variable {P : Platform F} {registry : ListenerRegistry F} {federation : Option PeerDirectory}

theorem builds_nil (env : Envelope F) : ¬ Builds [] env := by
  rintro ⟨raw, h | h⟩
  · cases h
  · cases h

theorem builds_answerEffects {msg : RoutedMsg F} {payload : Payload F} {prune : Option PruneResult}
    {env : Envelope F} (h : Builds (answerEffects P msg payload prune) env) :
    prune.isSome ∧ env.header.provenance = msg.envelope.header.provenance := by
  cases prune with
  | none => exact absurd h (builds_nil env)
  | some prune =>
    obtain ⟨raw, h | h⟩ := h
    · have he := (Effect.answer.inj (List.mem_singleton.mp h)).1
      rw [he]
      exact ⟨rfl, rfl⟩
    · cases List.mem_singleton.mp h

theorem builds_callEffects {msg : RoutedMsg F} {kind : CallKind} {toAddr : Address}
    {payload : Payload F} {id : String} {env : Envelope F}
    (h : Builds (callEffects P msg kind toAddr payload id) env) :
    env.header.provenance = msg.envelope.header.provenance := by
  cases kind with
  | sync =>
    obtain ⟨raw, h | h⟩ := h
    · simp [callEffects, emitCall] at h
    · simp only [callEffects, emitCall, List.append_nil, List.mem_cons, Effect.call.injEq,
        reduceCtorEq, List.not_mem_nil, or_false] at h
      rw [h.1]
      rfl
  | async =>
    obtain ⟨raw, h | h⟩ := h
    · simp only [callEffects, emitCall, emitAnswer, List.cons_append, List.nil_append,
        List.mem_cons, reduceCtorEq, Effect.answer.injEq, List.not_mem_nil, or_false,
        false_or] at h
      rw [h.1]
      rfl
    · simp only [callEffects, emitCall, emitAnswer, List.cons_append, List.nil_append,
        List.mem_cons, reduceCtorEq, Effect.call.injEq, List.not_mem_nil, or_false] at h
      rw [h.1]
      rfl

/-- The handler's return builds an envelope only for a refused spawn. -/
theorem builds_afterHandler {msg : RoutedMsg F}
    {result : Option (Except PipelineError (HandlerResponse F))} {call : Option (CallEdge F)}
    {effects : List (Effect F)} (ha : afterHandler P registry msg result = .emitting call effects)
    {env : Envelope F} (h : Builds effects env) :
    (∃ toAddr payload, result = some (.ok (.spawn toAddr payload)) ∧
      registry.routing.enforcePeers msg.targetName toAddr.organismName ≠ .ok ()) ∧
      env.header.provenance = msg.envelope.header.provenance := by
  have hnone : ∀ c, (.emitting c [] : Progress F) = .emitting call effects → False := by
    intro c he
    rw [← (Progress.emitting.inj he).2] at h
    exact builds_nil env h
  cases result with
  | none => exact (hnone _ ha).elim
  | some result =>
    cases result with
    | error e => exact (hnone _ ha).elim
    | ok response =>
      cases response with
      | none => cases ha
      | reply payload => cases ha
      | send toAddr payload =>
        unfold afterHandler at ha
        dsimp only at ha
        split at ha
        · exact (hnone _ ha).elim
        · cases ha
      | spawn toAddr payload =>
        unfold afterHandler at ha
        dsimp only at ha
        split at ha
        · next e he =>
          refine ⟨⟨toAddr, payload, rfl, by rw [he]; simp⟩, ?_⟩
          rw [← (Progress.emitting.inj ha).2] at h
          obtain ⟨raw, h | h⟩ := h
          · rw [(Effect.answer.inj (List.mem_singleton.mp h)).1]
            rfl
          · cases List.mem_singleton.mp h
        · cases ha

/-! ## One step -/

/-- The message's own provenance and that of the messages before it. -/
theorem accumulated_of_covered {l : Lane (Job F)} {job : Job F} (hr : l.running = some job)
    {p : Progress F}
    (h : ∀ call effects env, p = .emitting call effects → Builds effects env →
      env.header.provenance = Job.provenance job ∧
        ∀ earlier ∈ l.finished, Covers (Job.provenance job) (Job.provenance earlier)) :
    Accumulated l p := by
  intro j call effects env hj hp hb earlier he
  obtain ⟨hprov, hcov⟩ := h call effects env hp hb
  obtain rfl := Option.some_inj.mp (hr.symm.trans hj)
  rw [hprov]
  rcases List.mem_append.mp he with he | he
  · exact hcov earlier he
  · rw [List.mem_singleton.mp he]
    exact fun _ hbit => hbit

/-- One worker moves on, the other lanes stay. -/
theorem Accumulates.update {s t : State F} (h : Accumulates s) {k : String} {l : Lane (Job F)}
    {p : Progress F} (hl : t.lanes.lane = Function.update s.lanes.lane k l)
    (hp : t.progress = Function.update s.progress k p) (hk : Accumulated l p) :
    Accumulates t := by
  intro j
  rw [hl, hp]
  by_cases hj : j = k
  · subst hj
    rw [Function.update_self, Function.update_self]
    exact hk
  · rw [Function.update_of_ne hj, Function.update_of_ne hj]
    exact h j

theorem Accumulates.setProgress {s t : State F} (h : Accumulates s) {k : String} {p : Progress F}
    (hl : t.lanes = s.lanes) (hp : t.progress = Function.update s.progress k p)
    (hk : Accumulated (s.lanes.lane k) p) : Accumulates t :=
  h.update (by rw [hl, Function.update_eq_self]) hp hk

theorem Accumulates.step {s t : State F} {e : Event F} (h : Accumulates s)
    (hc : KeepsProvenance registry s e) (hs : Step P registry federation s e t) :
    Accumulates t := by
  cases hs with
  | inject raw => exact h
  | route item rest hq =>
    intro k
    rw [s.take_lanes, s.take_progress]
    exact h k
  | accept job rest hq =>
    -- only the messages that wait change
    intro k i call effects env hi hp hb
    have hfin : ((accepted job s.lanes).lane k).finished = (s.lanes.lane k).finished := by
      change (Function.update s.lanes.lane job.thread _ k).finished = _
      by_cases hk : k = job.thread
      · rw [hk, Function.update_self]
        rfl
      · rw [Function.update_of_ne hk]
    rw [hfin]
    exact h k i call effects env ((accepted_running job s.lanes k).symm.trans hi) hp hb
  | start k job fin rest hl hp =>
    refine h.update rfl rfl ?_
    intro i call effects env _ he
    cases he
  | handled k job result hr hp hh =>
    refine h.setProgress rfl rfl (accumulated_of_covered hr ?_)
    intro call effects env ha hb
    obtain ⟨⟨toAddr, payload, hres, href⟩, hprov⟩ := builds_afterHandler ha hb
    exact ⟨hprov, hc job toAddr payload hr hres href job hr⟩
  | prune k fresh job payload hr hp =>
    refine h.setProgress rfl rfl (accumulated_of_covered hr ?_)
    intro call effects env ha hb
    rw [← (Progress.emitting.inj ha).2] at hb
    obtain ⟨hsome, hprov⟩ := builds_answerEffects hb
    obtain ⟨chain, hl, hd⟩ := (pruneForResponse_isSome s.threads job.thread fresh).mp hsome
    exact ⟨hprov, hc job chain hr hl hd job hr⟩
  | extend k fresh job kind toAddr payload hr hp =>
    refine h.setProgress rfl rfl (accumulated_of_covered hr ?_)
    intro call effects env ha hb
    rw [← (Progress.emitting.inj ha).2] at hb
    exact ⟨builds_callEffects hb, hc job hr⟩
  | emit k job call effect rest hr hp =>
    refine h.setProgress rfl rfl ?_
    intro i c effects env hi he hb
    cases he
    refine h k i _ _ env hi hp ?_
    obtain ⟨raw, hb⟩ := hb
    exact ⟨raw, hb.imp (List.mem_cons_of_mem effect) (List.mem_cons_of_mem effect)⟩
  | finish k job call fin rest hl hp =>
    refine h.update rfl rfl ?_
    intro i c effects env hi
    cases hi

/-- In every run in which each message that makes the pipeline build an envelope carries the
provenance of the messages handled before it on its thread, what is built carries the provenance
of all messages handled so far on the thread. -/
theorem accumulates_of_reachable {s : State F}
    (hs : Reachable (guarded P registry federation (KeepsProvenance registry)) s) :
    Accumulates s := by
  refine hs.invariant ?_ ?_
  · intro s h
    obtain ⟨threads, rfl⟩ := h
    intro k job call effects env hr
    cases hr
  · intro s t h hst
    obtain ⟨e, hc, he⟩ := hst
    exact h.step hc he

/-! ## Two visits on one thread -/

def visitWith (p : Provenance) : Envelope UInt32 :=
  ⟨⟨.flat "user", some (.flat "alice"), "t1", p⟩, ⟨"Greeting", .nil⟩⟩

def routedWith (p : Provenance) : RoutedMsg UInt32 :=
  ⟨visitWith p, ⟨"Greeting", .nil⟩, "alice"⟩

def jobWith (p : Provenance) : Job UInt32 := ⟨routedWith p, .outside⟩

theorem decode_visitWith (p : Provenance) :
    decodeEnvelope plain (encodeEnvelope plain (visitWith p)) = .ok (visitWith p) :=
  decode_of_image (RoundTrip.wireImage_flat ⟨by decide, by decide⟩ ⟨by decide, by decide⟩
    (by decide) (by decide) p ⟨"Greeting", .nil⟩)

theorem visitWith_forwarded (p : Provenance) (threads : ThreadRegistry) :
    ingress plain (desk (.flat "bob")).registry none threads
        (encodeEnvelope plain (visitWith p)) =
      (registerThread threads "t1" "user" "alice", .routed (.forwarded (routedWith p))) := by
  have hroute : (desk (.flat "bob")).registry.routing.resolve plain.lowercase (some "alice")
      "Greeting" = .ok ⟨"alice", false, List.toFinset [],
        routeKey plain.lowercase "alice" "Greeting"⟩ :=
    (RoutingTable.resolve_register_of_ne false [] (by decide)).trans
      (RoutingTable.resolve_register_of_free false [] rfl)
  have hf := (ingress_forwarded_iff plain (desk (.flat "bob")).registry none threads
    (encodeEnvelope plain (visitWith p)) (routedWith p)).mpr
      ⟨visitWith p, _, ⟨decode_visitWith p, rfl, rfl, hroute⟩, desk_no_agent _ _ _, rfl⟩
  exact Prod.ext (ingress_forwarded plain hf).2 hf

abbrev visitRuns (condition : State UInt32 → Event UInt32 → Prop) : System (State UInt32) :=
  guarded plain (desk (.flat "bob")).registry none condition

def rawVisit (p : Provenance) : Item UInt32 := ⟨encodeEnvelope plain (visitWith p), .outside⟩

/-- Both visits are on the ingress. -/
def twoVisits (p q : Provenance) : State UInt32 :=
  { State.boot .new with queue := [rawVisit p, rawVisit q] }

/-- Alice handles the first visit. -/
def firstVisit (p q : Provenance) : State UInt32 :=
  (twoVisits p q).begun booked (jobWith p) [rawVisit q] []

/-- Alice's handler has failed on the first visit. -/
def firstDone (p q : Provenance) : State UInt32 :=
  let s := (firstVisit p q).handled plain (desk (.flat "bob")).registry "t1" (jobWith p)
    (some (.error (.handler "closed")))
  { s.setProgress "t1" .idle with lanes := s.lanes.set "t1" ⟨[jobWith p], none, []⟩ }

/-- Alice handles the second visit. -/
def secondVisit (p q : Provenance) : State UInt32 :=
  (firstDone p q).begun booked (jobWith q) [] [jobWith p]

/-- She is about to ask bob. -/
def secondCalls (p q : Provenance) : State UInt32 :=
  (secondVisit p q).handled plain (desk (.flat "bob")).registry "t1" (jobWith q)
    (some (.ok (.send (.flat "bob") ⟨"Order", .nil⟩)))

def secondAsks (p q : Provenance) : State UInt32 :=
  (secondCalls p q).extended plain "t1" "u1" (jobWith q) .sync (.flat "bob") ⟨"Order", .nil⟩

theorem secondAsks_reachable {condition : State UInt32 → Event UInt32 → Prop}
    (hc : ∀ s e, KeepsProvenance (desk (.flat "bob")).registry s e → condition s e)
    {p q : Provenance} (hx : condition (secondCalls p q) (.extend "t1" "u1")) :
    Reachable (visitRuns condition) (secondAsks p q) := by
  have hinject (s raw) : condition s (.inject raw) := hc _ _ trivial
  have hfree (s) : condition s .accept ∧ condition s (.start "t1") :=
    ⟨hc _ _ trivial, hc _ _ trivial⟩
  have h0 : Reachable (visitRuns condition) (State.boot .new) := .start ⟨.new, rfl⟩
  have h1 := h0.next ⟨_, hinject _ _, .inject _ (encodeEnvelope plain (visitWith p))⟩
  have h2 : Reachable (visitRuns condition) (twoVisits p q) :=
    h1.next ⟨_, hinject _ _, .inject _ (encodeEnvelope plain (visitWith q))⟩
  have h3 : Reachable (visitRuns condition) (firstVisit p q) :=
    begun_of_idle h2 rfl rfl (visitWith_forwarded p .new) rfl rfl (hc _ _ trivial) hfree
  have hfail : condition (firstVisit p q) (.handled "t1" (some (.error (.handler "closed")))) :=
    hc _ _ fun _ _ _ _ he => nomatch he
  have h4 := h3.next ⟨_, hfail, .handled _ "t1" (jobWith p) _ rfl rfl rfl⟩
  have h5 : Reachable (visitRuns condition) (firstDone p q) :=
    h4.next ⟨_, hc _ (.finish "t1") trivial, .finish _ "t1" (jobWith p) none [] [] rfl rfl⟩
  have h6 : Reachable (visitRuns condition) (secondVisit p q) :=
    begun_of_idle h5 rfl rfl (visitWith_forwarded q booked) rfl rfl (hc _ _ trivial) hfree
  have hsend : condition (secondVisit p q)
      (.handled "t1" (some (.ok (.send (.flat "bob") ⟨"Order", .nil⟩)))) :=
    hc _ _ fun _ _ _ _ he => nomatch he
  have h7 : Reachable (visitRuns condition) (secondCalls p q) :=
    h6.next ⟨_, hsend, .handled _ "t1" (jobWith q) _ rfl rfl rfl⟩
  exact h7.next ⟨_, hx, .extend _ "t1" "u1" (jobWith q) .sync (.flat "bob") ⟨"Order", .nil⟩ rfl rfl⟩

theorem covers_union (p q : Provenance) : Covers (p.union q) p := by
  intro bit h
  rw [Provenance.union_containsBit, h]
  rfl

def lowBit : Provenance := ⟨1, 0⟩

/-- A second visit that carries the provenance of the first and more. -/
theorem accumulates_visits : Accumulates (secondAsks lowBit (lowBit.union ⟨2, 0⟩)) := by
  refine accumulates_of_reachable (secondAsks_reachable (fun _ _ h => h) ?_)
  intro job hr earlier he
  obtain rfl : jobWith (lowBit.union ⟨2, 0⟩) = job := Option.some_inj.mp hr
  rw [List.mem_singleton.mp he]
  exact covers_union lowBit ⟨2, 0⟩

/-- The first visit is tainted and the second is not: alice's question to bob is clean. -/
theorem taint_forgotten :
    ∃ s : State UInt32, Reachable (visitRuns fun _ _ => True) s ∧ ¬ Accumulates s := by
  refine ⟨secondAsks lowBit .empty, secondAsks_reachable (fun _ _ _ => trivial) trivial, ?_⟩
  intro h
  have hbuilt : Builds (callEffects plain (routedWith .empty) .sync (.flat "bob") ⟨"Order", .nil⟩
      "u1") (callEnvelope (routedWith .empty) (.flat "bob") "u1" ⟨"Order", .nil⟩) :=
    ⟨_, .inr List.mem_cons_self⟩
  have hcov := h "t1" (jobWith .empty) _ _ _ rfl rfl hbuilt (jobWith lowBit) List.mem_cons_self
  have hbit : Provenance.empty.containsBit 0 = true := hcov 0 rfl
  revert hbit
  decide

end RustPipeline.ThreadProvenance
