import RustPipeline.Dispatch
import RustPipeline.Ingress

set_option autoImplicit false

/-!
# Interleaved workers

The route stage, the lanes that the dispatcher refines, and the points of `process_message` between
which other workers take steps. A handler may keep state, so any result may be what it answers.
-/
namespace RustPipeline.Interleaving
open Text Wire Codec Handling Routing Registry Thread Federation Pipeline Ingress Lanes
open TransitionSystem Relation

variable {F : Type}

/-! ## The steps -/

/-- A `Send` or `Spawn` whose chain was extended: how many were before it, the message being
    handled, the destination, and the thread id of the call. -/
structure CallEdge (F : Type) where
  number : ℕ
  msg : RoutedMsg F
  toAddr : Address
  kind : CallKind
  thread : String

/-- Where an envelope comes from: the call whose work it is, and the calls from the handling of whose
    work it descends. -/
structure Origin (F : Type) where
  work : Option (CallEdge F)
  calls : List (CallEdge F)

def Origin.outside : Origin F := ⟨none, []⟩

/-- The calls from which what is sent next descends. -/
def Origin.past (o : Origin F) : List (CallEdge F) := o.work.toList ++ o.calls

structure Item (F : Type) where
  raw : Bytes
  origin : Origin F

structure Job (F : Type) where
  msg : RoutedMsg F
  origin : Origin F

/-- Where a worker stands in `process_message`. One that is `answering` has closed its call edge but
    not yet pruned the chain; one that is `calling` has passed the peer check but not yet extended
    the chain; one that is `emitting` may have made a call. -/
inductive Progress (F : Type) where
  | idle
  | handling
  | answering (payload : Payload F)
  | calling (kind : CallKind) (toAddr : Address) (payload : Payload F)
  | emitting (call : Option (CallEdge F)) (effects : List (Effect F))

/-- An effect, with the calls from which it descends and the call that the handler made. -/
structure Entry (F : Type) where
  past : List (CallEdge F)
  call : Option (CallEdge F)
  effect : Effect F

/-- `queue` is the ingress, `routed` what the route stage has forwarded. The effects and the calls
    are recorded. -/
structure State (F : Type) where
  threads : ThreadRegistry
  queue : List (Item F)
  routed : List (Job F)
  lanes : Lanes.State String (Job F)
  progress : String → Progress F
  log : List (Entry F)
  calls : List (CallEdge F)

inductive Event (F : Type) where
  | inject (raw : Bytes)
  | route
  | accept
  | start (k : String)
  | handled (k : String) (result : Option (Except PipelineError (HandlerResponse F)))
  | prune (k fresh : String)
  | extend (k fresh : String)
  | emit (k : String)
  | finish (k : String)

def Job.thread (job : Job F) : String := Dispatch.key job.msg

def accepted (job : Job F) (lanes : Lanes.State String (Job F)) : Lanes.State String (Job F) :=
  ⟨lanes.accepted ++ [job],
    Function.update lanes.lane job.thread ((lanes.lane job.thread).accept job)⟩

namespace State

def boot (threads : ThreadRegistry) : State F :=
  ⟨threads, [], [], ⟨[], fun _ => .empty⟩, fun _ => .idle, [], []⟩

def setProgress (s : State F) (k : String) (p : Progress F) : State F :=
  { s with progress := Function.update s.progress k p }

def record (s : State F) (job : Job F) (call : Option (CallEdge F)) (effects : List (Effect F)) :
    State F :=
  { s with log := s.log ++ effects.map (Entry.mk job.origin.past call) }

def running (s : State F) (k : String) : Option (Job F) := (s.lanes.lane k).running

end State

variable (P : Platform F)

/-- The route stage takes an item from the ingress. -/
def State.take (registry : ListenerRegistry F) (federation : Option PeerDirectory) (s : State F)
    (item : Item F) (rest : List (Item F)) : State F :=
  match ingress P registry federation s.threads item.raw with
  | (threads, .routed (.forwarded msg)) =>
    { s with threads := threads, queue := rest, routed := s.routed ++ [⟨msg, item.origin⟩] }
  | (threads, _) => { s with threads := threads, queue := rest }

/-- What the worker does next once the handler and the middleware are done. -/
def afterHandler (registry : ListenerRegistry F) (msg : RoutedMsg F) :
    Option (Except PipelineError (HandlerResponse F)) → Progress F
  | some (.ok .none) => .answering toolAck
  | some (.ok (.reply payload)) => .answering payload
  | some (.ok (.send toAddr payload)) =>
    match registry.routing.enforcePeers msg.targetName toAddr.organismName with
    | .error _ => .emitting none []
    | .ok () => .calling .sync toAddr payload
  | some (.ok (.spawn toAddr payload)) =>
    match registry.routing.enforcePeers msg.targetName toAddr.organismName with
    | .error _ => .emitting none [emitAnswer P (spawnAckEnvelope msg toAddr.organismName false)]
    | .ok () => .calling .async toAddr payload
  | some (.error _) => .emitting none []
  | none => .emitting none []

/-- `on_close`, which an answer begins with. -/
def closing (msg : RoutedMsg F) : Progress F → List (Effect F)
  | .answering _ => [.onClose msg.envelope.header.thread]
  | _ => []

def answerEffects (msg : RoutedMsg F) (payload : Payload F) :
    Option PruneResult → List (Effect F)
  | some prune => [emitAnswer P (answerEnvelope msg prune payload)]
  | none => []

def callEffects (msg : RoutedMsg F) (kind : CallKind) (toAddr : Address) (payload : Payload F)
    (id : String) : List (Effect F) :=
  [emitCall P (callEnvelope msg toAddr id payload),
    .onOpen msg.targetName toAddr.organismName id kind] ++
  match kind with
  | .sync => []
  | .async => [emitAnswer P (spawnAckEnvelope msg toAddr.organismName true)]

/-- What an effect puts on the ingress. -/
def injected (job : Job F) (call : Option (CallEdge F)) : Effect F → List (Item F)
  | .call _ raw => [⟨raw, call, job.origin.past⟩]
  | .answer _ raw => [⟨raw, none, job.origin.past⟩]
  | _ => []

namespace State

def handled (registry : ListenerRegistry F) (s : State F) (k : String) (job : Job F)
    (result : Option (Except PipelineError (HandlerResponse F))) : State F :=
  (s.setProgress k (afterHandler P registry job.msg result)).record job none
    (closing job.msg (afterHandler P registry job.msg result))

def pruned (s : State F) (k fresh : String) (job : Job F) (payload : Payload F) : State F :=
  let (prune, threads) := s.threads.pruneForResponse job.thread fresh
  { s.setProgress k (.emitting none (answerEffects P job.msg payload prune)) with
    threads := threads }

def extended (s : State F) (k fresh : String) (job : Job F) (kind : CallKind) (toAddr : Address)
    (payload : Payload F) : State F :=
  let (id, threads) := s.threads.extendChain job.thread toAddr.organismName fresh
  let call : CallEdge F := ⟨s.calls.length, job.msg, toAddr, kind, id⟩
  { s.setProgress k (.emitting (some call) (callEffects P job.msg kind toAddr payload id)) with
    threads := threads
    calls := s.calls ++ [call] }

def emitted (s : State F) (k : String) (job : Job F) (call : Option (CallEdge F))
    (effect : Effect F) (rest : List (Effect F)) : State F :=
  { (s.setProgress k (.emitting call rest)).record job call [effect] with
    queue := s.queue ++ injected job call effect }

end State

inductive Step (registry : ListenerRegistry F) (federation : Option PeerDirectory) :
    State F → Event F → State F → Prop where
  | inject (s : State F) (raw : Bytes) : Step registry federation s (.inject raw)
      { s with queue := s.queue ++ [⟨raw, .outside⟩] }
  | route (s : State F) (item : Item F) (rest : List (Item F)) (h : s.queue = item :: rest) :
      Step registry federation s .route (s.take P registry federation item rest)
  | accept (s : State F) (job : Job F) (rest : List (Job F)) (h : s.routed = job :: rest) :
      Step registry federation s .accept { s with routed := rest, lanes := accepted job s.lanes }
  | start (s : State F) (k : String) (job : Job F) (fin rest : List (Job F))
      (h : s.lanes.lane k = ⟨fin, none, job :: rest⟩) (hp : s.progress k = .idle) :
      Step registry federation s (.start k)
        { s.setProgress k .handling with lanes := s.lanes.set k ⟨fin, some job, rest⟩ }
  | handled (s : State F) (k : String) (job : Job F)
      (result : Option (Except PipelineError (HandlerResponse F))) (h : s.running k = some job)
      (hp : s.progress k = .handling)
      (hh : result.isSome = (registry.getHandler job.msg.targetName).isSome) :
      Step registry federation s (.handled k result) (s.handled P registry k job result)
  | prune (s : State F) (k fresh : String) (job : Job F) (payload : Payload F)
      (h : s.running k = some job) (hp : s.progress k = .answering payload) :
      Step registry federation s (.prune k fresh) (s.pruned P k fresh job payload)
  | extend (s : State F) (k fresh : String) (job : Job F) (kind : CallKind) (toAddr : Address)
      (payload : Payload F) (h : s.running k = some job)
      (hp : s.progress k = .calling kind toAddr payload) :
      Step registry federation s (.extend k fresh) (s.extended P k fresh job kind toAddr payload)
  | emit (s : State F) (k : String) (job : Job F) (call : Option (CallEdge F)) (effect : Effect F)
      (rest : List (Effect F)) (h : s.running k = some job)
      (hp : s.progress k = .emitting call (effect :: rest)) :
      Step registry federation s (.emit k) (s.emitted k job call effect rest)
  | finish (s : State F) (k : String) (job : Job F) (call : Option (CallEdge F))
      (fin rest : List (Job F)) (h : s.lanes.lane k = ⟨fin, some job, rest⟩)
      (hp : s.progress k = .emitting call []) :
      Step registry federation s (.finish k)
        { s.setProgress k .idle with lanes := s.lanes.set k ⟨fin ++ [job], none, rest⟩ }

/-- The runs all of whose steps meet a condition on the state before the step. -/
def guarded (registry : ListenerRegistry F) (federation : Option PeerDirectory)
    (condition : State F → Event F → Prop) : System (State F) where
  init s := ∃ threads, s = .boot threads
  step := fun s t => ∃ e, condition s e ∧ Step P registry federation s e t

variable {P} {registry : ListenerRegistry F} {federation : Option PeerDirectory}
  {condition : State F → Event F → Prop}

theorem injected_calls {job : Job F} {call : Option (CallEdge F)} {effect : Effect F}
    {item : Item F} (h : item ∈ injected job call effect) :
    item.origin.calls = job.origin.past := by
  cases effect with
  | onClose thread => cases h
  | onOpen caller callee thread kind => cases h
  | answer env raw => rw [List.mem_singleton.mp h]
  | call env raw => rw [List.mem_singleton.mp h]

/-! ## The lanes -/

theorem accepted_running (job : Job F) (lanes : Lanes.State String (Job F)) (k : String) :
    ((accepted job lanes).lane k).running = (lanes.lane k).running := by
  change (Function.update lanes.lane job.thread _ k).running = _
  by_cases hk : k = job.thread
  · rw [hk, Function.update_self]
    rfl
  · rw [Function.update_of_ne hk]

theorem State.take_log (s : State F) (item : Item F) (rest : List (Item F)) :
    (s.take P registry federation item rest).log = s.log := by
  unfold State.take
  split <;> rfl

theorem State.take_queue (s : State F) (item : Item F) (rest : List (Item F)) :
    (s.take P registry federation item rest).queue = rest := by
  unfold State.take
  split <;> rfl

theorem State.take_progress (s : State F) (item : Item F) (rest : List (Item F)) :
    (s.take P registry federation item rest).progress = s.progress := by
  unfold State.take
  split <;> rfl

theorem State.take_calls (s : State F) (item : Item F) (rest : List (Item F)) :
    (s.take P registry federation item rest).calls = s.calls := by
  unfold State.take
  split <;> rfl

theorem State.take_lanes (s : State F) (item : Item F) (rest : List (Item F)) :
    (s.take P registry federation item rest).lanes = s.lanes := by
  unfold State.take
  split <;> rfl

theorem State.take_of_forwarded {s : State F} {item : Item F} {rest : List (Item F)}
    {threads : ThreadRegistry} {msg : RoutedMsg F}
    (h : ingress P registry federation s.threads item.raw = (threads, .routed (.forwarded msg))) :
    s.take P registry federation item rest =
      { s with threads := threads, queue := rest, routed := s.routed ++ [⟨msg, item.origin⟩] } := by
  unfold State.take
  rw [h]

theorem Step.forwarded {s : State F} {raw : Bytes} {origin : Origin F} {rest : List (Item F)}
    {threads : ThreadRegistry} {msg : RoutedMsg F} (hq : s.queue = ⟨raw, origin⟩ :: rest)
    (h : ingress P registry federation s.threads raw = (threads, .routed (.forwarded msg))) :
    Step P registry federation s .route { s with
      threads := threads, queue := rest, routed := s.routed ++ [⟨msg, origin⟩] } := by
  have htake : s.take P registry federation ⟨raw, origin⟩ rest = { s with
      threads := threads, queue := rest, routed := s.routed ++ [⟨msg, origin⟩] } :=
    State.take_of_forwarded h
  rw [← htake]
  exact .route s ⟨raw, origin⟩ rest hq

/-- What the route stage does with an item: it forwards it and registers its thread, or the item is
    gone and nothing else happens. -/
theorem State.take_cases (s : State F) (item : Item F) (rest : List (Item F)) :
    (∃ msg, decodeEnvelope P item.raw = .ok msg.envelope ∧
      s.take P registry federation item rest = { s with
        threads := Pipeline.registerThread s.threads msg.envelope.header.thread
          msg.envelope.header.fromAddr.organismName msg.targetName
        queue := rest
        routed := s.routed ++ [⟨msg, item.origin⟩] }) ∨
      s.take P registry federation item rest = { s with queue := rest } := by
  obtain ⟨threads, outcome, hi⟩ : ∃ threads outcome,
      ingress P registry federation s.threads item.raw = (threads, outcome) := ⟨_, _, rfl⟩
  by_cases hf : ∃ msg, outcome = .routed (.forwarded msg)
  · obtain ⟨msg, rfl⟩ := hf
    have hsnd : (ingress P registry federation s.threads item.raw).2 =
        .routed (.forwarded msg) := by rw [hi]
    obtain ⟨hd, ht⟩ := ingress_forwarded P hsnd
    rw [hi] at ht
    refine .inl ⟨msg, hd, ?_⟩
    rw [State.take_of_forwarded hi, show threads = _ from ht]
  · have hno : ∀ msg, (ingress P registry federation s.threads item.raw).2 ≠
        .routed (.forwarded msg) := by
      intro msg hmsg
      rw [hi] at hmsg
      exact hf ⟨msg, hmsg⟩
    have ht := ingress_threads P hno
    rw [hi] at ht
    refine .inr ?_
    unfold State.take
    rw [hi]
    split
    · next threads' msg he => exact absurd ⟨msg, congrArg Prod.snd he⟩ hf
    · next threads' outcome' hn he =>
      rw [← show threads = threads' from congrArg Prod.fst he, show threads = s.threads from ht]

theorem step_lanes {s t : State F} {e : Event F} (h : Step P registry federation s e t) :
    t.lanes = s.lanes ∨ Lanes.Step Job.thread s.lanes t.lanes := by
  cases h with
  | inject raw => exact .inl rfl
  | route item rest h => exact .inl (s.take_lanes item rest)
  | accept job rest h => exact .inr (.accept s.lanes job)
  | start k job fin rest h hp => exact .inr (.start s.lanes k job fin rest h)
  | handled k job result h hp hh => exact .inl rfl
  | prune k fresh job payload h hp => exact .inl rfl
  | extend k fresh job kind toAddr payload h hp => exact .inl rfl
  | emit k job call effect rest h hp => exact .inl rfl
  | finish k job call fin rest h hp => exact .inr (.finish s.lanes k job fin rest h)

/-- The workers run keyed lanes, one for each thread id. -/
def refinesLanes : Simulation (guarded P registry federation condition)
    (Lanes.system (Job.thread (F := F))) where
  rel s a := a = s.lanes
  init s h := by
    obtain ⟨threads, rfl⟩ := h
    exact ⟨_, ⟨rfl, fun _ => rfl⟩, rfl⟩
  step s t a h hs := by
    obtain ⟨e, _, hs⟩ := hs
    subst h
    refine ⟨t.lanes, ?_, rfl⟩
    rcases step_lanes hs with h | h
    · rw [h]
    · exact .single h

/-- A lane holds messages of its own thread id. -/
theorem thread_of_contents {s : State F}
    (hs : Reachable (guarded P registry federation condition) s) {k : String} {job : Job F}
    (h : job ∈ (s.lanes.lane k).contents) : job.thread = k := by
  obtain ⟨a, ha, rfl⟩ := refinesLanes.reachable hs
  rw [← accounted_of_reachable ha k, List.mem_filter, decide_eq_true_eq] at h
  exact h.2

/-! ## The messages that are not done with -/

/-- Routed, and not yet done with. -/
def Unfinished (s : State F) (job : Job F) : Prop :=
  job ∈ s.routed ∨ ∃ k, s.running k = some job ∨ job ∈ (s.lanes.lane k).waiting

/-- A lane that only loses messages. -/
theorem unfinished_set {s : State F} {k : String} {l : Lane (Job F)} {job : Job F}
    (hl : ∀ j, l.running = some j ∨ j ∈ l.waiting → Unfinished s j) {progress : String → Progress F}
    (h : Unfinished { s with lanes := s.lanes.set k l, progress := progress } job) :
    Unfinished s job := by
  rcases h with h | ⟨i, h⟩
  · exact .inl h
  · change (Function.update s.lanes.lane k l i).running = some job ∨
      job ∈ (Function.update s.lanes.lane k l i).waiting at h
    by_cases hi : i = k
    · rw [hi, Function.update_self] at h
      exact hl job h
    · rw [Function.update_of_ne hi] at h
      exact .inr ⟨i, h⟩

theorem unfinished_accept {s : State F} {job : Job F} {rest : List (Job F)} {j : Job F}
    (hr : s.routed = job :: rest)
    (h : Unfinished { s with routed := rest, lanes := accepted job s.lanes } j) :
    Unfinished s j := by
  rcases h with h | ⟨k, h⟩
  · exact .inl (hr ▸ List.mem_cons_of_mem job h)
  · change (Function.update s.lanes.lane job.thread _ k).running = some j ∨
      j ∈ (Function.update s.lanes.lane job.thread _ k).waiting at h
    by_cases hk : k = job.thread
    · rw [hk, Function.update_self] at h
      rcases h with h | h
      · exact .inr ⟨job.thread, .inl h⟩
      · rcases List.mem_append.mp h with h | h
        · exact .inr ⟨job.thread, .inr h⟩
        · rw [List.mem_singleton.mp h]
          exact .inl (hr ▸ List.mem_cons_self)
    · rw [Function.update_of_ne hk] at h
      exact .inr ⟨k, h⟩

/-- What the route stage adds to the unfinished messages. -/
theorem unfinished_take {s : State F} {item : Item F} {rest : List (Item F)} {job : Job F}
    (h : Unfinished (s.take P registry federation item rest) job) :
    Unfinished s job ∨ (ingress P registry federation s.threads item.raw).2 =
      .routed (.forwarded job.msg) ∧ job.origin = item.origin := by
  unfold State.take at h
  split at h
  · next threads msg hi =>
    rcases h with h | h
    · rcases List.mem_append.mp h with h | h
      · exact .inl (.inl h)
      · rw [List.mem_singleton.mp h, hi]
        exact .inr ⟨rfl, rfl⟩
    · exact .inl (.inr h)
  · exact .inl h

theorem unfinished_start {s : State F} {k : String} {job j : Job F} {fin rest : List (Job F)}
    (hl : s.lanes.lane k = ⟨fin, none, job :: rest⟩)
    (h : Unfinished { s.setProgress k .handling with
      lanes := s.lanes.set k ⟨fin, some job, rest⟩ } j) : Unfinished s j := by
  refine unfinished_set ?_ h
  intro i hi
  refine .inr ⟨k, .inr ?_⟩
  rw [hl]
  rcases hi with hi | hi
  · rw [Option.some_inj.mp hi]
    exact List.mem_cons_self
  · exact List.mem_cons_of_mem job hi

theorem unfinished_finish {s : State F} {k : String} {job j : Job F} {fin rest : List (Job F)}
    (hl : s.lanes.lane k = ⟨fin, some job, rest⟩)
    (h : Unfinished { s.setProgress k .idle with
      lanes := s.lanes.set k ⟨fin ++ [job], none, rest⟩ } j) : Unfinished s j := by
  refine unfinished_set ?_ h
  intro i hi
  rcases hi with hi | hi
  · cases hi
  · refine .inr ⟨k, .inr ?_⟩
    rw [hl]
    exact hi

/-! ## What holds of every worker -/

/-- A property of each message being handled and of where its worker stands. -/
def Throughout (Φ : Job F → Progress F → Prop) (s : State F) : Prop :=
  ∀ k job, s.running k = some job → Φ job (s.progress k)

variable (P registry) in
/-- The property holds when a worker starts, and each of the worker's steps keeps it. -/
structure KeptByWorkers (Φ : Job F → Progress F → Prop) : Prop where
  start : ∀ job, Φ job .handling
  handled : ∀ job result, result.isSome = (registry.getHandler job.msg.targetName).isSome →
    Φ job .handling → Φ job (afterHandler P registry job.msg result)
  prune : ∀ job payload (threads : ThreadRegistry) fresh, Φ job (.answering payload) →
    Φ job (.emitting none
      (answerEffects P job.msg payload (threads.pruneForResponse job.thread fresh).1))
  extend : ∀ job kind toAddr payload (threads : ThreadRegistry) fresh (number : ℕ),
    Φ job (.calling kind toAddr payload) →
      let id := (threads.extendChain job.thread toAddr.organismName fresh).1
      Φ job (.emitting (some ⟨number, job.msg, toAddr, kind, id⟩)
        (callEffects P job.msg kind toAddr payload id))
  emit : ∀ job call effect rest, Φ job (.emitting call (effect :: rest)) →
    Φ job (.emitting call rest)

/-- One worker moves on with the message that it handles. -/
theorem Throughout.setProgress {Φ : Job F → Progress F → Prop} {s t : State F}
    (h : Throughout Φ s) {k : String} {job : Job F} {p : Progress F}
    (hr : s.running k = some job) (hp : Φ job p) (hrunning : t.running = s.running)
    (hprogress : t.progress = Function.update s.progress k p) : Throughout Φ t := by
  intro j i hj
  rw [hrunning] at hj
  rw [hprogress]
  by_cases hjk : j = k
  · subst hjk
    rw [Function.update_self, Option.some_inj.mp (hj.symm.trans hr)]
    exact hp
  · rw [Function.update_of_ne hjk]
    exact h j i hj

/-- One worker takes a message or is done with one. -/
theorem Throughout.setLane {Φ : Job F → Progress F → Prop} {s : State F} (h : Throughout Φ s)
    {k : String} {l : Lane (Job F)} {p : Progress F} (hp : ∀ job, l.running = some job → Φ job p) :
    Throughout Φ { s.setProgress k p with lanes := s.lanes.set k l } := by
  intro j job hj
  change (Function.update s.lanes.lane k l j).running = some job at hj
  change Φ job (Function.update s.progress k p j)
  by_cases hjk : j = k
  · subst hjk
    rw [Function.update_self] at hj ⊢
    exact hp job hj
  · rw [Function.update_of_ne hjk] at hj ⊢
    exact h j job hj

theorem Throughout.step {Φ : Job F → Progress F → Prop} (hk : KeptByWorkers P registry Φ)
    {s t : State F} {e : Event F} (h : Throughout Φ s) (hs : Step P registry federation s e t) :
    Throughout Φ t := by
  cases hs with
  | inject raw => exact h
  | route item rest hq =>
    intro k job hr
    unfold State.running at hr
    rw [s.take_lanes] at hr
    rw [s.take_progress]
    exact h k job hr
  | accept job rest hq =>
    intro k i hr
    exact h k i ((accepted_running job s.lanes k).symm.trans hr)
  | start k job fin rest hl hp => exact h.setLane fun i _ => hk.start i
  | handled k job result hr hp hh =>
    have hjob := h k job hr
    rw [hp] at hjob
    exact h.setProgress hr (hk.handled job result hh hjob) rfl rfl
  | prune k fresh job payload hr hp =>
    have hjob := h k job hr
    rw [hp] at hjob
    exact h.setProgress hr (hk.prune job payload s.threads fresh hjob) rfl rfl
  | extend k fresh job kind toAddr payload hr hp =>
    have hjob := h k job hr
    rw [hp] at hjob
    exact h.setProgress hr (hk.extend job kind toAddr payload s.threads fresh _ hjob) rfl rfl
  | emit k job call effect rest hr hp =>
    have hjob := h k job hr
    rw [hp] at hjob
    exact h.setProgress hr (hk.emit job call effect rest hjob) rfl rfl
  | finish k job call fin rest hl hp =>
    refine h.setLane ?_
    intro i hi
    cases hi

theorem throughout_of_reachable {Φ : Job F → Progress F → Prop}
    (hk : KeptByWorkers P registry Φ) {s : State F}
    (hs : Reachable (guarded P registry federation condition) s) : Throughout Φ s := by
  refine hs.invariant ?_ ?_
  · intro s h
    obtain ⟨threads, rfl⟩ := h
    intro k job hr
    cases hr
  · intro s t h hst
    obtain ⟨e, _, he⟩ := hst
    exact h.step hk he

/-! ## A worker that nothing comes between -/

theorem answerUp_eq (threads : ThreadRegistry) (fresh : String) (msg : RoutedMsg F)
    (payload : Payload F) : answerUp P threads fresh msg payload =
      ((threads.pruneForResponse msg.envelope.header.thread fresh).2,
        .onClose msg.envelope.header.thread :: answerEffects P msg payload
          (threads.pruneForResponse msg.envelope.header.thread fresh).1) := by
  unfold answerUp
  dsimp only
  split <;> next h => rw [h]; rfl

theorem sendCall_of_ok {msg : RoutedMsg F} {toAddr : Address}
    (h : registry.routing.enforcePeers msg.targetName toAddr.organismName = .ok ())
    (threads : ThreadRegistry) (fresh : String) (payload : Payload F) :
    sendCall P registry threads fresh msg toAddr payload =
      let extended := threads.extendChain msg.envelope.header.thread toAddr.organismName fresh
      (extended.2, callEffects P msg .sync toAddr payload extended.1) := by
  unfold sendCall
  rw [h]
  rfl

theorem spawnCall_of_ok {msg : RoutedMsg F} {toAddr : Address}
    (h : registry.routing.enforcePeers msg.targetName toAddr.organismName = .ok ())
    (threads : ThreadRegistry) (fresh : String) (payload : Payload F) :
    spawnCall P registry threads fresh msg toAddr payload =
      let extended := threads.extendChain msg.envelope.header.thread toAddr.organismName fresh
      (extended.2, callEffects P msg .async toAddr payload extended.1) := by
  unfold spawnCall
  dsimp only
  rw [h]
  rfl

variable (P registry federation) in
abbrev Steps : State F → State F → Prop :=
  ReflTransGen fun s t => ∃ e, Step P registry federation s e t

/-- The worker has come from one state to the end of its message: the registry it left and the
    effects it had. -/
structure Ran (s t : State F) (k : String) (ran : ThreadRegistry × List (Effect F)) : Prop where
  threads : t.threads = ran.1
  log : t.log.map Entry.effect = s.log.map Entry.effect ++ ran.2
  ended : ∃ call, t.progress k = .emitting call []

/-- The effects of a list are emitted one by one. -/
theorem emit_all {k : String} {job : Job F} {call : Option (CallEdge F)}
    (effects : List (Effect F)) :
    ∀ s : State F, s.running k = some job → s.progress k = .emitting call effects →
      ∃ t, Steps P registry federation s t ∧ Ran s t k (s.threads, effects) := by
  induction effects with
  | nil =>
    intro s h hp
    exact ⟨s, .refl, rfl, by simp, call, hp⟩
  | cons effect rest ih =>
    intro s h hp
    have hstep : Step P registry federation s (.emit k) (s.emitted k job call effect rest) :=
      .emit s k job call effect rest h hp
    obtain ⟨t, hrun, ht⟩ := ih (s.emitted k job call effect rest) h (Function.update_self _ _ _)
    refine ⟨t, .head ⟨_, hstep⟩ hrun, ht.threads, ?_, ht.ended⟩
    rw [ht.log]
    simp [State.emitted, State.record, State.setProgress]

theorem answer_alone {s : State F} {k : String} {job : Job F} {payload : Payload F}
    (h : s.running k = some job) (hp : s.progress k = .answering payload) (fresh : String) :
    ∃ t, Steps P registry federation s t ∧
      Ran s t k ((s.threads.pruneForResponse job.thread fresh).2,
        answerEffects P job.msg payload (s.threads.pruneForResponse job.thread fresh).1) := by
  have hstep : Step P registry federation s (.prune k fresh) (s.pruned P k fresh job payload) :=
    .prune s k fresh job payload h hp
  obtain ⟨t, hrun, ht⟩ := emit_all (P := P) _ (s.pruned P k fresh job payload) h
    (Function.update_self _ _ _)
  exact ⟨t, .head ⟨_, hstep⟩ hrun, ht.threads, ht.log, ht.ended⟩

theorem call_alone {s : State F} {k : String} {job : Job F} {kind : CallKind} {toAddr : Address}
    {payload : Payload F} (h : s.running k = some job)
    (hp : s.progress k = .calling kind toAddr payload) (fresh : String) :
    ∃ t, Steps P registry federation s t ∧
      Ran s t k ((s.threads.extendChain job.thread toAddr.organismName fresh).2,
        callEffects P job.msg kind toAddr payload
          (s.threads.extendChain job.thread toAddr.organismName fresh).1) := by
  have hstep : Step P registry federation s (.extend k fresh)
      (s.extended P k fresh job kind toAddr payload) :=
    .extend s k fresh job kind toAddr payload h hp
  obtain ⟨t, hrun, ht⟩ := emit_all (P := P) _ (s.extended P k fresh job kind toAddr payload) h
    (Function.update_self _ _ _)
  exact ⟨t, .head ⟨_, hstep⟩ hrun, ht.threads, ht.log, ht.ended⟩

/-- The effects from the handler's return on. -/
theorem Ran.of_handled {s t : State F} {k : String} {job : Job F}
    {result : Option (Except PipelineError (HandlerResponse F))} {threads : ThreadRegistry}
    {effects : List (Effect F)}
    (h : Ran (s.handled P registry k job result) t k (threads, effects)) :
    Ran s t k (threads, closing job.msg (afterHandler P registry job.msg result) ++ effects) where
  threads := h.threads
  log := by
    rw [h.log]
    simp [State.handled, State.record, State.setProgress, Function.comp_def]
  ended := h.ended

theorem alone_of_answering {s : State F} {k : String} {job : Job F}
    {result : Option (Except PipelineError (HandlerResponse F))} {payload : Payload F}
    (h : s.running k = some job) (hp : s.progress k = .handling)
    (hh : result.isSome = (registry.getHandler job.msg.targetName).isSome)
    (ha : afterHandler P registry job.msg result = .answering payload) (fresh : String) :
    ∃ t, Steps P registry federation s t ∧
      Ran s t k (answerUp P s.threads fresh job.msg payload) := by
  have hself : (s.handled P registry k job result).progress k = .answering payload :=
    (Function.update_self _ _ _).trans ha
  have hsame : (s.handled P registry k job result).running k = some job := h
  obtain ⟨t, hrun, ht⟩ := answer_alone hsame hself fresh
  have hran := ht.of_handled
  rw [ha] at hran
  rw [answerUp_eq]
  exact ⟨t, .head ⟨_, .handled s k job result h hp hh⟩ hrun, hran⟩

theorem alone_of_calling {s : State F} {k : String} {job : Job F}
    {result : Option (Except PipelineError (HandlerResponse F))} {kind : CallKind}
    {toAddr : Address} {payload : Payload F} (h : s.running k = some job)
    (hp : s.progress k = .handling)
    (hh : result.isSome = (registry.getHandler job.msg.targetName).isSome)
    (ha : afterHandler P registry job.msg result = .calling kind toAddr payload) (fresh : String) :
    ∃ t, Steps P registry federation s t ∧
      Ran s t k ((s.threads.extendChain job.thread toAddr.organismName fresh).2,
        callEffects P job.msg kind toAddr payload
          (s.threads.extendChain job.thread toAddr.organismName fresh).1) := by
  have hself : (s.handled P registry k job result).progress k = .calling kind toAddr payload :=
    (Function.update_self _ _ _).trans ha
  have hsame : (s.handled P registry k job result).running k = some job := h
  obtain ⟨t, hrun, ht⟩ := call_alone hsame hself fresh
  have hran := ht.of_handled
  rw [ha] at hran
  exact ⟨t, .head ⟨_, .handled s k job result h hp hh⟩ hrun, hran⟩

theorem alone_of_emitting {s : State F} {k : String} {job : Job F}
    {result : Option (Except PipelineError (HandlerResponse F))} {effects : List (Effect F)}
    (h : s.running k = some job) (hp : s.progress k = .handling)
    (hh : result.isSome = (registry.getHandler job.msg.targetName).isSome)
    (ha : afterHandler P registry job.msg result = .emitting none effects) :
    ∃ t, Steps P registry federation s t ∧ Ran s t k (s.threads, effects) := by
  have hself : (s.handled P registry k job result).progress k = .emitting none effects :=
    (Function.update_self _ _ _).trans ha
  have hsame : (s.handled P registry k job result).running k = some job := h
  obtain ⟨t, hrun, ht⟩ := emit_all effects _ hsame hself
  have hran := ht.of_handled
  rw [ha] at hran
  exact ⟨t, .head ⟨_, .handled s k job result h hp hh⟩ hrun, hran⟩

/-- A worker that runs alone leaves what `respond` answers. -/
theorem respond_alone {s : State F} {k : String} {job : Job F} (h : s.running k = some job)
    (hp : s.progress k = .handling) (hh : (registry.getHandler job.msg.targetName).isSome)
    (response : HandlerResponse F) (fresh : String) :
    ∃ t, Steps P registry federation s t ∧
      Ran s t k (respond P registry s.threads fresh job.msg response) := by
  have hsome : (some (.ok response) : Option (Except PipelineError (HandlerResponse F))).isSome =
      (registry.getHandler job.msg.targetName).isSome := hh.symm
  cases response with
  | none => exact alone_of_answering h hp hsome rfl fresh
  | reply payload => exact alone_of_answering h hp hsome rfl fresh
  | send toAddr payload =>
    cases hpeer : registry.routing.enforcePeers job.msg.targetName toAddr.organismName with
    | error e =>
      have hr : respond P registry s.threads fresh job.msg (.send toAddr payload) =
          (s.threads, []) := by
        simp [respond, sendCall, hpeer]
      rw [hr]
      exact alone_of_emitting h hp hsome (by simp [afterHandler, hpeer])
    | ok u =>
      rw [respond, sendCall_of_ok hpeer]
      exact alone_of_calling h hp hsome (by simp [afterHandler, hpeer]) fresh
  | spawn toAddr payload =>
    cases hpeer : registry.routing.enforcePeers job.msg.targetName toAddr.organismName with
    | error e =>
      have hr : respond P registry s.threads fresh job.msg (.spawn toAddr payload) = (s.threads,
          [emitAnswer P (spawnAckEnvelope job.msg toAddr.organismName false)]) := by
        simp [respond, spawnCall, hpeer]
      rw [hr]
      exact alone_of_emitting h hp hsome (by simp [afterHandler, hpeer])
    | ok u =>
      rw [respond, spawnCall_of_ok hpeer]
      exact alone_of_calling h hp hsome (by simp [afterHandler, hpeer]) fresh

/-! ## Runs of a few steps -/

/-- The first item of the ingress is routed and accepted, and its worker starts. -/
def State.begun (s : State F) (threads : ThreadRegistry) (job : Job F) (rest : List (Item F))
    (fin : List (Job F)) : State F :=
  { s.setProgress job.thread .handling with
    threads := threads
    queue := rest
    routed := []
    lanes := (accepted job s.lanes).set job.thread ⟨fin, some job, []⟩ }

theorem begun_of_idle {s : State F} (hs : Reachable (guarded P registry federation condition) s)
    {raw : Bytes} {origin : Origin F} {rest : List (Item F)} {threads : ThreadRegistry}
    {msg : RoutedMsg F} {fin : List (Job F)} (hq : s.queue = ⟨raw, origin⟩ :: rest)
    (hr : s.routed = [])
    (hf : ingress P registry federation s.threads raw = (threads, .routed (.forwarded msg)))
    (hl : s.lanes.lane (Dispatch.key msg) = ⟨fin, none, []⟩)
    (hp : s.progress (Dispatch.key msg) = .idle) (hroute : condition s .route)
    (hfree : ∀ s, condition s .accept ∧ condition s (.start (Dispatch.key msg))) :
    Reachable (guarded P registry federation condition)
      (s.begun threads ⟨msg, origin⟩ rest fin) := by
  have h1 := hs.next ⟨_, hroute, .forwarded hq hf⟩
  rw [hr] at h1
  have h2 := h1.next ⟨_, (hfree _).1, .accept _ ⟨msg, origin⟩ [] rfl⟩
  have hlane : (accepted (⟨msg, origin⟩ : Job F) s.lanes).lane (Dispatch.key msg) =
      ⟨fin, none, [⟨msg, origin⟩]⟩ := by
    change Function.update s.lanes.lane _ _ (Dispatch.key msg) = _
    rw [Job.thread, Function.update_self, hl]
    rfl
  have h3 := h2.next ⟨_, (hfree _).2, .start _ (Dispatch.key msg) ⟨msg, origin⟩ fin [] hlane hp⟩
  exact h3

/-- The worker extends the chain and puts the call on the ingress; what remains is `on_open` and,
    after a `Spawn`, the acknowledgement. -/
def State.called (P : Platform F) (s : State F) (threads : ThreadRegistry) (k : String)
    (job : Job F) (call : CallEdge F) (payload : Payload F) : State F :=
  let work := callEnvelope job.msg call.toAddr call.thread payload
  { (s.setProgress k (.emitting (some call)
      (callEffects P job.msg call.kind call.toAddr payload call.thread).tail)).record job
        (some call) [emitCall P work] with
    threads := threads
    queue := s.queue ++ [⟨encodeEnvelope P work, some call, job.origin.past⟩]
    calls := s.calls ++ [call] }

theorem State.extended_eq {s : State F} {k id fresh : String} {job : Job F} {kind : CallKind}
    {toAddr : Address} {payload : Payload F} {threads : ThreadRegistry}
    (hx : s.threads.extendChain job.thread toAddr.organismName fresh = (id, threads)) :
    s.extended P k fresh job kind toAddr payload =
      { s.setProgress k (.emitting (some ⟨s.calls.length, job.msg, toAddr, kind, id⟩)
          (callEffects P job.msg kind toAddr payload id)) with
        threads := threads
        calls := s.calls ++ [⟨s.calls.length, job.msg, toAddr, kind, id⟩] } := by
  unfold State.extended
  rw [hx]

theorem called_of_handling {s : State F}
    (hs : Reachable (guarded P registry federation condition) s) {k id fresh : String}
    {job : Job F} {r : Option (Except PipelineError (HandlerResponse F))} {kind : CallKind}
    {toAddr : Address} {payload : Payload F} {threads : ThreadRegistry}
    (hr : s.running k = some job) (hp : s.progress k = .handling)
    (hh : r.isSome = (registry.getHandler job.msg.targetName).isSome)
    (ha : afterHandler P registry job.msg r = .calling kind toAddr payload)
    (hx : s.threads.extendChain job.thread toAddr.organismName fresh = (id, threads))
    (hhandled : condition s (.handled k r))
    (hextend : condition (s.setProgress k (.calling kind toAddr payload)) (.extend k fresh))
    (hemit : ∀ s, condition s (.emit k)) :
    Reachable (guarded P registry federation condition)
      (s.called P threads k job ⟨s.calls.length, job.msg, toAddr, kind, id⟩ payload) := by
  have h1 := hs.next ⟨_, hhandled, .handled s k job r hr hp hh⟩
  have hcalling : s.handled P registry k job r =
      s.setProgress k (.calling kind toAddr payload) := by
    unfold State.handled
    rw [ha]
    simp [closing, State.record, State.setProgress]
  rw [hcalling] at h1
  have h2 := h1.next ⟨_, hextend, .extend _ k fresh job kind toAddr payload hr
    (Function.update_self _ _ _)⟩
  have hx' : (s.setProgress k (.calling kind toAddr payload)).threads.extendChain job.thread
      toAddr.organismName fresh = (id, threads) := hx
  rw [State.extended_eq hx'] at h2
  have h3 := h2.next ⟨_, hemit _, .emit _ k job (some ⟨s.calls.length, job.msg, toAddr, kind, id⟩)
    (emitCall P (callEnvelope job.msg toAddr id payload))
    (callEffects P job.msg kind toAddr payload id).tail hr (Function.update_self _ _ _)⟩
  convert h3 using 1
  simp [State.called, State.emitted, State.setProgress, State.record, injected, emitCall]

/-- The worker closes the edge, prunes the chain and puts the answer on the ingress. -/
def State.answered (P : Platform F) (s : State F) (threads : ThreadRegistry) (k : String)
    (job : Job F) (prune : PruneResult) (payload : Payload F) : State F :=
  let env := answerEnvelope job.msg prune payload
  { (s.setProgress k (.emitting none [])).record job none
      [.onClose job.msg.envelope.header.thread, emitAnswer P env] with
    threads := threads
    queue := s.queue ++ [⟨encodeEnvelope P env, none, job.origin.past⟩] }

theorem State.pruned_eq {s : State F} {k fresh : String} {job : Job F} {payload : Payload F}
    {prune : PruneResult} {threads : ThreadRegistry}
    (hx : s.threads.pruneForResponse job.thread fresh = (some prune, threads)) :
    s.pruned P k fresh job payload =
      { s.setProgress k (.emitting none [emitAnswer P (answerEnvelope job.msg prune payload)]) with
        threads := threads } := by
  unfold State.pruned
  rw [hx]
  rfl

theorem answered_of_handling {s : State F}
    (hs : Reachable (guarded P registry federation condition) s) {k fresh : String} {job : Job F}
    {r : Option (Except PipelineError (HandlerResponse F))} {payload : Payload F}
    {prune : PruneResult} {threads : ThreadRegistry} (hr : s.running k = some job)
    (hp : s.progress k = .handling)
    (hh : r.isSome = (registry.getHandler job.msg.targetName).isSome)
    (ha : afterHandler P registry job.msg r = .answering payload)
    (hx : s.threads.pruneForResponse job.thread fresh = (some prune, threads))
    (hhandled : condition s (.handled k r))
    (hfree : ∀ s, condition s (.prune k fresh) ∧ condition s (.emit k)) :
    Reachable (guarded P registry federation condition)
      (s.answered P threads k job prune payload) := by
  have h1 := hs.next ⟨_, hhandled, .handled s k job r hr hp hh⟩
  have hself : (s.handled P registry k job r).progress k = .answering payload :=
    (Function.update_self _ _ _).trans ha
  have h2 := h1.next ⟨_, (hfree _).1, .prune _ k fresh job payload hr hself⟩
  have hx' : (s.handled P registry k job r).threads.pruneForResponse job.thread fresh =
      (some prune, threads) := hx
  rw [State.pruned_eq hx'] at h2
  have h3 := h2.next ⟨_, (hfree _).2, .emit _ k job none
    (emitAnswer P (answerEnvelope job.msg prune payload)) [] hr (Function.update_self _ _ _)⟩
  convert h3 using 1
  simp [State.answered, State.handled, State.emitted, State.setProgress, State.record, injected,
    emitAnswer, ha, closing]

end RustPipeline.Interleaving
