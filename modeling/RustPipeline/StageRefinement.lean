import RustPipeline.StageFlow

set_option autoImplicit false

/-!
# The stages refine the interleaved workers

Between bounded channels and behind locks the stages do what they do when a message goes through
the gates in one step, at the moment at which its thread is registered.
-/
namespace RustPipeline.StageRefinement
open Text Wire Codec Handling Routing Registry Thread Federation Pipeline Ingress Lanes
open TransitionSystem Dispatch Interleaving BoundedStages StageInvariants Observations StageFlow
open Relation CallReturn ThreadProvenance PlainPlatform NoDeadlock

variable {F : Type}

/-! ## What corresponds -/

/-- In front of the lock of the thread registry. -/
def unregistered : RoutePhase F → Option (RoutedMsg F)
  | .registering msg targetName => some ⟨msg.envelope, msg.payload, targetName⟩
  | _ => none

/-- Behind the lock of the thread registry. -/
def registered : RoutePhase F → Option (RoutedMsg F)
  | .sending msg => some msg
  | _ => none

/-- Which call a worker has made is not recorded between the bounded channels. -/
def forget : Progress F → Progress F
  | .emitting _ effects => .emitting none effects
  | p => p

def laneOf {M N : Type} (f : M → N) (l : Lane M) : Lane N :=
  ⟨l.finished.map f, l.running.map f, l.waiting.map f⟩

section
variable (P : Platform F) (registry : ListenerRegistry F) (federation : Option PeerDirectory)

/-- What the ingress and the stages in front of the registry hold and will forward. -/
def ahead (s : BoundedStages.State F) : List (RoutedMsg F) :=
  (unregistered s.route).toList ++ upstream registry (forward P registry federation) s ++
    s.ingress.filterMap (gates P registry federation)

/-- What is between the registry and the workers. -/
def behind (s : BoundedStages.State F) : List (RoutedMsg F) :=
  s.pool.pending.toList ++ s.routed ++ (registered s.route).toList

/-- A message that will be dropped stays on the ingress of the interleaved workers until it is taken
    off, and after the end of the parse stage all later ones do. -/
structure Refines (s : BoundedStages.State F) (a : Interleaving.State F) : Prop where
  threads : a.threads = s.threads
  queue : ∃ lost, a.queue.filterMap (fun item => gates P registry federation item.raw) =
    ahead P registry federation s ++ lost ∧ (s.parse ≠ .stopped → lost = [])
  routed : a.routed.map Job.msg = behind s
  accepted : a.lanes.accepted.map Job.msg = s.pool.accepted
  lanes : ∀ k, laneOf Job.msg (a.lanes.lane k) = s.pool.lane k
  progress : ∀ id msg, s.phase id = some (.processing msg) →
    forget (a.progress (key msg)) = forget (s.progress id)
  idle : ∀ k, (s.pool.lane k).running = none → a.progress k = .idle

abbrev Atomic : System (Interleaving.State F) := guarded P registry federation fun _ _ => True

end

variable {P : Platform F} {registry : ListenerRegistry F} {federation : Option PeerDirectory}
  {b : Buffers} {s t : BoundedStages.State F} {a : Interleaving.State F}

/-- One step of the interleaved workers answers a step of the stages. -/
theorem answered_by {c : Interleaving.State F} {e : Interleaving.Event F}
    (hs : Interleaving.Step P registry federation a e c) (h : Refines P registry federation t c) :
    ∃ c, ReflTransGen (Atomic P registry federation).step a c ∧ Refines P registry federation t c :=
  ⟨c, .single ⟨e, trivial, hs⟩, h⟩

theorem refines_boot (threads : ThreadRegistry) :
    Refines P registry federation (.boot threads) (.boot threads) where
  threads := rfl
  queue := ⟨[], rfl, fun _ => rfl⟩
  routed := rfl
  accepted := rfl
  lanes _ := rfl
  progress _ _ h := by cases h
  idle _ _ := rfl

/-! ## Steps that are not seen -/

namespace Refines

/-- The lanes, what is ahead of the registry and what is behind it stay as they are. -/
theorem unseen (h : Refines P registry federation s a) (hthreads : t.threads = s.threads)
    (hahead : ahead P registry federation t = ahead P registry federation s)
    (hbehind : behind t = behind s) (haccepted : t.pool.accepted = s.pool.accepted)
    (hlane : t.pool.lane = s.pool.lane) (hstop : s.parse = .stopped → t.parse = .stopped)
    (hphase : ∀ id msg, t.phase id = some (.processing msg) →
      s.phase id = some (.processing msg) ∧ t.progress id = s.progress id) :
    Refines P registry federation t a where
  threads := h.threads.trans hthreads.symm
  queue := by
    obtain ⟨lost, hq, hl⟩ := h.queue
    exact ⟨lost, hahead ▸ hq, fun hp => hl fun hs => hp (hstop hs)⟩
  routed := h.routed.trans hbehind.symm
  accepted := h.accepted.trans haccepted.symm
  lanes k := (h.lanes k).trans (congrFun hlane k).symm
  progress id msg hp := by
    obtain ⟨hs, hprogress⟩ := hphase id msg hp
    rw [hprogress]
    exact h.progress id msg hs
  idle k hk := h.idle k (hlane ▸ hk)

/-- Nothing but the stages and their channels changes. -/
theorem unseen_stages (h : Refines P registry federation s a) (hthreads : t.threads = s.threads)
    (hahead : ahead P registry federation t = ahead P registry federation s)
    (hbehind : behind t = behind s) (hpool : t.pool = s.pool) (hprogress : t.progress = s.progress)
    (hstop : s.parse = .stopped → t.parse = .stopped) : Refines P registry federation t a := by
  refine h.unseen hthreads hahead hbehind (by rw [hpool]) (by rw [hpool]) hstop ?_
  intro id msg hp
  unfold BoundedStages.State.phase at hp ⊢
  rw [hpool] at hp
  rw [hprogress]
  exact ⟨hp, rfl⟩

theorem relay {u : Task} (h : Refines P registry federation s a) (hstops : Stops s)
    (hs : RelayStep P registry b s u t) : Refines P registry federation t a := by
  have hupstream := upstream_relay (forward P registry federation) hstops hs
  have hingress := taken_ingress hstops hs
  have hsame : t.threads = s.threads ∧ t.pool = s.pool ∧ t.progress = s.progress ∧
      t.routed = s.routed ∧ t.route = s.route := by
    cases hs <;> exact ⟨rfl, rfl, rfl, rfl, rfl⟩
  obtain ⟨hthreads, hpool, hprogress, hrouted, hroute⟩ := hsame
  refine h.unseen_stages hthreads ?_ ?_ hpool hprogress ?_
  · unfold ahead
    rw [hroute, hupstream, ← hingress, List.filterMap_append]
    simp only [List.append_assoc]
    rfl
  · unfold behind
    rw [hpool, hrouted, hroute]
  · intro hp
    cases hs with
    | parseRecv raw rest hr hq =>
      rw [hr] at hp
      cases hp
    | parseSend env hr ho hroom =>
      rw [hr] at hp
      cases hp
    | parseBreak env hr hc => rfl
    | validateRecv env rest hr hq => exact hp
    | validateSend msg hr ho hroom => exact hp
    | validateBreak msg hr hc => exact hp
    | validateEnd hr hq hup => exact hp

end Refines

/-! ## The registry -/

/-- What the gates stop is taken off the ingress, and nothing else happens. -/
theorem take_of_stopped {item : Item F} {rest : List (Item F)}
    (h : gates P registry federation item.raw = none) :
    a.take P registry federation item rest = { a with queue := rest } := by
  have hno : ∀ msg, (ingress P registry federation a.threads item.raw).2 ≠
      .routed (.forwarded msg) := by
    intro msg hmsg
    rw [(gates_eq_some_iff a.threads item.raw msg).mpr hmsg] at h
    cases h
  have hthreads := ingress_threads P hno
  obtain ⟨threads, outcome, hi⟩ : ∃ threads outcome,
      ingress P registry federation a.threads item.raw = (threads, outcome) := ⟨_, _, rfl⟩
  rw [hi] at hno hthreads
  unfold Interleaving.State.take
  rw [hi]
  cases outcome with
  | faulted fault => rw [show threads = a.threads from hthreads]
  | invalid e => rw [show threads = a.threads from hthreads]
  | routed outcome =>
    cases outcome with
    | egress env => rw [show threads = a.threads from hthreads]
    | dropped e => rw [show threads = a.threads from hthreads]
    | forwarded msg => exact absurd rfl (hno msg)

theorem take_of_gates {item : Item F} {rest : List (Item F)} {msg : RoutedMsg F}
    (h : gates P registry federation item.raw = some msg) :
    a.take P registry federation item rest = { a with
      threads := Pipeline.registerThread a.threads msg.envelope.header.thread
        msg.envelope.header.fromAddr.organismName msg.targetName
      queue := rest
      routed := a.routed ++ [⟨msg, item.origin⟩] } := by
  have hforwarded := (gates_eq_some_iff a.threads item.raw msg).mp h
  obtain ⟨_, hthreads⟩ := ingress_forwarded P hforwarded
  exact State.take_of_forwarded (Prod.ext hthreads hforwarded)

/-- Everything that the gates stop, up to the first message that they do not. -/
theorem skip_stopped (stopped : List (Item F)) {rest : List (Item F)}
    (h : ∀ item ∈ stopped, gates P registry federation item.raw = none) :
    ∀ a : Interleaving.State F, a.queue = stopped ++ rest →
      ReflTransGen (Atomic P registry federation).step a { a with queue := rest } := by
  induction stopped with
  | nil =>
    intro a hq
    rw [List.nil_append] at hq
    rw [← hq]
  | cons item stopped ih =>
    intro a hq
    have hstep : Interleaving.Step P registry federation a .route _ :=
      .route a item (stopped ++ rest) hq
    rw [take_of_stopped (h item List.mem_cons_self)] at hstep
    have hrest := ih (fun i hi => h i (List.mem_cons_of_mem item hi))
      { a with queue := stopped ++ rest } rfl
    exact .head ⟨_, trivial, hstep⟩ hrest

/-- Registering the thread is where the message goes through the gates. -/
theorem Refines.register (h : Refines P registry federation s a) {msg : ValidatedMsg F}
    {targetName : String} (hp : s.route = .registering msg targetName) :
    ∃ c, ReflTransGen (Atomic P registry federation).step a c ∧ Refines P registry federation
      { s with
        threads := Pipeline.registerThread s.threads msg.envelope.header.thread
          msg.envelope.header.fromAddr.organismName targetName
        route := .sending ⟨msg.envelope, msg.payload, targetName⟩
        threadsLock := none } c := by
  obtain ⟨lost, hq, hlost⟩ := h.queue
  have hhead : ahead P registry federation s ++ lost = ⟨msg.envelope, msg.payload, targetName⟩ ::
      (ahead P registry federation { s with route := .receiving } ++ lost) := by
    simp [ahead, upstream, hp, unregistered]
  rw [hhead, List.filterMap_eq_cons_iff] at hq
  obtain ⟨stopped, item, rest, hqueue, hstopped, hitem, hrest⟩ := hq
  have hskip := skip_stopped stopped hstopped a hqueue
  have hstep : Interleaving.Step P registry federation { a with queue := item :: rest } .route _ :=
    .route _ item rest rfl
  rw [take_of_gates hitem] at hstep
  refine ⟨_, hskip.tail ⟨_, trivial, hstep⟩, ?_⟩
  refine ⟨?_, ⟨lost, hrest, hlost⟩, ?_, h.accepted, h.lanes, h.progress, h.idle⟩
  · rw [← h.threads]
  · change (a.routed ++ [_]).map Job.msg = _
    rw [List.map_append, h.routed, behind, behind, hp]
    simp [registered]

theorem Refines.route (h : Refines P registry federation s a) (hstops : Stops s)
    (hs : RouteStep P registry federation b s t) : ∃ c,
      ReflTransGen (Atomic P registry federation).step a c ∧ Refines P registry federation t c := by
  cases hs with
  | recv msg rest hp hq =>
    have hsplit : onward (routing P registry federation msg) =
        unregistered (routing P registry federation msg) := by
      unfold routing
      split_ifs
      · rfl
      · cases routeTarget P registry msg.envelope.header msg.envelope.payload.tag <;> rfl
    have hnone : registered (routing P registry federation msg) = none := by
      unfold routing
      split_ifs
      · rfl
      · cases routeTarget P registry msg.envelope.header msg.envelope.payload.tag <;> rfl
    refine ⟨a, .refl, h.unseen_stages rfl ?_ ?_ rfl rfl id⟩
    · simp [ahead, upstream, hp, hq, unregistered, forward, hsplit, filterMap_cons_toList]
    · rw [behind, behind, hp]
      change _ ++ (registered (routing P registry federation msg)).toList = _
      rw [hnone]
      rfl
  | egress env hp ho hroom =>
    refine ⟨a, .refl, h.unseen_stages rfl ?_ ?_ rfl rfl id⟩
    · simp [ahead, upstream, hp, unregistered]
    · simp [behind, hp, registered]
  | egressClosed env hp hc =>
    refine ⟨a, .refl, h.unseen_stages rfl ?_ ?_ rfl rfl id⟩
    · simp [ahead, upstream, hp, unregistered]
    · simp [behind, hp, registered]
  | register msg name hp hl => exact h.register hp
  | send msg hp ho hroom =>
    refine ⟨a, .refl, h.unseen_stages rfl ?_ ?_ rfl rfl id⟩
    · simp [ahead, upstream, hp, unregistered]
    · simp [behind, hp, registered]
  | fail msg hp hc =>
    have hstopped := (hstops.dispatch hc).1
    rw [hp] at hstopped
    cases hstopped
  | stop hp hq hup =>
    refine ⟨a, .refl, h.unseen_stages rfl ?_ ?_ rfl rfl id⟩
    · simp [ahead, upstream, hp, unregistered]
    · simp [behind, hp, registered]

/-! ## The workers -/

/-- A worker that the dispatcher gives a message to. -/
theorem Refines.accept (h : Refines P registry federation s a) {msg : RoutedMsg F}
    (hp : s.pool.pending = some msg) (hpending : t.pool.pending = none)
    (hthreads : t.threads = s.threads)
    (hahead : ahead P registry federation t = ahead P registry federation s)
    (hrouted : t.routed = s.routed) (hroute : t.route = s.route)
    (haccepted : t.pool.accepted = s.pool.accepted ++ [msg])
    (hlane : t.pool.lane = Function.update s.pool.lane (key msg) ((s.pool.lane (key msg)).accept msg))
    (hstop : s.parse = .stopped → t.parse = .stopped)
    (hphase : ∀ id m, t.phase id = some (.processing m) → s.phase id = some (.processing m))
    (hprogress : t.progress = s.progress) :
    ∃ c, ReflTransGen (Atomic P registry federation).step a c ∧
      Refines P registry federation t c := by
  have hbehind := h.routed
  rw [behind, hp, Option.toList_some, List.append_assoc, List.singleton_append,
    List.map_eq_cons_iff] at hbehind
  obtain ⟨job, rest, hq, rfl, hrest⟩ := hbehind
  refine answered_by (.accept a job rest hq) ?_
  refine ⟨h.threads.trans hthreads.symm, ?_, ?_, ?_, ?_, ?_, ?_⟩
  · obtain ⟨lost, hqueue, hlost⟩ := h.queue
    exact ⟨lost, hahead ▸ hqueue, fun hp => hlost fun hs => hp (hstop hs)⟩
  · rw [behind, hpending, hrouted, hroute, Option.toList_none, List.nil_append, ← hrest]
  · change (a.lanes.accepted ++ [job]).map Job.msg = _
    rw [List.map_append, h.accepted, haccepted]
    rfl
  · intro k
    rw [hlane]
    change laneOf Job.msg (Function.update a.lanes.lane job.thread _ k) = _
    by_cases hk : k = key job.msg
    · rw [hk]
      change laneOf Job.msg (Function.update a.lanes.lane (key job.msg) _ (key job.msg)) = _
      rw [Function.update_self, Function.update_self, ← h.lanes]
      simp [laneOf, Lane.accept, Job.thread]
    · have hk' : k ≠ job.thread := hk
      rw [Function.update_of_ne hk, Function.update_of_ne hk']
      exact h.lanes k
  · intro id m hm
    rw [hprogress]
    exact h.progress id m (hphase id m hm)
  · intro k hk
    apply h.idle k
    rw [hlane] at hk
    by_cases hkey : k = key job.msg
    · rw [hkey, Function.update_self] at hk
      rw [hkey]
      exact hk
    · rw [Function.update_of_ne hkey] at hk
      exact hk

/-- A worker that changes without taking a message is processing the same as before. -/
theorem processing_of_update {id : ℕ} {v : Worker F}
    (hv : ∀ m, v.phase = .processing m → s.phase id = some (.processing m)) {j : ℕ}
    {msg : RoutedMsg F}
    (h : (Function.update s.pool.worker id (some v) j).map Worker.phase =
      some (.processing msg)) : s.phase j = some (.processing msg) := by
  by_cases hj : j = id
  · rw [hj, Function.update_self, Option.map_some, Option.some_inj] at h
    rw [hj]
    exact hv msg h
  · rw [Function.update_of_ne hj] at h
    exact h

theorem Refines.dispatch (h : Refines P registry federation s a) (hinv : Inv s.pool)
    (hs : DispatchStep s t) : ∃ c,
      ReflTransGen (Atomic P registry federation).step a c ∧ Refines P registry federation t c := by
  cases hs with
  | recv msg rest hd hp hq =>
    refine ⟨a, .refl, h.unseen rfl rfl ?_ rfl rfl id fun id m hm => ⟨hm, rfl⟩⟩
    simp [behind, hp, hq]
  | enqueue msg id w hl hp hm hw ho =>
    obtain ⟨hk, hlive⟩ := hinv.live_of_map hm hw
    have hlane : (s.pool.setWorker id { w with queue := w.queue ++ [msg] }).lane =
        Function.update s.pool.lane (key msg) ((s.pool.lane (key msg)).accept msg) := by
      rw [hinv.lane_setWorker hw hlive, ← hk, hinv.lane_live hw hlive]
      rfl
    refine h.accept hp rfl rfl rfl rfl rfl rfl hlane (fun hs => hs) ?_ rfl
    intro j m hj
    exact processing_of_update (v := { w with queue := w.queue ++ [msg] })
      (fun m hm => (phase_of_worker hw).trans (congrArg some hm)) hj
  | spawn msg id hl hp hm hf =>
    refine h.accept hp rfl rfl rfl rfl rfl rfl (lane_spawn hinv hm hf) (fun hs => hs) ?_ rfl
    intro j m hj
    exact processing_of_update (v := ⟨key msg, [msg], .waiting⟩) nofun hj
  | sendError msg id w hl hp hm hw hc =>
    have hlive := (hinv.live_of_map hm hw).2
    rw [hc] at hlive
    exact hlive.elim
  | stop hd hp hq hup => exact ⟨a, .refl, h.unseen_stages rfl rfl rfl rfl rfl id⟩

/-- No two workers process messages of one thread. -/
theorem worker_unique {pool : Dispatch.State F} (h : Inv pool) {id j : ℕ} {w v : Worker F}
    (hw : pool.worker id = some w) (hv : pool.worker j = some v) (hlw : w.phase.Live)
    (hlv : v.phase.Live) (hk : w.key = v.key) : j = id := by
  have hm := h.live id w hw hlw
  rw [hk, h.live j v hv hlv, Option.some_inj] at hm
  exact hm

theorem key_of_processing (hinv : Inv s.pool) {id : ℕ} {msg : RoutedMsg F}
    (h : s.phase id = some (.processing msg)) :
    ∃ w, s.pool.worker id = some w ∧ w.phase = .processing msg ∧ key msg = w.key := by
  obtain ⟨w, hw, hp⟩ := worker_of_phase h
  refine ⟨w, hw, hp, hinv.own id w hw msg ?_⟩
  rw [hp]
  exact List.mem_cons_self

/-- Another worker is at a message of another thread. -/
theorem key_ne_of_processing (hinv : Inv s.pool) {id j : ℕ} {w : Worker F} {msg : RoutedMsg F}
    (hw : s.pool.worker id = some w) (hlive : w.phase.Live) (hj : j ≠ id)
    (h : s.phase j = some (.processing msg)) : key msg ≠ w.key := by
  obtain ⟨v, hv, hp, hk⟩ := key_of_processing hinv h
  intro he
  refine hj (worker_unique hinv hw hv hlive ?_ (he.symm.trans hk))
  rw [hp]
  trivial

/-- One worker changes, with the lane of its thread and with what it is about to do. -/
theorem Refines.setLane (h : Refines P registry federation s a) (hinv : Inv s.pool) {id : ℕ}
    {w w' : Worker F} {l : Lane (Job F)} {p q : Progress F} (hw : s.pool.worker id = some w)
    (hlive : w.phase.Live) (hthreads : t.threads = s.threads)
    (hahead : ahead P registry federation t = ahead P registry federation s)
    (hbehind : behind t = behind s) (haccepted : t.pool.accepted = s.pool.accepted)
    (hstop : s.parse = .stopped → t.parse = .stopped)
    (hworker : t.pool.worker = Function.update s.pool.worker id (some w'))
    (hlane : t.pool.lane = Function.update s.pool.lane w.key (laneOf Job.msg l))
    (hprogress : t.progress = Function.update s.progress id p) (hpq : forget q = forget p)
    (hkey : ∀ m, w'.phase = .processing m → key m = w.key)
    (hidle : l.running = none → q = .idle) : Refines P registry federation t
      { a.setProgress w.key q with lanes := a.lanes.set w.key l } where
  threads := h.threads.trans hthreads.symm
  queue := by
    obtain ⟨lost, hq, hl⟩ := h.queue
    exact ⟨lost, hahead ▸ hq, fun hp => hl fun hs => hp (hstop hs)⟩
  routed := h.routed.trans hbehind.symm
  accepted := h.accepted.trans haccepted.symm
  lanes k := by
    change laneOf Job.msg (Function.update a.lanes.lane w.key l k) = _
    rw [hlane]
    by_cases hk : k = w.key
    · rw [hk, Function.update_self, Function.update_self]
    · rw [Function.update_of_ne hk, Function.update_of_ne hk]
      exact h.lanes k
  progress j msg hj := by
    change forget (Function.update a.progress w.key q (key msg)) = _
    unfold BoundedStages.State.phase at hj
    rw [hworker] at hj
    rw [hprogress]
    by_cases hji : j = id
    · rw [hji, Function.update_self, Option.map_some, Option.some_inj] at hj
      rw [hji, hkey msg hj, Function.update_self, Function.update_self]
      exact hpq
    · rw [Function.update_of_ne hji] at hj
      rw [Function.update_of_ne hji, Function.update_of_ne (key_ne_of_processing hinv hw hlive hji hj)]
      exact h.progress j msg hj
  idle k hk := by
    change Function.update a.progress w.key q k = .idle
    rw [hlane] at hk
    by_cases hkey : k = w.key
    · rw [hkey, Function.update_self] at hk ⊢
      exact hidle (Option.map_eq_none_iff.mp hk)
    · rw [Function.update_of_ne hkey] at hk ⊢
      exact h.idle k hk

/-- A worker takes a message from its queue. -/
theorem Refines.start (h : Refines P registry federation s a) (hinv : Inv s.pool) {id : ℕ}
    {w : Worker F} {msg : RoutedMsg F} {rest : List (RoutedMsg F)}
    (hw : s.pool.worker id = some w) (hlive : w.phase.Live) (hn : w.phase.message = none)
    (hq : w.queue = msg :: rest) (hthreads : t.threads = s.threads)
    (hahead : ahead P registry federation t = ahead P registry federation s)
    (hbehind : behind t = behind s) (hstop : s.parse = .stopped → t.parse = .stopped)
    (hpool : t.pool = s.pool.setWorker id { w with queue := rest, phase := .processing msg })
    (hprogress : t.progress = Function.update s.progress id .handling) :
    ∃ c, ReflTransGen (Atomic P registry federation).step a c ∧
      Refines P registry federation t c := by
  have hlane := hinv.lane_live hw hlive
  rw [hn, hq, ← h.lanes w.key] at hlane
  obtain ⟨fin, hfin⟩ : ∃ fin, (a.lanes.lane w.key).finished = fin := ⟨_, rfl⟩
  obtain ⟨hfinished, hrunning, hwaiting⟩ := Lane.mk.inj hlane
  obtain ⟨job, jobs, hjobs, hjob, hrest⟩ := List.map_eq_cons_iff.mp hwaiting
  have ha : a.lanes.lane w.key = ⟨fin, none, job :: jobs⟩ := by
    rw [← hfin, ← Option.map_eq_none_iff.mp hrunning, ← hjobs]
  have hidle : a.progress w.key = .idle := by
    apply h.idle
    rw [hinv.lane_live hw hlive]
    exact hn
  refine answered_by (.start a w.key job fin jobs ha hidle) ?_
  refine h.setLane hinv hw hlive hthreads hahead hbehind (by rw [hpool]; rfl) hstop
    (by rw [hpool]; rfl) ?_ hprogress rfl ?_ nofun
  · have hset : (s.pool.setWorker id { w with queue := rest, phase := .processing msg }).lane = _ :=
      hinv.lane_setWorker hw hlive
    rw [hpool, hset]
    refine congrArg _ ?_
    rw [← hfinished, hfin, ← hjob, ← hrest]
    rfl
  · rintro m ⟨⟩
    refine hinv.own id w hw msg ?_
    rw [hq]
    exact List.mem_append_right _ List.mem_cons_self

theorem lane_finish (pool : Dispatch.State F) (msg : RoutedMsg F) :
    ({ pool with finished := pool.finished ++ [msg] } : Dispatch.State F).lane =
      Function.update pool.lane (key msg) { pool.lane (key msg) with
        finished := (pool.lane (key msg)).finished ++ [msg] } := by
  funext k
  by_cases hk : k = key msg
  · rw [hk, Function.update_self]
    simp only [Dispatch.State.lane, List.filter_append, List.filter_singleton, decide_true,
      cond_true]
    rfl
  · rw [Function.update_of_ne hk]
    have hne : key msg ≠ k := fun he => hk he.symm
    simp only [Dispatch.State.lane, List.filter_append, List.filter_singleton, hne, decide_false,
      cond_false, List.append_nil]
    rfl

theorem Refines.finish (h : Refines P registry federation s a) (hinv : Inv s.pool) {id : ℕ}
    {w : Worker F} {msg : RoutedMsg F} {call : Option (CallEdge F)}
    (hw : s.pool.worker id = some w) (hp : w.phase = .processing msg)
    (he : s.progress id = .emitting call []) : ∃ c,
      ReflTransGen (Atomic P registry federation).step a c ∧ Refines P registry federation
        (BoundedStages.State.setProgress { s with
          pool := { s.pool.setWorker id { w with phase := .waiting } with
            finished := s.pool.finished ++ [msg] } } id .idle) c := by
  have hlive : w.phase.Live := by
    rw [hp]
    trivial
  have hphase : s.phase id = some (.processing msg) := (phase_of_worker hw).trans (congrArg some hp)
  obtain ⟨_, hv, _, hkey⟩ := key_of_processing hinv hphase
  rw [hw, Option.some_inj] at hv
  subst hv
  have hlane := hinv.lane_live hw hlive
  rw [hp, ← h.lanes w.key] at hlane
  obtain ⟨fin, hfin⟩ : ∃ fin, (a.lanes.lane w.key).finished = fin := ⟨_, rfl⟩
  obtain ⟨rest, hwait⟩ : ∃ rest, (a.lanes.lane w.key).waiting = rest := ⟨_, rfl⟩
  obtain ⟨hfinished, hrunning, hwaiting⟩ := Lane.mk.inj hlane
  obtain ⟨job, hjob, hmsg⟩ := Option.map_eq_some_iff.mp hrunning
  have ha : a.lanes.lane w.key = ⟨fin, some job, rest⟩ := by
    rw [← hfin, ← hjob, ← hwait]
  have hprogress := h.progress id msg hphase
  rw [he, hkey] at hprogress
  obtain ⟨call', hc⟩ : ∃ call', a.progress w.key = .emitting call' [] := by
    cases hq : a.progress w.key with
    | emitting call' effects =>
      rw [hq] at hprogress
      cases hprogress
      exact ⟨call', rfl⟩
    | idle => rw [hq] at hprogress; cases hprogress
    | handling => rw [hq] at hprogress; cases hprogress
    | answering payload => rw [hq] at hprogress; cases hprogress
    | calling kind toAddr payload => rw [hq] at hprogress; cases hprogress
  refine answered_by (.finish a w.key job call' fin rest ha hc) ?_
  refine h.setLane hinv hw hlive rfl rfl rfl rfl (fun hs => hs) rfl ?_ rfl rfl nofun
    fun _ => rfl
  have hset : (s.pool.setWorker id { w with phase := .waiting }).lane = _ :=
    hinv.lane_setWorker hw hlive
  refine (lane_finish (s.pool.setWorker id { w with phase := .waiting }) msg).trans ?_
  rw [hset, hkey, Function.update_idem, Function.update_self]
  refine congrArg _ ?_
  simp only [laneOf, List.map_append, List.map_singleton, hmsg, Option.map_none, Phase.message]
  rw [← hfinished, ← hwaiting, hfin, hwait]

theorem Refines.loop {id : ℕ} (h : Refines P registry federation s a) (hinv : Inv s.pool)
    (hs : LoopStep s id t) : ∃ c,
      ReflTransGen (Atomic P registry federation).step a c ∧ Refines P registry federation t c := by
  cases hs with
  | recv w msg rest hw hp hq =>
    exact h.start hinv hw (by rw [hp]; trivial) (by rw [hp]; rfl) hq rfl rfl rfl (fun hs => hs) rfl
      rfl
  | tryRecv w msg rest hl hw hp hq =>
    exact h.start hinv hw (by rw [hp]; trivial) (by rw [hp]; rfl) hq rfl rfl rfl (fun hs => hs) rfl
      rfl
  | recvNone w hw hp hq hn =>
    refine ⟨a, .refl, h.unseen rfl rfl rfl rfl (lane_setWorker_dead hn) (fun hs => hs) ?_⟩
    intro j m hj
    exact ⟨processing_of_update (v := { w with phase := .leaving }) nofun hj, rfl⟩
  | reap w hl hw hp hq =>
    refine ⟨a, .refl, h.unseen rfl rfl rfl rfl (hinv.lane_reap hw hp hq) (fun hs => hs) ?_⟩
    intro j m hj
    exact ⟨processing_of_update (v := { w with phase := .leaving }) nofun hj, rfl⟩
  | drop w hw hp =>
    have hdead : ¬ w.phase.Live := by
      rw [hp]
      exact fun hl => hl
    refine ⟨a, .refl, h.unseen rfl rfl rfl rfl (lane_setWorker_dead (hinv.unregistered hw hdead))
      (fun hs => hs) ?_⟩
    intro j m hj
    exact ⟨processing_of_update (v := { w with phase := .gone }) nofun hj, rfl⟩
  | processed w msg call hw hp he => exact h.finish hinv hw hp he

/-! ## Handling -/

theorem forget_eq_emitting {p : Progress F} {call : Option (CallEdge F)} {effects : List (Effect F)}
    (h : forget p = forget (.emitting call effects)) : ∃ call, p = .emitting call effects := by
  cases p with
  | emitting call effects =>
    cases h
    exact ⟨call, rfl⟩
  | idle => cases h
  | handling => cases h
  | answering payload => cases h
  | calling kind toAddr payload => cases h

theorem forget_eq_of_ne {p q : Progress F} (hq : ∀ call effects, q ≠ .emitting call effects)
    (h : forget p = forget q) : p = q := by
  cases q with
  | emitting call effects => exact absurd rfl (hq call effects)
  | idle => cases p <;> first | rfl | cases h
  | handling => cases p <;> first | rfl | cases h
  | answering payload => cases p <;> first | exact h | cases h
  | calling kind toAddr payload => cases p <;> first | exact h | cases h

/-- What the interleaved workers have for a worker that is at a message. -/
theorem Refines.job (h : Refines P registry federation s a) (hinv : Inv s.pool) {id : ℕ}
    {msg : RoutedMsg F} {p : Progress F} (hh : Handles s id msg p) :
    ∃ job, a.running (key msg) = some job ∧ job.msg = msg ∧
      forget (a.progress (key msg)) = forget p := by
  obtain ⟨w, hw, hp, hkey⟩ := key_of_processing hinv hh.1
  have hlive : w.phase.Live := by
    rw [hp]
    trivial
  have hlane := hinv.lane_live hw hlive
  rw [hp, ← h.lanes w.key, ← hkey] at hlane
  obtain ⟨_, hrunning, _⟩ := Lane.mk.inj hlane
  obtain ⟨job, hjob, hmsg⟩ := Option.map_eq_some_iff.mp hrunning
  exact ⟨job, hjob, hmsg, hh.2 ▸ h.progress id msg hh.1⟩

/-- One worker goes on with its message. -/
theorem Refines.work (h : Refines P registry federation s a) (hinv : Inv s.pool) {id : ℕ}
    {msg : RoutedMsg F} {p q : Progress F} {c : Interleaving.State F}
    (hphase : s.phase id = some (.processing msg)) (hlanes : c.lanes = a.lanes)
    (hrouted : c.routed = a.routed)
    (hprogress : c.progress = Function.update a.progress (key msg) q)
    (hthreads : c.threads = t.threads)
    (hqueue : ∃ lost, c.queue.filterMap (fun item => gates P registry federation item.raw) =
      ahead P registry federation t ++ lost ∧ (t.parse ≠ .stopped → lost = []))
    (hbehind : behind t = behind s) (hpool : t.pool = s.pool)
    (hprogress' : t.progress = Function.update s.progress id p) (hpq : forget q = forget p) :
    Refines P registry federation t c where
  threads := hthreads
  queue := hqueue
  routed := by rw [hrouted, h.routed, hbehind]
  accepted := by rw [hlanes, h.accepted, hpool]
  lanes k := by rw [hlanes, h.lanes, hpool]
  progress j m hj := by
    unfold BoundedStages.State.phase at hj
    rw [hpool] at hj
    rw [hprogress, hprogress']
    obtain ⟨w, hw, hp, hkey⟩ := key_of_processing hinv hphase
    by_cases hji : j = id
    · have hm : m = msg := by
        rw [hji, hw, Option.map_some, hp, Option.some_inj] at hj
        exact (Phase.processing.inj hj).symm
      rw [hji, hm, Function.update_self, Function.update_self]
      exact hpq
    · have hlive : w.phase.Live := by
        rw [hp]
        trivial
      have hne := key_ne_of_processing hinv hw hlive hji hj
      rw [← hkey] at hne
      rw [Function.update_of_ne hji, Function.update_of_ne hne]
      exact h.progress j m hj
  idle k hk := by
    rw [hpool] at hk
    rw [hprogress]
    by_cases hkey : k = key msg
    · obtain ⟨w, hw, hp, hkey'⟩ := key_of_processing hinv hphase
      have hlive : w.phase.Live := by
        rw [hp]
        trivial
      rw [hkey, hkey', hinv.lane_live hw hlive, hp] at hk
      cases hk
    · rw [Function.update_of_ne hkey]
      exact h.idle k hk

theorem filterMap_injected {job : Job F} {call : Option (CallEdge F)} {effect : Effect F}
    {raw : Bytes} (h : sent effect = some raw) :
    (injected job call effect).filterMap (fun item => gates P registry federation item.raw) =
      (gates P registry federation raw).toList := by
  cases effect with
  | onClose thread => cases h
  | onOpen caller callee thread kind => cases h
  | answer env raw' =>
    cases h
    exact (filterMap_cons_toList _ _ []).trans (List.append_nil _)
  | call env raw' =>
    cases h
    exact (filterMap_cons_toList _ _ []).trans (List.append_nil _)

theorem Refines.handling {id : ℕ} (h : Refines P registry federation s a) (hinv : Inv s.pool)
    (hs : HandlingStep P registry b s id t) : ∃ c,
      ReflTransGen (Atomic P registry federation).step a c ∧ Refines P registry federation t c := by
  cases hs with
  | handled msg result hh hr =>
    obtain ⟨job, hjob, rfl, hprogress⟩ := h.job hinv hh
    have hhandling := forget_eq_of_ne (by simp) hprogress
    exact answered_by (.handled a _ job result hjob hhandling hr)
      (h.work hinv hh.1 rfl rfl rfl h.threads h.queue rfl rfl rfl rfl)
  | prune fresh msg payload hh hl =>
    obtain ⟨job, hjob, rfl, hprogress⟩ := h.job hinv hh
    have hanswering := forget_eq_of_ne (by simp) hprogress
    refine answered_by (.prune a _ fresh job payload hjob hanswering)
      (h.work hinv hh.1 rfl rfl rfl ?_ h.queue rfl rfl rfl ?_)
    · change (a.threads.pruneForResponse (key job.msg) fresh).2 = _
      rw [h.threads]
    · change forget (.emitting none (answerEffects P job.msg payload
        (a.threads.pruneForResponse (key job.msg) fresh).1)) = _
      rw [h.threads]
  | extend fresh msg kind toAddr payload hh hl =>
    obtain ⟨job, hjob, rfl, hprogress⟩ := h.job hinv hh
    have hcalling := forget_eq_of_ne (by simp) hprogress
    refine answered_by (.extend a _ fresh job kind toAddr payload hjob hcalling)
      (h.work hinv hh.1 rfl rfl rfl ?_ h.queue rfl rfl rfl ?_)
    · change (a.threads.extendChain (key job.msg) toAddr.organismName fresh).2 = _
      rw [h.threads]
    · change forget (.emitting _ (callEffects P job.msg kind toAddr payload
        (a.threads.extendChain (key job.msg) toAddr.organismName fresh).1)) = _
      rw [h.threads]
      rfl
  | observe msg call effect rest hh hn =>
    obtain ⟨job, hjob, rfl, hprogress⟩ := h.job hinv hh
    obtain ⟨call', hemitting⟩ := forget_eq_emitting hprogress
    have hnone : injected job call' effect = [] := by
      cases effect with
      | onClose thread => rfl
      | onOpen caller callee thread kind => rfl
      | answer env raw => cases hn
      | call env raw => cases hn
    refine answered_by (.emit a _ job call' effect rest hjob hemitting)
      (h.work hinv hh.1 rfl rfl rfl h.threads ?_ rfl rfl rfl rfl)
    change ∃ lost, (a.queue ++ injected job call' effect).filterMap _ = _ ∧ _
    rw [hnone, List.append_nil]
    exact h.queue
  | reinject msg call effect rest raw hh hr ho hroom =>
    obtain ⟨job, hjob, rfl, hprogress⟩ := h.job hinv hh
    obtain ⟨call', hemitting⟩ := forget_eq_emitting hprogress
    refine answered_by (.emit a _ job call' effect rest hjob hemitting)
      (h.work hinv hh.1 rfl rfl rfl h.threads ?_ rfl rfl rfl rfl)
    obtain ⟨lost, hq, hlost⟩ := h.queue
    refine ⟨[], ?_, fun _ => rfl⟩
    change (a.queue ++ injected job call' effect).filterMap _ = _
    rw [List.filterMap_append, hq, hlost ho, filterMap_injected hr]
    simp [ahead, upstream, BoundedStages.State.setProgress, filterMap_cons_toList]
  | reinjectClosed msg call effect rest raw hh hr hc =>
    obtain ⟨job, hjob, rfl, hprogress⟩ := h.job hinv hh
    obtain ⟨call', hemitting⟩ := forget_eq_emitting hprogress
    refine answered_by (.emit a _ job call' effect rest hjob hemitting)
      (h.work hinv hh.1 rfl rfl rfl h.threads ?_ rfl rfl rfl rfl)
    obtain ⟨lost, hq, _⟩ := h.queue
    refine ⟨lost ++ (gates P registry federation raw).toList, ?_, fun hp => absurd hc hp⟩
    change (a.queue ++ injected job call' effect).filterMap _ = _
    rw [List.filterMap_append, hq, filterMap_injected hr, List.append_assoc]
    rfl

theorem Refines.outside {e : BoundedStages.Event} (h : Refines P registry federation s a)
    (hinv : Inv s.pool) (hs : OutsideStep b s e t) : ∃ c,
      ReflTransGen (Atomic P registry federation).step a c ∧ Refines P registry federation t c := by
  cases hs with
  | inject raw ho hroom =>
    obtain ⟨lost, hq, hlost⟩ := h.queue
    refine answered_by (.inject a raw) ⟨h.threads, ⟨[], ?_, fun _ => rfl⟩, h.routed, h.accepted,
      h.lanes, h.progress, h.idle⟩
    change (a.queue ++ [_]).filterMap _ = _
    rw [List.filterMap_append, hq, hlost ho]
    simp [ahead, upstream, filterMap_cons_toList]
  | drain env rest hq => exact ⟨a, .refl, h.unseen_stages rfl rfl rfl rfl rfl fun hs => hs⟩
  | close => exact ⟨a, .refl, h.unseen_stages rfl rfl rfl rfl rfl fun hs => hs⟩
  | shutdown hp =>
    obtain ⟨lost, hq, _⟩ := h.queue
    refine ⟨a, .refl, h.threads, ⟨s.ingress.filterMap (gates P registry federation) ++ lost, ?_,
      fun hn => absurd rfl hn⟩, h.routed, h.accepted, h.lanes, h.progress, h.idle⟩
    rw [hq]
    simp [ahead, upstream, hp, held]
  | timeout id w hw hp =>
    have hlive : w.phase.Live := by
      rw [hp]
      trivial
    have hlane : (s.pool.setWorker id { w with phase := .timedOut }).lane = s.pool.lane := by
      have hself := hinv.lane_live hw hlive
      rw [hp] at hself
      rw [hinv.lane_setWorker hw hlive]
      exact Function.update_eq_iff.mpr ⟨hself.symm, fun _ _ => rfl⟩
    refine ⟨a, .refl, h.unseen rfl rfl rfl rfl hlane (fun hs => hs) ?_⟩
    intro j m hj
    exact ⟨processing_of_update (v := { w with phase := .timedOut }) (by simp) hj, rfl⟩

/-! ## The refinement -/

theorem Refines.step {e : BoundedStages.Event} (h : Refines P registry federation s a)
    (hinv : Inv s.pool) (hstops : Stops s)
    (hs : BoundedStages.Step P registry federation b s e t) : ∃ c,
      ReflTransGen (Atomic P registry federation).step a c ∧ Refines P registry federation t c := by
  cases hs with
  | relay hs => exact ⟨a, .refl, h.relay hstops hs⟩
  | route hs => exact h.route hstops hs
  | dispatch hs => exact h.dispatch hinv hs
  | loop hs => exact h.loop hinv hs
  | handling hs => exact h.handling hinv hs
  | lockThreads u hw hl => exact ⟨a, .refl, h.unseen_stages rfl rfl rfl rfl rfl fun hs => hs⟩
  | lockWorkers u hw hl => exact ⟨a, .refl, h.unseen_stages rfl rfl rfl rfl rfl fun hs => hs⟩
  | outside hs => exact h.outside hinv hs

variable (P registry federation b) in
/-- The stages between bounded channels do nothing that the interleaved workers cannot do. -/
def refinesInterleaving :
    Simulation (stages P registry federation b) (Atomic P registry federation) where
  rel s a := Reachable (stages P registry federation b) s ∧ Refines P registry federation s a
  init s h := by
    obtain ⟨threads, rfl⟩ := h
    exact ⟨.boot threads, ⟨threads, rfl⟩, .start ⟨threads, rfl⟩, refines_boot threads⟩
  step s t a h hs := by
    obtain ⟨hreach, hrefines⟩ := h
    obtain ⟨pool, hpool, rfl⟩ := refinesDispatch.reachable hreach
    obtain ⟨e, he⟩ := hs
    obtain ⟨c, hrun, hc⟩ := hrefines.step (inv_of_reachable hpool) (kept_of_reachable hreach).2.1 he
    exact ⟨c, hrun, hreach.next ⟨e, he⟩, hc⟩

/-- Every state of the stages has a state of the interleaved workers with the same thread registry,
    the same lanes, the same work in progress and the same messages on their way. -/
theorem stages_refine {s : BoundedStages.State F}
    (hs : Reachable (stages P registry federation b) s) :
    ∃ a, Reachable (Atomic P registry federation) a ∧ Refines P registry federation s a := by
  obtain ⟨a, ha, _, hrefines⟩ := (refinesInterleaving P registry federation b).reachable hs
  exact ⟨a, ha, hrefines⟩

theorem stages_refine_jammed : ∃ a,
    Reachable (Atomic plain (desk (.flat "bob")).registry none) a ∧
      Refines plain (desk (.flat "bob")).registry none jammed a :=
  stages_refine jammed_reachable

end RustPipeline.StageRefinement
