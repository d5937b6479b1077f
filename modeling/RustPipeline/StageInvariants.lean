import RustPipeline.BoundedStages

set_option autoImplicit false

/-!
# What holds between the stages

The pool behind the stages is the dispatcher with its workers, whoever holds a lock is in its
critical section, a stage that has ended leaves nothing behind, and a worker with a message is
somewhere in its handling.
-/
namespace RustPipeline.StageInvariants
open Text Wire Codec Handling Routing Registry Thread Federation Pipeline
open TransitionSystem Dispatch Interleaving BoundedStages Relation

variable {F : Type} {P : Platform F} {registry : ListenerRegistry F}
  {federation : Option PeerDirectory} {b : Buffers}

/-! ## The dispatcher and its workers -/

theorem phase_of_worker {s : BoundedStages.State F} {id : ℕ} {w : Worker F}
    (hw : s.pool.worker id = some w) : s.phase id = some w.phase := by
  rw [BoundedStages.State.phase, hw]
  rfl

theorem worker_of_phase {s : BoundedStages.State F} {id : ℕ} {p : Phase F}
    (h : s.phase id = some p) : ∃ w, s.pool.worker id = some w ∧ w.phase = p :=
  Option.map_eq_some_iff.mp h

theorem phase_update {s t : BoundedStages.State F} {id : ℕ} {w : Worker F}
    (h : t.pool.worker = Function.update s.pool.worker id (some w)) :
    t.phase = Function.update s.phase id (some w.phase) := by
  funext j
  unfold BoundedStages.State.phase
  rw [h]
  by_cases hj : j = id
  · rw [hj, Function.update_self, Function.update_self]
    rfl
  · rw [Function.update_of_ne hj, Function.update_of_ne hj]

theorem step_pool {s t : BoundedStages.State F} {e : BoundedStages.Event}
    (h : BoundedStages.Step P registry federation b s e t) :
    t.pool = s.pool ∨ Dispatch.Step s.pool t.pool := by
  cases h with
  | relay h => cases h <;> exact .inl rfl
  | route h => cases h <;> exact .inl rfl
  | dispatch h =>
    cases h with
    | recv msg rest hd hp hq => exact .inr (.receive s.pool msg hp)
    | enqueue msg id w hl hp hm hw ho => exact .inr (.enqueue s.pool msg id w hp hm hw ho)
    | spawn msg id hl hp hm hf => exact .inr (.spawn s.pool msg id hp hm hf)
    | sendError msg id w hl hp hm hw hc => exact .inr (.sendError s.pool msg id w hp hm hw hc)
    | stop hd hp hq hup => exact .inl rfl
  | loop h =>
    cases h with
    | recv w msg rest hw hp hq => exact .inr (.recv s.pool _ w msg rest hw hp hq)
    | recvNone w hw hp hq hn => exact .inr (.recvNone s.pool _ w hw hp hq hn)
    | tryRecv w msg rest hl hw hp hq => exact .inr (.tryRecv s.pool _ w msg rest hw hp hq)
    | reap w hl hw hp hq => exact .inr (.reap s.pool _ w hw hp hq)
    | drop w hw hp => exact .inr (.drop s.pool _ w hw hp)
    | processed w msg call hw hp he => exact .inr (.processed s.pool _ w msg hw hp)
  | handling h => cases h <;> exact .inl rfl
  | lockThreads u hw hl => exact .inl rfl
  | lockWorkers u hw hl => exact .inl rfl
  | outside h =>
    cases h with
    | inject raw ho hroom => exact .inl rfl
    | drain env rest hq => exact .inl rfl
    | close => exact .inl rfl
    | shutdown hp => exact .inl rfl
    | timeout id w hw hp => exact .inr (.timeout s.pool id w hw hp)

/-- The pool between bounded channels is the dispatcher with its workers. -/
def refinesDispatch : Simulation (stages P registry federation b) (dispatch F) where
  rel s a := a = s.pool
  init s h := by
    obtain ⟨threads, rfl⟩ := h
    exact ⟨_, rfl, rfl⟩
  step s t a h hs := by
    obtain ⟨e, he⟩ := hs
    subst h
    refine ⟨t.pool, ?_, rfl⟩
    rcases step_pool he with heq | hp
    · rw [heq]
    · exact .single hp

theorem inv_of_reachable {p : Dispatch.State F} (h : Reachable (dispatch F) p) : Inv p := by
  apply h.invariant
  · intro s hs
    rw [show s = .new from hs]
    exact inv_new
  · intro s t hi hs
    exact hi.step hs

/-- There is always room for another worker. -/
theorem finite_workers {p : Dispatch.State F} (h : Reachable (dispatch F) p) :
    {id | p.worker id ≠ none}.Finite := by
  have hset : ∀ (q : Dispatch.State F) (id : ℕ) (w : Worker F),
      {j | q.worker j ≠ none}.Finite → {j | (q.setWorker id w).worker j ≠ none}.Finite := by
    intro q id w hq
    apply (hq.insert id).subset
    intro j hj
    by_cases hji : j = id
    · exact .inl hji
    · have hq' : (q.setWorker id w).worker j ≠ none := hj
      rw [q.setWorker_of_ne w hji] at hq'
      exact .inr hq'
  apply h.invariant
  · intro s hs
    rw [show s = .new from hs]
    apply Set.Finite.subset Set.finite_empty
    intro id hid
    exact absurd rfl hid
  · intro s t hi hs
    cases hs with
    | receive msg h => exact hi
    | enqueue msg id w h hm hw ho => exact hset s id _ hi
    | spawn msg id h hm hf => exact hset s id _ hi
    | sendError msg id w h hm hw hc => exact hi
    | recv id w msg rest hw hp hq => exact hset s id _ hi
    | processed id w msg hw hp => exact hset s id _ hi
    | timeout id w hw hp => exact hset s id _ hi
    | tryRecv id w msg rest hw hp hq => exact hset s id _ hi
    | reap id w hw hp hq => exact hset s id _ hi
    | recvNone id w hw hp hq hn => exact hset s id _ hi
    | drop id w hw hp => exact hset s id _ hi

/-! ## Whoever holds a lock is in its critical section -/

structure Locks (s : BoundedStages.State F) : Prop where
  threads : ∀ u, s.threadsLock = some u → WantsThreads s u
  workers : ∀ u, s.workersLock = some u → WantsWorkers s u

theorem not_wantsThreads_of_phase {s : BoundedStages.State F} {id : ℕ} {p : Phase F}
    (h : s.phase id = some p) (hp : ∀ msg, p ≠ .processing msg) :
    ¬ WantsThreads s (.worker id) := by
  rintro ⟨⟨msg, hm⟩, _⟩
  rw [h, Option.some_inj] at hm
  exact hp msg hm

theorem not_wantsThreads_of_progress {s : BoundedStages.State F} {id : ℕ}
    (h : ¬ Mutates (s.progress id)) : ¬ WantsThreads s (.worker id) := fun hw => h hw.2

theorem not_wantsWorkers_of_phase {s : BoundedStages.State F} {id : ℕ} {p : Phase F}
    (h : s.phase id = some p) (hp : p ≠ .timedOut) : ¬ WantsWorkers s (.worker id) := by
  intro hw
  have hw' : s.phase id = some .timedOut := hw
  rw [h, Option.some_inj] at hw'
  exact hp hw'

theorem wantsThreads_of_eq {s t : BoundedStages.State F} (hroute : t.route = s.route)
    {id : ℕ} (hphase : ∀ j, j ≠ id → t.phase j = s.phase j)
    (hprogress : ∀ j, j ≠ id → t.progress j = s.progress j) {u : Task} (hu : u ≠ .worker id)
    (h : WantsThreads s u) : WantsThreads t u := by
  cases u with
  | parse => cases h
  | validate => cases h
  | dispatch => cases h
  | route =>
    obtain ⟨msg, name, hm⟩ := h
    exact ⟨msg, name, hroute.trans hm⟩
  | worker j =>
    have hj : j ≠ id := fun he => hu (he ▸ rfl)
    change (∃ msg, t.phase j = some (.processing msg)) ∧ Mutates (t.progress j)
    rw [hphase j hj, hprogress j hj]
    exact h

theorem wantsWorkers_of_eq {s t : BoundedStages.State F}
    (hpending : t.pool.pending = s.pool.pending) {id : ℕ}
    (hphase : ∀ j, j ≠ id → t.phase j = s.phase j) {u : Task} (hu : u ≠ .worker id)
    (h : WantsWorkers s u) : WantsWorkers t u := by
  cases u with
  | parse => cases h
  | validate => cases h
  | route => cases h
  | dispatch =>
    change t.pool.pending.isSome
    rw [hpending]
    exact h
  | worker j =>
    have hj : j ≠ id := fun he => hu (he ▸ rfl)
    change t.phase j = some .timedOut
    rw [hphase j hj]
    exact h

namespace Locks

variable {s t : BoundedStages.State F}

/-- A worker that is in neither critical section moves on. -/
theorem worker (h : Locks s) {id : ℕ} (hroute : t.route = s.route)
    (hpending : t.pool.pending = s.pool.pending)
    (hphase : ∀ j, j ≠ id → t.phase j = s.phase j)
    (hprogress : ∀ j, j ≠ id → t.progress j = s.progress j)
    (hthreads : t.threadsLock = s.threadsLock ∧ ¬ WantsThreads s (.worker id) ∨
      t.threadsLock = none)
    (hworkers : t.workersLock = s.workersLock ∧ ¬ WantsWorkers s (.worker id) ∨
      t.workersLock = none) : Locks t where
  threads u hu := by
    rcases hthreads with ⟨heq, hn⟩ | heq
    · rw [heq] at hu
      have hwant := h.threads u hu
      have hne : u ≠ .worker id := by
        intro he
        exact hn (he ▸ hwant)
      exact wantsThreads_of_eq hroute hphase hprogress hne hwant
    · rw [heq] at hu
      cases hu
  workers u hu := by
    rcases hworkers with ⟨heq, hn⟩ | heq
    · rw [heq] at hu
      have hwant := h.workers u hu
      have hne : u ≠ .worker id := by
        intro he
        exact hn (he ▸ hwant)
      exact wantsWorkers_of_eq hpending hphase hne hwant
    · rw [heq] at hu
      cases hu

theorem relay {u : Task} (h : Locks s) (hs : RelayStep P registry b s u t) : Locks t := by
  cases hs <;> exact ⟨h.threads, h.workers⟩

theorem route (h : Locks s) (hs : RouteStep P registry federation b s t) : Locks t := by
  -- Every step but the registration finds the stage outside its critical section.
  have hother : (∀ msg name, s.route ≠ .registering msg name) → t.threadsLock = s.threadsLock →
      t.pool = s.pool → t.progress = s.progress → t.workersLock = s.workersLock → Locks t := by
    intro hn hlock hpool hprogress hworkers
    have hphase : t.phase = s.phase := by
      funext j
      unfold BoundedStages.State.phase
      rw [hpool]
    constructor
    · intro u hu
      rw [hlock] at hu
      have hwant := h.threads u hu
      cases u with
      | parse => cases hwant
      | validate => cases hwant
      | dispatch => cases hwant
      | route =>
        obtain ⟨msg, name, hm⟩ := hwant
        exact absurd hm (hn msg name)
      | worker id =>
        change (∃ msg, t.phase id = some (.processing msg)) ∧ Mutates (t.progress id)
        rw [hphase, hprogress]
        exact hwant
    · intro u hu
      rw [hworkers] at hu
      have hwant := h.workers u hu
      cases u with
      | parse => cases hwant
      | validate => cases hwant
      | route => cases hwant
      | dispatch =>
        change t.pool.pending.isSome
        rw [hpool]
        exact hwant
      | worker id =>
        change t.phase id = some .timedOut
        rw [hphase]
        exact hwant
  cases hs with
  | recv msg rest hp hq => exact hother (by simp [hp]) rfl rfl rfl rfl
  | egress env hp ho hroom => exact hother (by simp [hp]) rfl rfl rfl rfl
  | egressClosed env hp hc => exact hother (by simp [hp]) rfl rfl rfl rfl
  | register msg name hp hl => exact ⟨fun u hu => (nomatch hu), h.workers⟩
  | send msg hp ho hroom => exact hother (by simp [hp]) rfl rfl rfl rfl
  | fail msg hp hc => exact hother (by simp [hp]) rfl rfl rfl rfl
  | stop hp hq hup => exact hother (by simp [hp]) rfl rfl rfl rfl

theorem dispatch (h : Locks s) (hs : DispatchStep s t) : Locks t := by
  -- A worker that is there keeps its phase.
  have hthreads : t.threadsLock = s.threadsLock → t.route = s.route → t.progress = s.progress →
      (∀ j p, s.phase j = some p → t.phase j = some p) →
        ∀ u, t.threadsLock = some u → WantsThreads t u := by
    intro hlock hroute hprogress hphase u hu
    rw [hlock] at hu
    have hwant := h.threads u hu
    cases u with
    | parse => cases hwant
    | validate => cases hwant
    | dispatch => cases hwant
    | route =>
      obtain ⟨msg, name, hm⟩ := hwant
      exact ⟨msg, name, hroute.trans hm⟩
    | worker id =>
      obtain ⟨⟨msg, hm⟩, hmut⟩ := hwant
      refine ⟨⟨msg, hphase id _ hm⟩, ?_⟩
      rw [hprogress]
      exact hmut
  cases hs with
  | recv msg rest hd hp hq =>
    refine ⟨h.threads, ?_⟩
    intro u hu
    have hwant := h.workers u hu
    cases u with
    | parse => cases hwant
    | validate => cases hwant
    | route => cases hwant
    | dispatch => exact rfl
    | worker id => exact hwant
  | enqueue msg id w hl hp hm hw ho =>
    refine ⟨hthreads rfl rfl rfl ?_, fun u hu => nomatch hu⟩
    intro j p hj
    rw [phase_update (s := s) (w := { w with queue := w.queue ++ [msg] }) rfl]
    by_cases hji : j = id
    · rw [hji, phase_of_worker hw] at hj
      rw [hji, Function.update_self]
      exact hj
    · rw [Function.update_of_ne hji]
      exact hj
  | spawn msg id hl hp hm hf =>
    refine ⟨hthreads rfl rfl rfl ?_, fun u hu => nomatch hu⟩
    intro j p hj
    have hji : j ≠ id := by
      rintro rfl
      obtain ⟨w, hw, _⟩ := worker_of_phase hj
      rw [hf] at hw
      cases hw
    rw [phase_update (s := s) (w := ⟨key msg, [msg], .waiting⟩) rfl, Function.update_of_ne hji]
    exact hj
  | sendError msg id w hl hp hm hw hc =>
    exact ⟨hthreads rfl rfl rfl fun _ _ hj => hj, fun u hu => nomatch hu⟩
  | stop hd hp hq hup => exact ⟨h.threads, h.workers⟩

theorem loop {id : ℕ} (h : Locks s) (hs : LoopStep s id t) : Locks t := by
  have hworker : ∀ w, t.pool.worker = Function.update s.pool.worker id (some w) →
      ∀ j, j ≠ id → t.phase j = s.phase j := by
    intro w hw j hj
    rw [phase_update hw, Function.update_of_ne hj]
  cases hs with
  | recv w msg rest hw hp hq =>
    have hphase := (phase_of_worker hw).trans (congrArg some hp)
    exact h.worker rfl rfl (hworker _ rfl) (fun j hj => Function.update_of_ne hj _ _)
      (.inl ⟨rfl, not_wantsThreads_of_phase hphase (by simp)⟩)
      (.inl ⟨rfl, not_wantsWorkers_of_phase hphase (by simp)⟩)
  | recvNone w hw hp hq hn =>
    have hphase := (phase_of_worker hw).trans (congrArg some hp)
    exact h.worker rfl rfl (hworker _ rfl) (fun _ _ => rfl)
      (.inl ⟨rfl, not_wantsThreads_of_phase hphase (by simp)⟩)
      (.inl ⟨rfl, not_wantsWorkers_of_phase hphase (by simp)⟩)
  | tryRecv w msg rest hl hw hp hq =>
    have hphase := (phase_of_worker hw).trans (congrArg some hp)
    exact h.worker rfl rfl (hworker _ rfl) (fun j hj => Function.update_of_ne hj _ _)
      (.inl ⟨rfl, not_wantsThreads_of_phase hphase (by simp)⟩) (.inr rfl)
  | reap w hl hw hp hq =>
    have hphase := (phase_of_worker hw).trans (congrArg some hp)
    exact h.worker rfl rfl (hworker _ rfl) (fun _ _ => rfl)
      (.inl ⟨rfl, not_wantsThreads_of_phase hphase (by simp)⟩) (.inr rfl)
  | drop w hw hp =>
    have hphase := (phase_of_worker hw).trans (congrArg some hp)
    exact h.worker rfl rfl (hworker _ rfl) (fun _ _ => rfl)
      (.inl ⟨rfl, not_wantsThreads_of_phase hphase (by simp)⟩)
      (.inl ⟨rfl, not_wantsWorkers_of_phase hphase (by simp)⟩)
  | processed w msg call hw hp he =>
    have hphase := (phase_of_worker hw).trans (congrArg some hp)
    have hmut : ¬ Mutates (s.progress id) := by
      rw [he]
      exact fun hm => hm
    exact h.worker rfl rfl (hworker _ rfl) (fun j hj => Function.update_of_ne hj _ _)
      (.inl ⟨rfl, not_wantsThreads_of_progress hmut⟩)
      (.inl ⟨rfl, not_wantsWorkers_of_phase hphase (by simp)⟩)

theorem handling {id : ℕ} (h : Locks s) (hs : HandlingStep P registry b s id t) : Locks t := by
  -- The worker is processing, so that it is not at the lock of the map.
  have hmove : ∀ {msg p}, Handles s id msg p → t.route = s.route → t.pool = s.pool →
      (∀ j, j ≠ id → t.progress j = s.progress j) → t.workersLock = s.workersLock →
        (t.threadsLock = s.threadsLock ∧ ¬ Mutates p ∨ t.threadsLock = none) → Locks t := by
    intro msg p hh hroute hpool hprogress hworkers hthreads
    refine h.worker hroute (by rw [hpool]) ?_ hprogress ?_
      (.inl ⟨hworkers, not_wantsWorkers_of_phase hh.1 (by simp)⟩)
    · intro j _
      unfold BoundedStages.State.phase
      rw [hpool]
    · rcases hthreads with ⟨heq, hn⟩ | heq
      · refine .inl ⟨heq, not_wantsThreads_of_progress ?_⟩
        rw [hh.2]
        exact hn
      · exact .inr heq
  cases hs with
  | handled msg result hh hr =>
    exact hmove hh rfl rfl (fun j hj => Function.update_of_ne hj _ _) rfl (.inl ⟨rfl, fun h => h⟩)
  | prune fresh msg payload hh hl =>
    exact hmove hh rfl rfl (fun j hj => Function.update_of_ne hj _ _) rfl (.inr rfl)
  | extend fresh msg kind toAddr payload hh hl =>
    exact hmove hh rfl rfl (fun j hj => Function.update_of_ne hj _ _) rfl (.inr rfl)
  | observe msg call effect rest hh hn =>
    exact hmove hh rfl rfl (fun j hj => Function.update_of_ne hj _ _) rfl (.inl ⟨rfl, fun h => h⟩)
  | reinject msg call effect rest raw hh hr ho hroom =>
    exact hmove hh rfl rfl (fun j hj => Function.update_of_ne hj _ _) rfl (.inl ⟨rfl, fun h => h⟩)
  | reinjectClosed msg call effect rest raw hh hr hc =>
    exact hmove hh rfl rfl (fun j hj => Function.update_of_ne hj _ _) rfl (.inl ⟨rfl, fun h => h⟩)

theorem outside {e : BoundedStages.Event} (h : Locks s) (hs : OutsideStep b s e t) : Locks t := by
  cases hs with
  | inject raw ho hroom => exact ⟨h.threads, h.workers⟩
  | drain env rest hq => exact ⟨h.threads, h.workers⟩
  | close => exact ⟨h.threads, h.workers⟩
  | shutdown hp => exact ⟨h.threads, h.workers⟩
  | timeout id w hw hp =>
    have hphase := (phase_of_worker hw).trans (congrArg some hp)
    refine h.worker rfl rfl ?_ (fun _ _ => rfl)
      (.inl ⟨rfl, not_wantsThreads_of_phase hphase (by simp)⟩)
      (.inl ⟨rfl, not_wantsWorkers_of_phase hphase (by simp)⟩)
    intro j hj
    rw [phase_update (s := s) (w := { w with phase := .timedOut }) rfl, Function.update_of_ne hj]

theorem step {e : BoundedStages.Event} (h : Locks s)
    (hs : BoundedStages.Step P registry federation b s e t) : Locks t := by
  cases hs with
  | relay hs => exact h.relay hs
  | route hs => exact h.route hs
  | dispatch hs => exact h.dispatch hs
  | loop hs => exact h.loop hs
  | handling hs => exact h.handling hs
  | lockThreads u hw hl =>
    refine ⟨?_, h.workers⟩
    intro v hv
    obtain rfl : u = v := Option.some_inj.mp hv
    exact hw
  | lockWorkers u hw hl =>
    refine ⟨h.threads, ?_⟩
    intro v hv
    obtain rfl : u = v := Option.some_inj.mp hv
    exact hw
  | outside hs => exact h.outside hs

end Locks

/-! ## A stage that has ended leaves nothing behind -/

structure Stops (s : BoundedStages.State F) : Prop where
  parse : s.parse = .stopped → s.ingress = []
  validate : s.validate = .stopped → s.parse = .stopped ∧ s.parsed = []
  route : s.route = .stopped → s.validate = .stopped ∧ s.validated = []
  dispatch : s.dispatching = false → s.route = .stopped ∧ s.routed = []

theorem parsing_ne_stopped (raw : Bytes) : parsing P raw ≠ .stopped := by
  unfold parsing
  cases decodeEnvelope P raw with
  | ok env => simp
  | error e => simp

theorem validating_ne_stopped (env : Envelope F) : validating registry env ≠ .stopped := by
  unfold validating
  cases validateStage registry env with
  | ok msg => simp
  | error e => simp

theorem routing_ne_stopped (msg : ValidatedMsg F) :
    routing P registry federation msg ≠ .stopped := by
  unfold routing
  split_ifs
  · simp
  · cases routeTarget P registry msg.envelope.header msg.envelope.payload.tag with
    | error e => simp
    | ok target => simp

theorem Stops.relay {s t : BoundedStages.State F} {u : Task} (h : Stops s)
    (hs : RelayStep P registry b s u t) : Stops t := by
  cases hs with
  | parseRecv raw rest hp hq =>
    have hv : s.validate ≠ .stopped := by
      intro hv
      simp [(h.validate hv).1] at hp
    exact ⟨fun he => absurd he (parsing_ne_stopped raw), fun he => absurd he hv, h.route,
      h.dispatch⟩
  | parseSend env hp ho hroom => exact ⟨nofun, fun he => absurd he ho, h.route, h.dispatch⟩
  | parseBreak env hp hc => exact ⟨fun _ => rfl, fun he => ⟨rfl, (h.validate he).2⟩, h.route,
      h.dispatch⟩
  | validateRecv env rest hp hq =>
    have hr : s.route ≠ .stopped := by
      intro hr
      simp [(h.route hr).1] at hp
    exact ⟨h.parse, fun he => absurd he (validating_ne_stopped env), fun he => absurd he hr,
      h.dispatch⟩
  | validateSend msg hp ho hroom => exact ⟨h.parse, nofun, fun he => absurd he ho, h.dispatch⟩
  | validateBreak msg hp hc =>
    have hv := (h.route hc).1
    rw [hp] at hv
    cases hv
  | validateEnd hp hq hup => exact ⟨h.parse, fun _ => ⟨hup, hq⟩, fun he => ⟨rfl, (h.route he).2⟩,
      h.dispatch⟩

theorem Stops.routeStep {s t : BoundedStages.State F} (h : Stops s)
    (hs : RouteStep P registry federation b s t) : Stops t := by
  have hd : s.route ≠ .stopped → s.dispatching ≠ false := fun hr hd => hr (h.dispatch hd).1
  cases hs with
  | recv msg rest hp hq =>
    have hr : s.route ≠ .stopped := by simp [hp]
    exact ⟨h.parse, h.validate, fun he => absurd he (routing_ne_stopped msg),
      fun he => absurd he (hd hr)⟩
  | egress env hp ho hroom =>
    have hr : s.route ≠ .stopped := by simp [hp]
    exact ⟨h.parse, h.validate, nofun, fun he => absurd he (hd hr)⟩
  | egressClosed env hp hc =>
    have hr : s.route ≠ .stopped := by simp [hp]
    exact ⟨h.parse, h.validate, nofun, fun he => absurd he (hd hr)⟩
  | register msg name hp hl =>
    have hr : s.route ≠ .stopped := by simp [hp]
    exact ⟨h.parse, h.validate, nofun, fun he => absurd he (hd hr)⟩
  | send msg hp ho hroom =>
    have hr : s.route ≠ .stopped := by simp [hp]
    exact ⟨h.parse, h.validate, nofun, fun he => absurd he (hd hr)⟩
  | fail msg hp hc =>
    have hr : s.route ≠ .stopped := by simp [hp]
    exact absurd hc (hd hr)
  | stop hp hq hup =>
    exact ⟨h.parse, h.validate, fun _ => ⟨hup, hq⟩, fun he => ⟨rfl, (h.dispatch he).2⟩⟩

theorem Stops.step {s t : BoundedStages.State F} {e : BoundedStages.Event} (h : Stops s)
    (hs : BoundedStages.Step P registry federation b s e t) : Stops t := by
  cases hs with
  | relay hs => exact h.relay hs
  | route hs => exact h.routeStep hs
  | dispatch hs =>
    cases hs with
    | recv msg rest hd hp hq =>
      exact ⟨h.parse, h.validate, h.route, fun he => absurd (hd.symm.trans he) nofun⟩
    | enqueue msg id w hl hp hm hw ho => exact ⟨h.parse, h.validate, h.route, h.dispatch⟩
    | spawn msg id hl hp hm hf => exact ⟨h.parse, h.validate, h.route, h.dispatch⟩
    | sendError msg id w hl hp hm hw hc => exact ⟨h.parse, h.validate, h.route, h.dispatch⟩
    | stop hd hp hq hup => exact ⟨h.parse, h.validate, h.route, fun _ => ⟨hup, hq⟩⟩
  | loop hs => cases hs <;> exact ⟨h.parse, h.validate, h.route, h.dispatch⟩
  | handling hs =>
    cases hs with
    | reinject msg call effect rest raw hh hr ho hroom =>
      exact ⟨fun he => absurd he ho, h.validate, h.route, h.dispatch⟩
    | handled msg result hh hr => exact ⟨h.parse, h.validate, h.route, h.dispatch⟩
    | prune fresh msg payload hh hl => exact ⟨h.parse, h.validate, h.route, h.dispatch⟩
    | extend fresh msg kind toAddr payload hh hl =>
      exact ⟨h.parse, h.validate, h.route, h.dispatch⟩
    | observe msg call effect rest hh hn => exact ⟨h.parse, h.validate, h.route, h.dispatch⟩
    | reinjectClosed msg call effect rest raw hh hr hc =>
      exact ⟨h.parse, h.validate, h.route, h.dispatch⟩
  | lockThreads u hw hl => exact ⟨h.parse, h.validate, h.route, h.dispatch⟩
  | lockWorkers u hw hl => exact ⟨h.parse, h.validate, h.route, h.dispatch⟩
  | outside hs =>
    cases hs with
    | inject raw ho hroom => exact ⟨fun he => absurd he ho, h.validate, h.route, h.dispatch⟩
    | drain env rest hq => exact ⟨h.parse, h.validate, h.route, h.dispatch⟩
    | close => exact ⟨h.parse, h.validate, h.route, h.dispatch⟩
    | shutdown hp => exact ⟨fun _ => rfl, fun he => ⟨rfl, (h.validate he).2⟩, h.route, h.dispatch⟩
    | timeout id w hw hp => exact ⟨h.parse, h.validate, h.route, h.dispatch⟩

/-! ## A worker with a message is somewhere in its handling -/

def Engaged (s : BoundedStages.State F) : Prop :=
  ∀ id msg, s.phase id = some (.processing msg) → s.progress id ≠ .idle

theorem afterHandler_ne_idle (msg : RoutedMsg F)
    (result : Option (Except PipelineError (HandlerResponse F))) :
    afterHandler P registry msg result ≠ .idle := by
  cases result with
  | none => nofun
  | some r =>
    cases r with
    | error e => nofun
    | ok response =>
      cases response with
      | none => nofun
      | reply payload => nofun
      | send toAddr payload =>
        cases hp : registry.routing.enforcePeers msg.targetName toAddr.organismName with
        | error e => simp [afterHandler, hp]
        | ok u => simp [afterHandler, hp]
      | spawn toAddr payload =>
        cases hp : registry.routing.enforcePeers msg.targetName toAddr.organismName with
        | error e => simp [afterHandler, hp]
        | ok u => simp [afterHandler, hp]

namespace Engaged

variable {s t : BoundedStages.State F}

theorem worker (h : Engaged s) {id : ℕ} {w : Worker F}
    (hw : t.pool.worker = Function.update s.pool.worker id (some w))
    (hprogress : ∀ j, j ≠ id → t.progress j = s.progress j)
    (hself : ∀ msg, w.phase = .processing msg → t.progress id ≠ .idle) : Engaged t := by
  intro j msg hj
  rw [phase_update hw] at hj
  by_cases hji : j = id
  · rw [hji, Function.update_self, Option.some_inj] at hj
    rw [hji]
    exact hself msg hj
  · rw [Function.update_of_ne hji] at hj
    rw [hprogress j hji]
    exact h j msg hj

theorem setProgress (h : Engaged s) {id : ℕ} {p : Progress F} (hpool : t.pool = s.pool)
    (hprogress : t.progress = Function.update s.progress id p) (hp : p ≠ .idle) : Engaged t := by
  intro j msg hj
  unfold BoundedStages.State.phase at hj
  rw [hpool] at hj
  rw [hprogress]
  by_cases hji : j = id
  · rw [hji, Function.update_self]
    exact hp
  · rw [Function.update_of_ne hji]
    exact h j msg hj

theorem loop {id : ℕ} (h : Engaged s) (hs : LoopStep s id t) : Engaged t := by
  cases hs with
  | recv w msg rest hw hp hq =>
    refine h.worker rfl (fun j hj => Function.update_of_ne hj _ _) ?_
    intro _ _
    exact (Function.update_self id _ s.progress).trans_ne nofun
  | recvNone w hw hp hq hn => exact h.worker rfl (fun _ _ => rfl) nofun
  | tryRecv w msg rest hl hw hp hq =>
    refine h.worker rfl (fun j hj => Function.update_of_ne hj _ _) ?_
    intro _ _
    exact (Function.update_self id _ s.progress).trans_ne nofun
  | reap w hl hw hp hq => exact h.worker rfl (fun _ _ => rfl) nofun
  | drop w hw hp => exact h.worker rfl (fun _ _ => rfl) nofun
  | processed w msg call hw hp he =>
    exact h.worker rfl (fun j hj => Function.update_of_ne hj _ _) nofun

theorem handling {id : ℕ} (h : Engaged s) (hs : HandlingStep P registry b s id t) :
    Engaged t := by
  cases hs with
  | handled msg result hh hr => exact h.setProgress rfl rfl (afterHandler_ne_idle msg result)
  | prune fresh msg payload hh hl => exact h.setProgress rfl rfl nofun
  | extend fresh msg kind toAddr payload hh hl => exact h.setProgress rfl rfl nofun
  | observe msg call effect rest hh hn => exact h.setProgress rfl rfl nofun
  | reinject msg call effect rest raw hh hr ho hroom => exact h.setProgress rfl rfl nofun
  | reinjectClosed msg call effect rest raw hh hr hc => exact h.setProgress rfl rfl nofun

theorem step {e : BoundedStages.Event} (h : Engaged s)
    (hs : BoundedStages.Step P registry federation b s e t) : Engaged t := by
  cases hs with
  | relay hs => cases hs <;> exact h
  | route hs => cases hs <;> exact h
  | dispatch hs =>
    cases hs with
    | recv msg rest hd hp hq => exact h
    | enqueue msg id w hl hp hm hw ho =>
      refine h.worker (w := { w with queue := w.queue ++ [msg] }) rfl (fun _ _ => rfl) ?_
      intro m hm
      exact h id m ((phase_of_worker hw).trans (congrArg some hm))
    | spawn msg id hl hp hm hf =>
      exact h.worker (w := ⟨key msg, [msg], .waiting⟩) rfl (fun _ _ => rfl) nofun
    | sendError msg id w hl hp hm hw hc => exact h
    | stop hd hp hq hup => exact h
  | loop hs => exact h.loop hs
  | handling hs => exact h.handling hs
  | lockThreads u hw hl => exact h
  | lockWorkers u hw hl => exact h
  | outside hs =>
    cases hs with
    | inject raw ho hroom => exact h
    | drain env rest hq => exact h
    | close => exact h
    | shutdown hp => exact h
    | timeout id w hw hp =>
      exact h.worker (w := { w with phase := .timedOut }) rfl (fun _ _ => rfl) nofun

end Engaged

/-! ## Every reachable state -/

theorem kept_of_reachable {s : BoundedStages.State F}
    (hs : Reachable (stages P registry federation b) s) : Locks s ∧ Stops s ∧ Engaged s := by
  apply hs.invariant
  · intro s h
    obtain ⟨threads, rfl⟩ := h
    exact ⟨⟨nofun, nofun⟩, ⟨nofun, nofun, nofun, nofun⟩, nofun⟩
  · intro s t h hst
    obtain ⟨e, he⟩ := hst
    exact ⟨h.1.step he, h.2.1.step he, h.2.2.step he⟩

end RustPipeline.StageInvariants
