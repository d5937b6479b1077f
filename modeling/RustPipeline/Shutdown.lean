import RustPipeline.Foundation.Weights
import RustPipeline.StageFlow

set_option autoImplicit false

/-!
# Graceful shutdown

Once the parse stage has ended, every message behind it has a number of steps left that it cannot
exceed, and when no step is left every one of them was handled.
-/
namespace RustPipeline.Shutdown
open Text Wire Codec Handling Routing Registry Thread Federation Pipeline
open TransitionSystem Dispatch Interleaving BoundedStages StageInvariants NoDeadlock
open Observations StageFlow Weights CallReturn ThreadProvenance PlainPlatform

variable {F : Type} {P : Platform F} {registry : ListenerRegistry F}
  {federation : Option PeerDirectory} {b : Buffers}

/-! ## What is left to do -/

def relayWeight {M : Type} (n : ℕ) : Relay M → ℕ
  | .receiving => 1
  | .sending _ => n + 1
  | .stopped => 0

def routeWeight : RoutePhase F → ℕ
  | .receiving => 1
  | .federating _ => 61
  | .registering _ _ => 61
  | .sending _ => 55
  | .stopped => 0

def progressWeight : Progress F → ℕ
  | .idle => 0
  | .handling => 12
  | .answering _ => 6
  | .calling _ _ _ => 8
  | .emitting _ effects => effects.length + 1

def phaseWeight (p : Progress F) : Phase F → ℕ
  | .waiting => 6
  | .timedOut => 5
  | .processing _ => progressWeight p + 6
  | .leaving => 2
  | .gone => 0

def workerWeight (p : Progress F) : Option (Worker F) → ℕ
  | some w => 30 * w.queue.length + phaseWeight p w.phase
  | none => 0

/-- A lock that is free can be taken once. -/
def lockWeight : Option Task → ℕ
  | some _ => 0
  | none => 1

/-- A message weighs less at every stage than at the one before it. -/
def stagesSize (s : BoundedStages.State F) : ℕ :=
  90 * s.parsed.length + relayWeight 80 s.validate + 70 * s.validated.length +
    routeWeight s.route + 50 * s.routed.length + (if s.dispatching then 1 else 0) +
      45 * s.pool.pending.toList.length + lockWeight s.threadsLock + lockWeight s.workersLock

def weights (s : BoundedStages.State F) (id : ℕ) : ℕ :=
  workerWeight (s.progress id) (s.pool.worker id)

/-- A bound on the steps that are left when nothing comes in any more. -/
noncomputable def size (s : BoundedStages.State F) : ℕ := stagesSize s + ∑ᶠ id, weights s id

/-- The tasks' steps and the timeouts; what happens to the egress is not counted. -/
def worked (_ : BoundedStages.State F) : BoundedStages.Event → List BoundedStages.Event
  | .drain => []
  | .close => []
  | e => [e]

/-! ## Every step is paid for -/

theorem weights_finite {s : BoundedStages.State F} (h : {id | s.pool.worker id ≠ none}.Finite) :
    (weights s).support.Finite := by
  apply h.subset
  intro id hid hnone
  apply hid
  unfold weights
  rw [hnone]
  rfl

/-- The workers stay as they are. -/
theorem size_of_workers_eq {s t : BoundedStages.State F} {n : ℕ}
    (hworker : t.pool.worker = s.pool.worker) (hprogress : t.progress = s.progress)
    (h : stagesSize t + n ≤ stagesSize s) : size t + n ≤ size s := by
  have hweights : weights t = weights s := by
    funext id
    rw [weights, weights, hworker, hprogress]
  unfold size
  rw [hweights]
  omega

/-- One worker changes. -/
theorem size_of_worker {s t : BoundedStages.State F}
    (hfree : {id | s.pool.worker id ≠ none}.Finite) {id : ℕ} {w : Worker F} {p : Progress F}
    (hworker : t.pool.worker = Function.update s.pool.worker id (some w))
    (hprogress : t.progress = Function.update s.progress id p)
    (h : stagesSize t + workerWeight p (some w) + 1 ≤ stagesSize s + weights s id) :
    size t + 1 ≤ size s := by
  have hweights : weights t = Function.update (weights s) id (workerWeight p (some w)) := by
    funext j
    unfold weights
    rw [hworker, hprogress]
    by_cases hj : j = id
    · rw [hj, Function.update_self, Function.update_self, Function.update_self]
    · rw [Function.update_of_ne hj, Function.update_of_ne hj, Function.update_of_ne hj]
  have hsum := finsum_update (weights_finite hfree) id (workerWeight p (some w))
  unfold size
  rw [hweights]
  omega

theorem weights_of_worker {s : BoundedStages.State F} {id : ℕ} {w : Worker F}
    (hw : s.pool.worker id = some w) :
    weights s id = 30 * w.queue.length + phaseWeight (s.progress id) w.phase := by
  rw [weights, hw]
  rfl

theorem weights_of_handles {s : BoundedStages.State F} {id : ℕ} {msg : RoutedMsg F}
    {p : Progress F} (h : Handles s id msg p) : ∃ w, s.pool.worker id = some w ∧
      w.phase = .processing msg ∧ weights s id = 30 * w.queue.length + (progressWeight p + 6) := by
  obtain ⟨w, hw, hp⟩ := worker_of_phase h.1
  refine ⟨w, hw, hp, ?_⟩
  rw [weights_of_worker hw, hp, h.2]
  rfl

/-- The worker goes on with its message. -/
theorem size_of_progress {s t : BoundedStages.State F}
    (hfree : {id | s.pool.worker id ≠ none}.Finite) {id : ℕ} {msg : RoutedMsg F}
    {p q : Progress F} (hh : Handles s id msg p) (hworker : t.pool.worker = s.pool.worker)
    (hprogress : t.progress = Function.update s.progress id q)
    (h : stagesSize t + progressWeight q + 1 ≤ stagesSize s + progressWeight p) :
    size t + 1 ≤ size s := by
  obtain ⟨w, hw, hp, hweight⟩ := weights_of_handles hh
  apply size_of_worker hfree (w := w) _ hprogress
  · rw [hweight, workerWeight, hp]
    change stagesSize t + (30 * w.queue.length + (progressWeight q + 6)) + 1 ≤ _
    omega
  · rw [hworker, ← hw, Function.update_eq_self]

theorem progressWeight_afterHandler (msg : RoutedMsg F)
    (result : Option (Except PipelineError (HandlerResponse F))) :
    progressWeight (afterHandler P registry msg result) ≤ 8 := by
  cases result with
  | none => exact Nat.le_of_ble_eq_true rfl
  | some r =>
    cases r with
    | error e => exact Nat.le_of_ble_eq_true rfl
    | ok response =>
      cases response with
      | none => exact Nat.le_of_ble_eq_true rfl
      | reply payload => exact Nat.le_of_ble_eq_true rfl
      | send toAddr payload =>
        cases hp : registry.routing.enforcePeers msg.targetName toAddr.organismName with
        | error e => simp [afterHandler, hp, progressWeight]
        | ok u => simp [afterHandler, hp, progressWeight]
      | spawn toAddr payload =>
        cases hp : registry.routing.enforcePeers msg.targetName toAddr.organismName with
        | error e => simp [afterHandler, hp, progressWeight]
        | ok u => simp [afterHandler, hp, progressWeight]

theorem size_relay {s t : BoundedStages.State F} {u : Task} (hstop : s.parse = .stopped)
    (hs : RelayStep P registry b s u t) : size t + 1 ≤ size s := by
  apply size_of_workers_eq (by cases hs <;> rfl) (by cases hs <;> rfl)
  cases hs with
  | parseRecv raw rest hp hq => simp [hstop] at hp
  | parseSend env hp ho hroom => simp [hstop] at hp
  | parseBreak env hp hc => simp [hstop] at hp
  | validateRecv env rest hp hq =>
    have hle : relayWeight 80 (validating registry env) ≤ 81 := by
      unfold validating
      cases validateStage registry env with
      | ok msg => exact le_rfl
      | error e => exact Nat.le_of_ble_eq_true rfl
    have hone : relayWeight 80 (Relay.receiving : Relay (ValidatedMsg F)) = 1 := rfl
    simp only [stagesSize, hp, hq, hone, List.length_cons]
    omega
  | validateSend msg hp ho hroom =>
    simp only [stagesSize, hp, relayWeight, List.length_append, List.length_singleton]
    omega
  | validateBreak msg hp hc =>
    simp only [stagesSize, hp, relayWeight, List.length_nil]
    omega
  | validateEnd hp hq hup =>
    simp only [stagesSize, hp, relayWeight]
    omega

theorem routeWeight_routing (msg : ValidatedMsg F) :
    routeWeight (routing P registry federation msg) ≤ 61 := by
  unfold routing
  split_ifs
  · exact le_rfl
  · cases routeTarget P registry msg.envelope.header msg.envelope.payload.tag with
    | error e => exact Nat.le_of_ble_eq_true rfl
    | ok target => exact le_rfl

theorem size_route {s t : BoundedStages.State F} (hs : RouteStep P registry federation b s t) :
    size t + 1 ≤ size s := by
  apply size_of_workers_eq (by cases hs <;> rfl) (by cases hs <;> rfl)
  cases hs with
  | recv msg rest hp hq =>
    have hle : routeWeight (routing P registry federation msg) ≤ 61 := routeWeight_routing msg
    have hone : routeWeight (RoutePhase.receiving : RoutePhase F) = 1 := rfl
    simp only [stagesSize, hp, hq, hone, List.length_cons]
    omega
  | egress env hp ho hroom =>
    simp only [stagesSize, hp, routeWeight]
    omega
  | egressClosed env hp hc =>
    simp only [stagesSize, hp, routeWeight]
    omega
  | register msg name hp hl =>
    simp only [stagesSize, hp, hl, routeWeight, lockWeight]
    omega
  | send msg hp ho hroom =>
    simp only [stagesSize, hp, routeWeight, List.length_append, List.length_singleton]
    omega
  | fail msg hp hc =>
    simp only [stagesSize, hp, routeWeight, List.length_nil]
    omega
  | stop hp hq hup =>
    simp only [stagesSize, hp, routeWeight]
    omega

theorem size_dispatch {s t : BoundedStages.State F} (hinv : Inv s.pool)
    (hfree : {id | s.pool.worker id ≠ none}.Finite) (hs : DispatchStep s t) :
    size t + 1 ≤ size s := by
  cases hs with
  | recv msg rest hd hp hq =>
    refine size_of_workers_eq rfl rfl ?_
    simp only [stagesSize, hp, hq, List.length_cons, Option.toList_none, Option.toList_some,
      List.length_nil]
    omega
  | enqueue msg id w hl hp hm hw ho =>
    refine size_of_worker hfree rfl (Function.update_eq_self id s.progress).symm ?_
    rw [weights_of_worker hw]
    simp only [stagesSize, hp, hl, workerWeight, lockWeight, Dispatch.State.accept,
      Dispatch.State.setWorker, List.length_append, List.length_cons, Option.toList_none,
      Option.toList_some, List.length_nil]
    omega
  | spawn msg id hl hp hm hf =>
    refine size_of_worker hfree rfl (Function.update_eq_self id s.progress).symm ?_
    have hzero : weights s id = 0 := by
      rw [weights, hf]
      rfl
    rw [hzero]
    simp only [stagesSize, hp, hl, workerWeight, phaseWeight, lockWeight, Dispatch.State.accept,
      Dispatch.State.setWorker, List.length_cons, Option.toList_none, Option.toList_some,
      List.length_nil]
    omega
  | sendError msg id w hl hp hm hw hc =>
    have hlive := (hinv.live_of_map hm hw).2
    rw [hc] at hlive
    exact hlive.elim
  | stop hd hp hq hup =>
    refine size_of_workers_eq rfl rfl ?_
    simp only [stagesSize, hd, Bool.false_eq_true, ↓reduceIte]
    omega

theorem size_loop {s t : BoundedStages.State F} {id : ℕ}
    (hfree : {id | s.pool.worker id ≠ none}.Finite) (hs : LoopStep s id t) :
    size t + 1 ≤ size s := by
  cases hs with
  | recv w msg rest hw hp hq =>
    refine size_of_worker hfree rfl rfl ?_
    rw [weights_of_worker hw, hp, hq]
    simp only [workerWeight, phaseWeight, progressWeight, List.length_cons]
    change stagesSize s + _ + 1 ≤ _
    omega
  | recvNone w hw hp hq hn =>
    refine size_of_worker hfree rfl (Function.update_eq_self id s.progress).symm ?_
    rw [weights_of_worker hw, hp, hq]
    simp only [workerWeight, phaseWeight, List.length_nil]
    change stagesSize s + _ + 1 ≤ _
    omega
  | tryRecv w msg rest hl hw hp hq =>
    refine size_of_worker hfree rfl rfl ?_
    rw [weights_of_worker hw, hp, hq]
    simp only [stagesSize, hl, workerWeight, phaseWeight, progressWeight, lockWeight,
      List.length_cons, BoundedStages.State.setProgress, BoundedStages.State.setWorker,
      Dispatch.State.setWorker]
    omega
  | reap w hl hw hp hq =>
    refine size_of_worker hfree rfl (Function.update_eq_self id s.progress).symm ?_
    rw [weights_of_worker hw, hp, hq]
    simp only [stagesSize, hl, workerWeight, phaseWeight, lockWeight, List.length_nil,
      Dispatch.State.setWorker, Dispatch.State.remove]
    omega
  | drop w hw hp =>
    refine size_of_worker hfree rfl (Function.update_eq_self id s.progress).symm ?_
    rw [weights_of_worker hw, hp]
    simp only [workerWeight, phaseWeight]
    change stagesSize s + _ + 1 ≤ _
    omega
  | processed w msg call hw hp he =>
    refine size_of_worker hfree rfl rfl ?_
    rw [weights_of_worker hw, hp, he]
    simp only [workerWeight, phaseWeight, progressWeight, List.length_nil]
    change stagesSize s + _ + 1 ≤ _
    omega

theorem size_handling {s t : BoundedStages.State F} {id : ℕ} (hstop : s.parse = .stopped)
    (hfree : {id | s.pool.worker id ≠ none}.Finite)
    (hs : HandlingStep P registry b s id t) : size t + 1 ≤ size s := by
  cases hs with
  | handled msg result h hh =>
    refine size_of_progress hfree h rfl rfl ?_
    have hle : progressWeight (afterHandler P registry msg result) ≤ 8 :=
      progressWeight_afterHandler msg result
    change stagesSize s + progressWeight (afterHandler P registry msg result) + 1 ≤
      stagesSize s + 12
    omega
  | prune fresh msg payload h hl =>
    refine size_of_progress hfree h rfl rfl ?_
    have hle : (answerEffects P msg payload
        (s.threads.pruneForResponse (key msg) fresh).1).length ≤ 1 := by
      cases (s.threads.pruneForResponse (key msg) fresh).1 with
      | none => exact Nat.zero_le 1
      | some prune => exact le_rfl
    simp only [stagesSize, hl, progressWeight, lockWeight, BoundedStages.State.setProgress]
    omega
  | extend fresh msg kind toAddr payload h hl =>
    refine size_of_progress hfree h rfl rfl ?_
    have hle : (callEffects P msg kind toAddr payload
        (s.threads.extendChain (key msg) toAddr.organismName fresh).1).length ≤ 3 := by
      cases kind with
      | sync => exact Nat.le_of_ble_eq_true rfl
      | async => exact le_rfl
    simp only [stagesSize, hl, progressWeight, lockWeight, BoundedStages.State.setProgress]
    omega
  | observe msg call effect rest h hn =>
    refine size_of_progress hfree h rfl rfl ?_
    simp only [progressWeight, List.length_cons]
    change stagesSize s + _ + 1 ≤ _
    omega
  | reinject msg call effect rest raw h hr ho hroom => exact absurd hstop ho
  | reinjectClosed msg call effect rest raw h hr hc =>
    refine size_of_progress hfree h rfl rfl ?_
    simp only [progressWeight, List.length_cons]
    change stagesSize s + _ + 1 ≤ _
    omega

/-- Every step is paid for once the parse stage has ended, which it does for good. -/
theorem size_step {s t : BoundedStages.State F} {e : BoundedStages.Event} (hinv : Inv s.pool)
    (hfree : {id | s.pool.worker id ≠ none}.Finite) (hstop : s.parse = .stopped)
    (hs : BoundedStages.Step P registry federation b s e t) :
    size t + (worked s e).length ≤ size s := by
  cases hs with
  | relay hs =>
    have hrelay := size_relay hstop hs
    cases hs <;> exact hrelay
  | route hs => exact size_route hs
  | dispatch hs => exact size_dispatch hinv hfree hs
  | loop hs => exact size_loop hfree hs
  | handling hs => exact size_handling hstop hfree hs
  | lockThreads u hw hl =>
    refine size_of_workers_eq rfl rfl ?_
    simp only [stagesSize, hl, lockWeight, worked, List.length_singleton]
    omega
  | lockWorkers u hw hl =>
    refine size_of_workers_eq rfl rfl ?_
    simp only [stagesSize, hl, lockWeight, worked, List.length_singleton]
    omega
  | outside hs =>
    cases hs with
    | inject raw ho hroom => exact absurd hstop ho
    | drain env rest hq => exact le_rfl
    | close => exact le_rfl
    | shutdown hp =>
      rw [hstop] at hp
      cases hp
    | timeout id w hw hp =>
      refine size_of_worker hfree rfl (Function.update_eq_self id s.progress).symm ?_
      rw [weights_of_worker hw, hp]
      simp only [workerWeight, phaseWeight]
      change stagesSize s + _ + 1 ≤ _
      omega

theorem stopped_step {s t : BoundedStages.State F} {e : BoundedStages.Event}
    (hstop : s.parse = .stopped) (hs : BoundedStages.Step P registry federation b s e t) :
    t.parse = .stopped := by
  cases hs with
  | relay hs =>
    cases hs with
    | parseRecv raw rest hp hq => simp [hstop] at hp
    | parseSend env hp ho hroom => simp [hstop] at hp
    | parseBreak env hp hc => rfl
    | validateRecv env rest hp hq => exact hstop
    | validateSend msg hp ho hroom => exact hstop
    | validateBreak msg hp hc => exact hstop
    | validateEnd hp hq hup => exact hstop
  | route hs => cases hs <;> exact hstop
  | dispatch hs => cases hs <;> exact hstop
  | loop hs => cases hs <;> exact hstop
  | handling hs => cases hs <;> exact hstop
  | lockThreads u hw hl => exact hstop
  | lockWorkers u hw hl => exact hstop
  | outside hs =>
    cases hs with
    | shutdown hp => rfl
    | inject raw ho hroom => exact hstop
    | drain env rest hq => exact hstop
    | close => exact hstop
    | timeout id w hw hp => exact hstop

/-! ## Where the steps end -/

variable (P registry federation b) in
/-- No task has a step left, and no idle time runs. -/
def Settled (s : BoundedStages.State F) : Prop :=
  ∀ e t, worked s e ≠ [] → ¬ BoundedStages.Step P registry federation b s e t

/-- All tasks have ended. -/
structure Over (s : BoundedStages.State F) : Prop where
  parse : s.parse = .stopped
  validate : s.validate = .stopped
  route : s.route = .stopped
  dispatch : s.dispatching = false
  workers : ∀ id w, s.pool.worker id = some w → w.phase = .gone

theorem ready_of_active {s : BoundedStages.State F}
    (hs : Reachable (stages P registry federation b) s)
    (hegress : s.egressClosed = true ∨ s.egress.length < b.egress) {u : Task} (hu : Active s u) :
    ∃ v, Ready P registry federation b s v := by
  obtain ⟨hlocks, _, hengaged⟩ := kept_of_reachable hs
  obtain ⟨pool, hpool, rfl⟩ := refinesDispatch.reachable hs
  have hgoes : ∀ v, Active s v → Goes P registry federation b s v := by
    intro v hv
    cases v with
    | parse => exact parse_goes hv
    | validate => exact validate_goes hv
    | route => exact route_goes hlocks hegress hv
    | dispatch => exact dispatch_goes hlocks (inv_of_reachable hpool) (finite_workers hpool) hv
    | worker id => exact worker_goes hlocks hengaged hv
  exact Waiting.exists_ready (depth_lt hlocks) hgoes hu

theorem not_active_of_settled {s : BoundedStages.State F}
    (hs : Reachable (stages P registry federation b) s)
    (hegress : s.egressClosed = true ∨ s.egress.length < b.egress)
    (h : Settled P registry federation b s) (u : Task) : ¬ Active s u := by
  intro hu
  obtain ⟨v, t, ht⟩ := ready_of_active hs hegress hu
  exact h (.task v) t (by simp [worked]) ht

theorem over_of_settled {s : BoundedStages.State F}
    (hs : Reachable (stages P registry federation b) s) (hstop : s.parse = .stopped)
    (hegress : s.egressClosed = true ∨ s.egress.length < b.egress)
    (h : Settled P registry federation b s) : Over s := by
  have hquiet := not_active_of_settled hs hegress h
  have hvalidate : s.validate = .stopped := by
    cases hp : s.validate with
    | stopped => rfl
    | sending msg => exact absurd ⟨by simp [hp], by simp [hp]⟩ (hquiet .validate)
    | receiving =>
      by_cases hq : s.parsed = []
      · exact absurd (.relay (.validateEnd s hp hq hstop)) (h (.task .validate) _ (by simp [worked]))
      · exact absurd ⟨by simp [hp], fun _ => hq⟩ (hquiet .validate)
  have hroute : s.route = .stopped := by
    cases hp : s.route with
    | stopped => rfl
    | federating env => exact absurd ⟨by simp [hp], by simp [hp]⟩ (hquiet .route)
    | registering msg name => exact absurd ⟨by simp [hp], by simp [hp]⟩ (hquiet .route)
    | sending msg => exact absurd ⟨by simp [hp], by simp [hp]⟩ (hquiet .route)
    | receiving =>
      by_cases hq : s.validated = []
      · exact absurd (.route (.stop s hp hq hvalidate)) (h (.task .route) _ (by simp [worked]))
      · exact absurd ⟨by simp [hp], fun _ => hq⟩ (hquiet .route)
  refine ⟨hstop, hvalidate, hroute, ?_, ?_⟩
  · cases hd : s.dispatching with
    | false => rfl
    | true =>
      cases hp : s.pool.pending with
      | some msg => exact absurd (.inl (by simp [hp])) (hquiet .dispatch)
      | none =>
        by_cases hq : s.routed = []
        · exact absurd (.dispatch (.stop s hd hp hq hroute))
            (h (.task .dispatch) _ (by simp [worked]))
        · exact absurd (.inr ⟨hd, hq⟩) (hquiet .dispatch)
  · intro id w hw
    cases hp : w.phase with
    | gone => rfl
    | waiting =>
      exact absurd (.outside (.timeout s id w hw hp)) (h .timeout _ (by simp [worked]))
    | timedOut => exact absurd ⟨w, hw, by simp [hp], by simp [hp]⟩ (hquiet (.worker id))
    | processing msg => exact absurd ⟨w, hw, by simp [hp], by simp [hp]⟩ (hquiet (.worker id))
    | leaving => exact absurd ⟨w, hw, by simp [hp], by simp [hp]⟩ (hquiet (.worker id))

theorem pending_of_settled {s : BoundedStages.State F}
    (hs : Reachable (stages P registry federation b) s)
    (hegress : s.egressClosed = true ∨ s.egress.length < b.egress)
    (h : Settled P registry federation b s) : s.pool.pending = none := by
  cases hp : s.pool.pending with
  | none => rfl
  | some msg => exact absurd (.inl (by simp [hp])) (not_active_of_settled hs hegress h .dispatch)

theorem oncoming_of_over {s : BoundedStages.State F} (hstops : Stops s) (h : Over s) :
    oncoming P registry federation s = [] := by
  unfold oncoming upstream
  rw [(hstops.dispatch h.dispatch).2, (hstops.route h.route).2, (hstops.validate h.validate).2,
    h.parse, h.validate, h.route]
  rfl

/-- Where every worker is gone, what was accepted was handled. -/
theorem finished_of_over {s : BoundedStages.State F}
    (hs : Reachable (stages P registry federation b) s) (h : Over s) (k : String) :
    (s.pool.finished.filter fun m => key m = k) = s.pool.accepted.filter fun m => key m = k := by
  obtain ⟨pool, hpool, rfl⟩ := refinesDispatch.reachable hs
  have hinv := inv_of_reachable hpool
  have hnone : s.pool.registered k = none := by
    unfold Dispatch.State.registered
    cases hm : s.pool.map k with
    | none => rfl
    | some id =>
      obtain ⟨w, hw, _, hlive⟩ := hinv.registered k id hm
      rw [h.workers id w hw] at hlive
      exact hlive.elim
  have hlane := lane_of_none hnone
  rw [Dispatch.State.lane, Lanes.Lane.mk.injEq] at hlane
  rw [conserved_of_reachable hpool k, hlane.2.1, hlane.2.2, Option.toList_none, List.append_nil,
    List.append_nil]

theorem record_of_stopped {s t : BoundedStages.State F} {events : List BoundedStages.Event}
    (hstops : Stops s) (hstop : s.parse = .stopped)
    (h : Run (BoundedStages.Step P registry federation b) worked s events t) :
    record P registry federation t = record P registry federation s := by
  have hkept : Stops t ∧ t.parse = .stopped ∧
      record P registry federation t = record P registry federation s := by
    refine h.invariant (I := fun u => Stops u ∧ u.parse = .stopped ∧
      record P registry federation u = record P registry federation s) ?_ ⟨hstops, hstop, rfl⟩
    rintro u e v ⟨hu, hp, hr⟩ he
    have hnone : taken u e = [] := by
      unfold taken
      split
      · rw [hp, hu.parse hp]
        rfl
      · rfl
    refine ⟨hu.step he, stopped_step hp he, ?_⟩
    rw [record_step hu he, hnone, List.filterMap_nil, List.append_nil, hr]
  exact hkept.2.2

/-- Once the parse stage has ended, the tasks come to their end in a bounded number of steps, and
    then every message that was past it is handled: those that pass the gates, in order on each
    thread. -/
theorem shutdown_completes {s : BoundedStages.State F}
    (hs : Reachable (stages P registry federation b) s) (hstop : s.parse = .stopped) :
    (∃ n, ∀ events t, Run (BoundedStages.Step P registry federation b) worked s events t →
      events.length ≤ n) ∧
    ∀ events t, Run (BoundedStages.Step P registry federation b) worked s events t →
      t.egressClosed = true ∨ t.egress.length < b.egress → Settled P registry federation b t →
        Over t ∧ ∀ k, (t.pool.finished.filter fun m => key m = k) =
          (s.pool.received ++ oncoming P registry federation s).filter fun m => key m = k := by
  have hreach : ∀ events t, Run (BoundedStages.Step P registry federation b) worked s events t →
      Reachable (stages P registry federation b) t := fun _ _ h =>
    h.reachable (fun _ e _ he => ⟨e, he⟩) hs
  constructor
  · refine ⟨size s, fun events t h => ?_⟩
    have hkept : ∀ u e v, Reachable (stages P registry federation b) u ∧ u.parse = .stopped →
        BoundedStages.Step P registry federation b u e v →
          Reachable (stages P registry federation b) v ∧ v.parse = .stopped :=
      fun u e v hu he => ⟨hu.1.next ⟨e, he⟩, stopped_step hu.2 he⟩
    have hle := h.bounded hkept size (fun u e v hu he => by
      obtain ⟨pool, hpool, rfl⟩ := refinesDispatch.reachable hu.1
      exact size_step (inv_of_reachable hpool) (finite_workers hpool) hu.2 he) ⟨hs, hstop⟩
    omega
  · intro events t h hegress hsettled
    have ht := hreach events t h
    have hstops := (kept_of_reachable hs).2.1
    have hstop' : t.parse = .stopped :=
      h.invariant (I := fun u => u.parse = .stopped) (fun _ _ _ => stopped_step) hstop
    have hover := over_of_settled ht hstop' hegress hsettled
    refine ⟨hover, fun k => ?_⟩
    obtain ⟨pool, hpool, rfl⟩ := refinesDispatch.reachable ht
    have hrecord : t.pool.received ++ oncoming P registry federation t =
        s.pool.received ++ oncoming P registry federation s := record_of_stopped hstops hstop h
    rw [oncoming_of_over (kept_of_reachable ht).2.1 hover, List.append_nil,
      (inv_of_reachable hpool).received, pending_of_settled ht hegress hsettled,
      Option.toList_none, List.append_nil] at hrecord
    rw [finished_of_over ht hover k, hrecord]

/-! ## A visit that was parsed before the end -/

def closing : BoundedStages.State UInt32 :=
  { BoundedStages.State.boot .new with parsed := [visitWith .empty], parse := .stopped }

theorem closing_reachable : Reachable narrowStages closing := by
  have h0 : Reachable narrowStages (BoundedStages.State.boot .new) := .start ⟨.new, rfl⟩
  have h1 := visit_parsed h0 rfl rfl
  have h2 := h1.next ⟨_, .relay (.parseSend _ (visitWith .empty) rfl nofun (by decide))⟩
  exact h2.next ⟨_, .outside (.shutdown _ rfl)⟩

theorem shutdown_completes_closing :
    (∃ n, ∀ events t, Run (BoundedStages.Step plain (desk (.flat "bob")).registry none narrow) worked
      closing events t → events.length ≤ n) ∧
    ∀ events t, Run (BoundedStages.Step plain (desk (.flat "bob")).registry none narrow) worked
      closing events t → t.egressClosed = true ∨ t.egress.length < narrow.egress →
        Settled plain (desk (.flat "bob")).registry none narrow t →
          Over t ∧ ∀ k, (t.pool.finished.filter fun m => key m = k) =
            (closing.pool.received ++ oncoming plain (desk (.flat "bob")).registry none closing).filter
              fun m => key m = k :=
  shutdown_completes closing_reachable rfl

end RustPipeline.Shutdown
