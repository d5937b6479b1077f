import RustPipeline.SpawnOrder

set_option autoImplicit false

/-!
# Brackets of call edges

What the dispatch observer sees on the thread id of a call. It opens and closes in turn when an id
is extended to again only after every call on it was answered, and answered only while one call on
it is open and unanswered.
-/
namespace RustPipeline.CallBrackets
open Text Wire Codec Handling Routing Registry Thread Federation Pipeline CallReturn Interleaving
open SpawnOrder TransitionSystem PlainPlatform

variable {F : Type}

/-! ## Alternation -/

inductive EdgeEvent where
  | opened
  | closed
  deriving DecidableEq

/-- The events alternate and the first one opens, as if an edge had closed before. -/
def Bracketed (events : List EdgeEvent) : Prop := List.IsChain (· ≠ ·) (.closed :: events)

theorem bracketed_concat (events : List EdgeEvent) (e : EdgeEvent) :
    Bracketed (events ++ [e]) ↔ Bracketed events ∧ events.getLastD .closed ≠ e := by
  unfold Bracketed
  rw [← List.cons_append, List.isChain_append, List.getLast?_cons]
  simp

/-- An alternating history has one more opening than closings while its edge is open. -/
theorem Bracketed.count {events : List EdgeEvent} (h : Bracketed events) :
    events.getLastD .closed = .closed ∧ events.count .opened = events.count .closed ∨
      events.getLastD .closed = .opened ∧ events.count .opened = events.count .closed + 1 := by
  induction events using List.reverseRecOn with
  | nil => exact .inl ⟨rfl, rfl⟩
  | append_singleton events e ih =>
    obtain ⟨hevents, hlast⟩ := (bracketed_concat events e).mp h
    cases e with
    | opened =>
      rcases ih hevents with ⟨_, hc⟩ | ⟨hl, _⟩
      · refine .inr ⟨by simp, ?_⟩
        simp [List.count_append, hc]
      · exact absurd hl hlast
    | closed =>
      rcases ih hevents with ⟨hl, _⟩ | ⟨_, hc⟩
      · exact absurd hl hlast
      · refine .inl ⟨by simp, ?_⟩
        simp [List.count_append, hc]

theorem Bracketed.opens {events : List EdgeEvent} (h : Bracketed events)
    (hc : events.count .opened = events.count .closed) : Bracketed (events ++ [.opened]) := by
  refine (bracketed_concat events _).mpr ⟨h, ?_⟩
  rcases h.count with ⟨hl, _⟩ | ⟨_, hn⟩
  · rw [hl]
    decide
  · omega

theorem Bracketed.closes {events : List EdgeEvent} (h : Bracketed events)
    (hc : events.count .opened = events.count .closed + 1) : Bracketed (events ++ [.closed]) := by
  refine (bracketed_concat events _).mpr ⟨h, ?_⟩
  rcases h.count with ⟨_, hn⟩ | ⟨hl, _⟩
  · omega
  · rw [hl]
    decide

theorem eq_nil_of_count {events : List EdgeEvent} (ho : events.count .opened = 0)
    (hc : events.count .closed = 0) : events = [] := by
  cases events with
  | nil => rfl
  | cons e rest => cases e <;> simp at ho hc

/-! ## What is observed -/

def edgeEvent (id : String) : Effect F → Option EdgeEvent
  | .onOpen _ _ thread _ => if thread = id then some .opened else none
  | .onClose thread => if thread = id then some .closed else none
  | _ => none

/-- The observer's events on a thread id. -/
def observed (id : String) (log : List (Entry F)) : List EdgeEvent :=
  log.filterMap fun e => edgeEvent id e.effect

/-- The `Send`s and `Spawn`s that were given the thread id. -/
def callsOn (id : String) (calls : List (CallEdge F)) : ℕ := calls.countP fun c => c.thread = id

def opens (id : String) (s : State F) : ℕ := (observed id s.log).count .opened

def closes (id : String) (s : State F) : ℕ := (observed id s.log).count .closed

/-- On the thread id of each call the observer sees openings and closings in turn. -/
def WellBracketed (s : State F) : Prop := ∀ c ∈ s.calls, Bracketed (observed c.thread s.log)

/-- A `Send` or `Spawn` is given the thread id of earlier calls only when each of them was closed,
    and nothing else was on it; a handler answers on the thread id of a call only when every call on
    it was opened and one was not closed. -/
def Orderly (s : State F) : Event F → Prop
  | .extend k fresh => ∀ job kind toAddr payload, s.running k = some job →
      s.progress k = .calling kind toAddr payload →
        closes (s.threads.extendChain job.thread toAddr.organismName fresh).1 s =
          callsOn (s.threads.extendChain job.thread toAddr.organismName fresh).1 s.calls
  | .handled k result => ∀ job, s.running k = some job →
      (result = some (.ok .none) ∨ ∃ payload, result = some (.ok (.reply payload))) →
        callsOn job.thread s.calls ≠ 0 →
          opens job.thread s = callsOn job.thread s.calls ∧
            closes job.thread s < callsOn job.thread s.calls
  | _ => True

/-! ## The ledger of one thread id -/

/-- What a worker has still to tell the observer about the thread id. -/
def pending (id : String) : Progress F → List EdgeEvent
  | .emitting _ effects => effects.filterMap (edgeEvent id)
  | _ => []

/-- Either no worker owes an event, and at most the last call is open; or one worker owes the opening
    of the last call, and all others are closed. -/
inductive Ledger (id : String) (s : State F) : Prop where
  | paid (h : ∀ k, pending id (s.progress k) = []) (ho : opens id s = callsOn id s.calls)
      (hc : callsOn id s.calls ≠ 0 →
        closes id s ≤ callsOn id s.calls ∧ callsOn id s.calls ≤ closes id s + 1)
  | owed (k : String) (hk : pending id (s.progress k) = [.opened])
      (h : ∀ j, j ≠ k → pending id (s.progress j) = [])
      (ho : opens id s + 1 = callsOn id s.calls) (hc : closes id s = opens id s)

structure EdgeInv (id : String) (s : State F) : Prop where
  bracketed : callsOn id s.calls ≠ 0 → Bracketed (observed id s.log)
  ledger : Ledger id s

variable {P : Platform F} {registry : ListenerRegistry F} {federation : Option PeerDirectory}

theorem observed_append (id : String) (log later : List (Entry F)) :
    observed id (log ++ later) = observed id log ++ observed id later :=
  List.filterMap_append

theorem observed_map (id : String) (past : List (CallEdge F)) (call : Option (CallEdge F))
    (effects : List (Effect F)) :
    observed id (effects.map (Entry.mk past call)) = effects.filterMap (edgeEvent id) := by
  unfold observed
  rw [List.filterMap_map]
  rfl

theorem pending_answer (id : String) (msg : RoutedMsg F) (payload : Payload F)
    (prune : Option PruneResult) :
    pending id (.emitting none (answerEffects P msg payload prune)) = [] := by
  cases prune with
  | none => rfl
  | some prune => rfl

theorem pending_call (id : String) (call : Option (CallEdge F)) (msg : RoutedMsg F)
    (kind : CallKind) (toAddr : Address) (payload : Payload F) (thread : String) :
    pending id (.emitting call (callEffects P msg kind toAddr payload thread)) =
      if thread = id then [.opened] else [] := by
  by_cases ht : thread = id <;> cases kind <;>
    simp [pending, callEffects, edgeEvent, emitCall, emitAnswer, List.filterMap_cons, ht]

theorem pending_afterHandler (id : String) (msg : RoutedMsg F)
    (r : Option (Except PipelineError (HandlerResponse F))) :
    pending id (afterHandler P registry msg r) = [] := by
  unfold afterHandler
  split
  · rfl
  · rfl
  · split <;> rfl
  · split <;> rfl
  · rfl
  · rfl

/-- Nothing is observed, nothing is owed and no call is made. -/
theorem EdgeInv.keep {id : String} {s t : State F} (h : EdgeInv id s)
    (hcalls : callsOn id t.calls = callsOn id s.calls)
    (hlog : observed id t.log = observed id s.log)
    (hpend : ∀ k, pending id (t.progress k) = pending id (s.progress k)) : EdgeInv id t := by
  refine ⟨?_, ?_⟩
  · rw [hcalls, hlog]
    exact h.bracketed
  · have ho : opens id t = opens id s := by
      unfold opens
      rw [hlog]
    have hc : closes id t = closes id s := by
      unfold closes
      rw [hlog]
    cases h.ledger with
    | paid hnone hopens hcloses =>
      refine .paid (fun k => (hpend k).trans (hnone k)) ?_ ?_
      · rw [ho, hcalls]
        exact hopens
      · rw [hc, hcalls]
        exact hcloses
    | owed k hk hnone hopens hcloses =>
      refine .owed k ((hpend k).trans hk) (fun j hj => (hpend j).trans (hnone j hj)) ?_ ?_
      · rw [ho, hcalls]
        exact hopens
      · rw [hc, ho]
        exact hcloses

/-- One worker moves on, owing as much as before. -/
theorem pending_update {id k : String} {progress : String → Progress F} {p : Progress F}
    (h : pending id p = pending id (progress k)) (j : String) :
    pending id (Function.update progress k p j) = pending id (progress j) := by
  by_cases hj : j = k
  · rw [hj, Function.update_self]
    exact h
  · rw [Function.update_of_ne hj]

/-! ## Steps -/

/-- `on_close` while one call is open and unanswered, or on the thread id of no call. -/
theorem EdgeInv.close {id : String} {s t : State F} (h : EdgeInv id s)
    (hcalls : callsOn id t.calls = callsOn id s.calls)
    (hlog : observed id t.log = observed id s.log ++ [.closed])
    (hpend : ∀ k, pending id (t.progress k) = pending id (s.progress k))
    (hopen : callsOn id s.calls ≠ 0 →
      opens id s = callsOn id s.calls ∧ closes id s < callsOn id s.calls) : EdgeInv id t := by
  have ho : opens id t = opens id s := by
    unfold opens
    rw [hlog, List.count_append]
    simp
  have hc : closes id t = closes id s + 1 := by
    unfold closes
    rw [hlog, List.count_append]
    simp
  cases h.ledger with
  | paid hnone hopens hcloses =>
    refine ⟨?_, .paid (fun k => (hpend k).trans (hnone k)) ?_ ?_⟩
    · rw [hcalls, hlog]
      intro hn
      have hcount : opens id s = closes id s + 1 := by
        have := hopen hn
        have := hcloses hn
        omega
      exact (h.bracketed hn).closes hcount
    · rw [ho, hcalls]
      exact hopens
    · rw [hc, hcalls]
      intro hn
      have := hopen hn
      have := hcloses hn
      omega
  | owed k hk hnone hopens hcloses =>
    have := hopen (by omega)
    omega

/-- `on_open` of the last call. -/
theorem EdgeInv.open {id k : String} {s t : State F} (h : EdgeInv id s)
    (hcalls : callsOn id t.calls = callsOn id s.calls)
    (hlog : observed id t.log = observed id s.log ++ [.opened])
    (hself : pending id (s.progress k) = .opened :: pending id (t.progress k))
    (hpend : ∀ j, j ≠ k → pending id (t.progress j) = pending id (s.progress j)) :
    EdgeInv id t := by
  have ho : opens id t = opens id s + 1 := by
    unfold opens
    rw [hlog, List.count_append]
    simp
  have hc : closes id t = closes id s := by
    unfold closes
    rw [hlog, List.count_append]
    simp
  cases h.ledger with
  | paid hnone hopens hcloses =>
    rw [hnone k] at hself
    cases hself
  | owed i hi hnone hopens hcloses =>
    have hik : k = i := by
      by_contra hne
      rw [hnone k hne] at hself
      cases hself
    subst hik
    rw [hi] at hself
    have hrest : pending id (t.progress k) = [] := ((List.cons.inj hself).2).symm
    refine ⟨?_, .paid ?_ ?_ ?_⟩
    · rw [hlog]
      intro _
      exact (h.bracketed (by omega)).opens hcloses.symm
    · intro j
      by_cases hj : j = k
      · rw [hj]
        exact hrest
      · exact (hpend j hj).trans (hnone j hj)
    · rw [ho, hcalls]
      exact hopens
    · rw [hc, hcalls]
      omega

/-- A call on the thread id, all earlier calls on it being closed. -/
theorem EdgeInv.extend {id k : String} {s t : State F} (h : EdgeInv id s)
    (hlog : observed id t.log = observed id s.log)
    (hcalls : callsOn id t.calls = callsOn id s.calls + 1)
    (hself : pending id (t.progress k) = [.opened])
    (hpend : ∀ j, j ≠ k → pending id (t.progress j) = pending id (s.progress j))
    (hclosed : closes id s = callsOn id s.calls) : EdgeInv id t := by
  have ho : opens id t = opens id s := by
    unfold opens
    rw [hlog]
  have hc : closes id t = closes id s := by
    unfold closes
    rw [hlog]
  cases h.ledger with
  | paid hnone hopens hcloses =>
    refine ⟨?_, .owed k hself (fun j hj => (hpend j hj).trans (hnone j)) ?_ ?_⟩
    · intro _
      rw [hlog]
      by_cases hn : callsOn id s.calls = 0
      · rw [eq_nil_of_count (hopens.trans hn) (hclosed.trans hn)]
        exact List.isChain_singleton _
      · exact h.bracketed hn
    · omega
    · omega
  | owed i hi hnone hopens hcloses => omega

theorem EdgeInv.handled {id k : String} {s : State F} {job : Job F}
    {result : Option (Except PipelineError (HandlerResponse F))} (h : EdgeInv id s)
    (hr : s.running k = some job) (hp : s.progress k = .handling)
    (hc : Orderly s (.handled k result)) : EdgeInv id (s.handled P registry k job result) := by
  have hpend : ∀ j, pending id ((s.handled P registry k job result).progress j) =
      pending id (s.progress j) := by
    refine pending_update ?_
    rw [hp, pending_afterHandler]
    rfl
  have hlog : observed id (s.handled P registry k job result).log = observed id s.log ++
      (closing job.msg (afterHandler P registry job.msg result)).filterMap (edgeEvent id) := by
    change observed id (s.log ++ _) = _
    rw [observed_append, observed_map]
  have hanswer : ∀ payload, afterHandler P registry job.msg result = .answering payload →
      (result = some (.ok .none) ∨ ∃ payload, result = some (.ok (.reply payload))) →
        EdgeInv id (s.handled P registry k job result) := by
    intro payload ha hres
    rw [ha] at hlog
    by_cases ht : job.thread = id
    · have hone : [Effect.onClose job.msg.envelope.header.thread].filterMap
          (edgeEvent (F := F) id) = [.closed] := by
        rw [← ht]
        simp [edgeEvent, Job.thread, Dispatch.key]
      refine h.close rfl (hlog.trans (congrArg _ hone)) hpend ?_
      rw [← ht]
      exact hc job hr hres
    · have hnone : [Effect.onClose job.msg.envelope.header.thread].filterMap
          (edgeEvent (F := F) id) = [] := by
        have hne : ¬ job.msg.envelope.header.thread = id := ht
        simp [edgeEvent, hne]
      exact h.keep rfl (hlog.trans ((congrArg _ hnone).trans (List.append_nil _))) hpend
  have hquiet : closing job.msg (afterHandler P registry job.msg result) = [] →
      EdgeInv id (s.handled P registry k job result) := by
    intro hnone
    rw [hnone] at hlog
    exact h.keep rfl (hlog.trans (List.append_nil _)) hpend
  cases result with
  | none => exact hquiet rfl
  | some answer =>
    cases answer with
    | error e => exact hquiet rfl
    | ok response =>
      cases response with
      | none => exact hanswer toolAck rfl (.inl rfl)
      | reply payload => exact hanswer payload rfl (.inr ⟨payload, rfl⟩)
      | send toAddr payload =>
        refine hquiet ?_
        unfold afterHandler
        dsimp only
        split <;> rfl
      | spawn toAddr payload =>
        refine hquiet ?_
        unfold afterHandler
        dsimp only
        split <;> rfl

theorem EdgeInv.emitted {id k : String} {s : State F} {job : Job F} {call : Option (CallEdge F)}
    {effect : Effect F} {rest : List (Effect F)} (h : EdgeInv id s)
    (hp : s.progress k = .emitting call (effect :: rest)) :
    EdgeInv id (s.emitted k job call effect rest) := by
  have hlog : observed id (s.emitted k job call effect rest).log =
      observed id s.log ++ (edgeEvent id effect).toList := by
    change observed id (s.log ++ [_]) = _
    rw [observed_append]
    cases he : edgeEvent id effect <;> simp [observed, he]
  have hself : pending id (s.progress k) = (edgeEvent id effect).toList ++
      pending id (.emitting call rest) := by
    rw [hp]
    cases he : edgeEvent id effect <;> simp [pending, he]
  have hafter : (s.emitted k job call effect rest).progress k = .emitting call rest :=
    Function.update_self _ _ _
  cases he : edgeEvent id effect with
  | none =>
    rw [he] at hlog hself
    exact h.keep rfl (hlog.trans (List.append_nil _)) (pending_update hself.symm)
  | some e =>
    rw [he] at hlog hself
    cases e with
    | opened =>
      refine h.open (k := k) rfl hlog ?_ fun j hj => ?_
      · rw [hafter]
        exact hself
      · exact congrArg _ (Function.update_of_ne hj _ _)
    | closed =>
      -- no worker owes a closing
      cases h.ledger with
      | paid hnone _ _ =>
        rw [hnone k] at hself
        cases hself
      | owed i hi hnone _ _ =>
        by_cases hki : k = i
        · rw [hki, hi] at hself
          cases hself
        · rw [hnone k hki] at hself
          cases hself

theorem EdgeInv.extended {id k fresh : String} {s : State F} {job : Job F} {kind : CallKind}
    {toAddr : Address} {payload : Payload F} (h : EdgeInv id s) (hr : s.running k = some job)
    (hp : s.progress k = .calling kind toAddr payload) (hc : Orderly s (.extend k fresh)) :
    EdgeInv id (s.extended P k fresh job kind toAddr payload) := by
  have hclosed := hc job kind toAddr payload hr hp
  rcases hx : s.threads.extendChain job.thread toAddr.organismName fresh with ⟨thread, threads⟩
  rw [hx] at hclosed
  rw [State.extended_eq hx]
  by_cases ht : thread = id
  · rw [ht] at hclosed
    refine h.extend (k := k) rfl ?_ ?_ (fun j hj => ?_) hclosed
    · unfold callsOn
      rw [List.countP_append]
      simp [ht]
    · change pending id (Function.update s.progress k _ k) = _
      rw [Function.update_self, pending_call, if_pos ht]
    · exact congrArg _ (Function.update_of_ne hj _ _)
  · refine h.keep ?_ rfl (pending_update ?_)
    · unfold callsOn
      rw [List.countP_append]
      simp [ht]
    · rw [hp, pending_call, if_neg ht]
      rfl

theorem EdgeInv.step {id : String} {s t : State F} {e : Event F} (h : EdgeInv id s)
    (hc : Orderly s e) (hs : Step P registry federation s e t) : EdgeInv id t := by
  cases hs with
  | inject raw => exact h.keep rfl rfl fun _ => rfl
  | route item rest hq =>
    refine h.keep ?_ ?_ fun k => ?_
    · rw [s.take_calls]
    · rw [s.take_log]
    · rw [s.take_progress]
  | accept job rest hq => exact h.keep rfl rfl fun _ => rfl
  | start k job fin rest hl hp =>
    refine h.keep rfl rfl (pending_update ?_)
    rw [hp]
    rfl
  | handled k job result hr hp hh => exact h.handled hr hp hc
  | prune k fresh job payload hr hp =>
    refine h.keep rfl rfl (pending_update ?_)
    rw [hp, pending_answer]
    rfl
  | extend k fresh job kind toAddr payload hr hp => exact h.extended hr hp hc
  | emit k job call effect rest hr hp => exact h.emitted hp
  | finish k job call fin rest hl hp =>
    refine h.keep rfl rfl (pending_update ?_)
    rw [hp]
    rfl

theorem edgeInv_of_reachable {s : State F}
    (hs : Reachable (guarded P registry federation Orderly) s) (id : String) : EdgeInv id s := by
  refine hs.invariant ?_ ?_
  · intro s h
    obtain ⟨threads, rfl⟩ := h
    exact ⟨fun hn => absurd rfl hn, .paid (fun _ => rfl) rfl fun hn => absurd rfl hn⟩
  · intro s t h hst
    obtain ⟨e, hc, he⟩ := hst
    exact h.step hc he

/-- In every run that gives out a call's thread id again only when the calls on it are closed, and in
    which handlers answer on it only while a call on it is open, its events are well bracketed. -/
theorem well_bracketed {s : State F}
    (hs : Reachable (guarded P registry federation Orderly) s) : WellBracketed s := by
  intro c hc
  refine (edgeInv_of_reachable hs c.thread).bracketed ?_
  unfold callsOn
  rw [← Nat.pos_iff_ne_zero, List.countP_pos_iff]
  exact ⟨c, hc, decide_eq_true rfl⟩

/-! ## A close before its open -/

/-- The edge of alice's `Spawn` is open when bob answers, and only his answer closes it. -/
theorem well_bracketed_alice :
    Reachable (agencyRuns Orderly) ackedAndDone ∧
      observed spawnEdge.thread ackedAndDone.log = [.opened, .closed] ∧
      WellBracketed ackedAndDone := by
  have hs : Reachable (agencyRuns Orderly) ackedAndDone := by
    apply ackedAndDone_reachable
    · intro s e hh hx
      cases e with
      | handled k result => exact absurd rfl (hh k result)
      | extend k fresh => exact absurd rfl (hx k fresh)
      | inject raw => trivial
      | route => trivial
      | accept => trivial
      | start k => trivial
      | prune k fresh => trivial
      | emit k => trivial
      | finish k => trivial
    · intro job _ hres _
      rcases hres with hres | ⟨payload, hres⟩ <;> cases hres
    · intro _ _ _ _ _ _
      rfl
    · intro job hr _ _
      have hjob : workJob = job := Option.some_inj.mp hr
      rw [← hjob]
      decide
  exact ⟨hs, by decide, well_bracketed hs⟩

/-- Bob's answer closes the edge of his work before alice's worker opens it. -/
theorem not_well_bracketed :
    Reachable (agencyRuns fun _ _ => True) ackLast ∧ ackLast.calls = [spawnEdge] ∧
    observed spawnEdge.thread ackLast.log = [.closed, .opened] ∧ ¬ WellBracketed ackLast := by
  have hseen : observed spawnEdge.thread ackLast.log = [.closed, .opened] := by decide
  refine ⟨ackLast_reachable, rfl, hseen, ?_⟩
  intro h
  have hb := h spawnEdge List.mem_cons_self
  rw [hseen] at hb
  exact absurd hb (by unfold Bracketed; decide)

end RustPipeline.CallBrackets
