import RustPipeline.Foundation.Waiting
import RustPipeline.StageInvariants
import RustPipeline.ThreadProvenance

set_option autoImplicit false

/-!
# No deadlock in the self-feeding loop

Who waits for whom at a full channel or a lock. The waits run from the workers through the stages to
the dispatcher and end at a task that holds a lock, which waits for nobody.
-/
namespace RustPipeline.NoDeadlock
open Text Wire Codec Handling Routing Registry Thread Federation Pipeline
open TransitionSystem Dispatch Interleaving BoundedStages StageInvariants Relation
open CallReturn ThreadProvenance PlainPlatform

variable {F : Type} {P : Platform F} {registry : ListenerRegistry F}
  {federation : Option PeerDirectory} {b : Buffers}

/-! ## Who waits for whom -/

/-- The worker is at a send to the ingress. -/
def Reinjects (s : BoundedStages.State F) (id : ℕ) : Prop :=
  ∃ msg call effect rest raw,
    Handles s id msg (.emitting call (effect :: rest)) ∧ sent effect = some raw

/-- A sender waits at a full channel for the receiver, and whoever wants a lock for its holder. -/
inductive Waits (b : Buffers) (s : BoundedStages.State F) : Task → Task → Prop where
  | ingress (id : ℕ) (h : Reinjects s id) (ho : s.parse ≠ .stopped)
      (hfull : b.ingress ≤ s.ingress.length) : Waits b s (.worker id) .parse
  | parsed (env : Envelope F) (h : s.parse = .sending env) (ho : s.validate ≠ .stopped)
      (hfull : b.parsed ≤ s.parsed.length) : Waits b s .parse .validate
  | validated (msg : ValidatedMsg F) (h : s.validate = .sending msg) (ho : s.route ≠ .stopped)
      (hfull : b.validated ≤ s.validated.length) : Waits b s .validate .route
  | routed (msg : RoutedMsg F) (h : s.route = .sending msg) (ho : s.dispatching = true)
      (hfull : b.routed ≤ s.routed.length) : Waits b s .route .dispatch
  | threads (u v : Task) (hw : WantsThreads s u) (hl : s.threadsLock = some v) (hne : u ≠ v) :
      Waits b s u v
  | workers (u v : Task) (hw : WantsWorkers s u) (hl : s.workersLock = some v) (hne : u ≠ v) :
      Waits b s u v

def stage : Task → ℕ
  | .dispatch => 1
  | .route => 2
  | .validate => 3
  | .parse => 4
  | .worker _ => 5

/-- How many waits can follow one another from a task on; none from the holder of a lock. -/
def depth (s : BoundedStages.State F) (u : Task) : ℕ :=
  if s.threadsLock = some u ∨ s.workersLock = some u then 0 else stage u

theorem stage_pos (u : Task) : 0 < stage u := by
  unfold stage
  split <;> omega

theorem depth_le (s : BoundedStages.State F) (u : Task) : depth s u ≤ stage u := by
  unfold depth
  split_ifs
  · exact Nat.zero_le _
  · exact le_rfl

theorem not_wants_both {s : BoundedStages.State F} {u : Task} (h : WantsThreads s u) :
    ¬ WantsWorkers s u := by
  cases u with
  | parse => exact fun hw => hw
  | validate => exact fun hw => hw
  | route => exact fun hw => hw
  | dispatch => cases h
  | worker id =>
    obtain ⟨⟨msg, hm⟩, _⟩ := h
    exact not_wantsWorkers_of_phase hm (by simp)

theorem depth_of_free {s : BoundedStages.State F} (h : Locks s) {u : Task}
    (ht : ¬ WantsThreads s u) (hw : ¬ WantsWorkers s u) : depth s u = stage u := by
  unfold depth
  rw [if_neg]
  rintro (hl | hl)
  · exact ht (h.threads u hl)
  · exact hw (h.workers u hl)

/-- A task that waits for a lock holds neither. -/
theorem depth_of_wants {s : BoundedStages.State F} (h : Locks s) {u v : Task} (hne : u ≠ v)
    (hw : WantsThreads s u ∧ s.threadsLock = some v ∨ WantsWorkers s u ∧ s.workersLock = some v) :
    depth s u = stage u ∧ depth s v = 0 := by
  rcases hw with ⟨hw, hl⟩ | ⟨hw, hl⟩
  · refine ⟨?_, if_pos (.inl hl)⟩
    unfold depth
    rw [if_neg]
    rintro (hu | hu)
    · exact hne (Option.some_inj.mp (hu.symm.trans hl))
    · exact not_wants_both hw (h.workers u hu)
  · refine ⟨?_, if_pos (.inr hl)⟩
    unfold depth
    rw [if_neg]
    rintro (hu | hu)
    · exact not_wants_both (h.threads u hu) hw
    · exact hne (Option.some_inj.mp (hu.symm.trans hl))

theorem depth_lt {s : BoundedStages.State F} (h : Locks s) (u v : Task) (hw : Waits b s u v) :
    depth s v < depth s u := by
  cases hw with
  | ingress id hr ho hfull =>
    obtain ⟨msg, call, effect, rest, raw, ⟨hphase, hprogress⟩, _⟩ := hr
    have hmut : ¬ Mutates (s.progress id) := by
      rw [hprogress]
      exact fun hm => hm
    rw [depth_of_free h (u := .worker id) (not_wantsThreads_of_progress hmut)
      (not_wantsWorkers_of_phase hphase (by simp))]
    have hle := depth_le s .parse
    simp only [stage] at hle ⊢
    omega
  | parsed env hp ho hfull =>
    rw [depth_of_free h (u := .parse) (fun hw => hw) (fun hw => hw)]
    have hle := depth_le s .validate
    simp only [stage] at hle ⊢
    omega
  | validated msg hp ho hfull =>
    rw [depth_of_free h (u := .validate) (fun hw => hw) (fun hw => hw)]
    have hle := depth_le s .route
    simp only [stage] at hle ⊢
    omega
  | routed msg hp ho hfull =>
    have hn : ¬ WantsThreads s .route := by
      rintro ⟨m, name, hm⟩
      rw [hp] at hm
      cases hm
    rw [depth_of_free h (u := .route) hn (fun hw => hw)]
    have hle := depth_le s .dispatch
    simp only [stage] at hle ⊢
    omega
  | threads _ _ hw hl hne =>
    obtain ⟨hu, hv⟩ := depth_of_wants h hne (.inl ⟨hw, hl⟩)
    rw [hu, hv]
    exact stage_pos u
  | workers _ _ hw hl hne =>
    obtain ⟨hu, hv⟩ := depth_of_wants h hne (.inr ⟨hw, hl⟩)
    rw [hu, hv]
    exact stage_pos u

/-! ## Whoever has something to do -/

def Active (s : BoundedStages.State F) : Task → Prop
  | .parse => s.parse ≠ .stopped ∧ (s.parse = .receiving → s.ingress ≠ [])
  | .validate => s.validate ≠ .stopped ∧ (s.validate = .receiving → s.parsed ≠ [])
  | .route => s.route ≠ .stopped ∧ (s.route = .receiving → s.validated ≠ [])
  | .dispatch => s.pool.pending.isSome ∨ s.dispatching = true ∧ s.routed ≠ []
  | .worker id => ∃ w, s.pool.worker id = some w ∧ w.phase ≠ .gone ∧
      (w.phase = .waiting → w.queue ≠ [])

/-- A message in a channel, in a queue or in the hands of a task, which may be about to put others
    on the ingress. -/
inductive InFlight (s : BoundedStages.State F) : Prop where
  | ingress (h : s.ingress ≠ [])
  | parsed (h : s.parsed ≠ [])
  | validated (h : s.validated ≠ [])
  | routed (h : s.routed ≠ [])
  | queued (id : ℕ) (w : Worker F) (hw : s.pool.worker id = some w) (h : w.queue ≠ [])
  | parsing (env : Envelope F) (h : s.parse = .sending env)
  | validating (msg : ValidatedMsg F) (h : s.validate = .sending msg)
  | routing (h : s.route ≠ .receiving) (ho : s.route ≠ .stopped)
  | dispatching (h : s.pool.pending.isSome)
  | processing (id : ℕ) (msg : RoutedMsg F) (h : s.phase id = some (.processing msg))

theorem active_of_inFlight {s : BoundedStages.State F} (hstops : Stops s) (hinv : Inv s.pool)
    (h : InFlight s) : ∃ u, Active s u := by
  cases h with
  | ingress h => exact ⟨.parse, fun hp => h (hstops.parse hp), fun _ => h⟩
  | parsed h => exact ⟨.validate, fun hp => h (hstops.validate hp).2, fun _ => h⟩
  | validated h => exact ⟨.route, fun hp => h (hstops.route hp).2, fun _ => h⟩
  | routed h =>
    refine ⟨.dispatch, .inr ⟨?_, h⟩⟩
    cases hd : s.dispatching with
    | true => rfl
    | false => exact absurd (hstops.dispatch hd).2 h
  | queued id w hw h =>
    refine ⟨.worker id, w, hw, ?_, fun _ => h⟩
    intro hgone
    refine h (hinv.idle id w hw ?_)
    rw [hgone]
    exact fun hl => hl
  | parsing env h => exact ⟨.parse, by simp [h], by simp [h]⟩
  | validating msg h => exact ⟨.validate, by simp [h], by simp [h]⟩
  | routing h ho => exact ⟨.route, ho, fun hr => absurd hr h⟩
  | dispatching h => exact ⟨.dispatch, .inl h⟩
  | processing id msg h =>
    obtain ⟨w, hw, hp⟩ := worker_of_phase h
    exact ⟨.worker id, w, hw, by simp [hp], by simp [hp]⟩

/-! ## Somebody can move -/

section
variable (P registry federation b)

def Ready (s : BoundedStages.State F) (u : Task) : Prop :=
  ∃ t, BoundedStages.Step P registry federation b s (.task u) t

/-- The task has its next step, or waits for a task with something to do. -/
def Goes (s : BoundedStages.State F) (u : Task) : Prop :=
  Ready P registry federation b s u ∨ ∃ v, Waits b s u v ∧ Active s v

end

theorem active_of_wants {s : BoundedStages.State F} {u : Task}
    (h : WantsThreads s u ∨ WantsWorkers s u) : Active s u := by
  cases u with
  | parse => exact h.elim (fun hw => hw.elim) fun hw => hw.elim
  | validate => exact h.elim (fun hw => hw.elim) fun hw => hw.elim
  | route =>
    rcases h with ⟨msg, name, hr⟩ | hw
    · exact ⟨by simp [hr], by simp [hr]⟩
    · cases hw
  | dispatch =>
    rcases h with hw | hw
    · cases hw
    · exact .inl hw
  | worker id =>
    rcases h with ⟨⟨msg, hm⟩, _⟩ | hw
    · obtain ⟨w, hw, hp⟩ := worker_of_phase hm
      exact ⟨w, hw, by simp [hp], by simp [hp]⟩
    · obtain ⟨w, hw, hp⟩ := worker_of_phase hw
      exact ⟨w, hw, by simp [hp], by simp [hp]⟩

/-- A lock is free, or the task has it, or waits for a holder that is in its critical section. -/
theorem goes_of_wantsThreads {s : BoundedStages.State F} (h : Locks s) {u : Task}
    (hw : WantsThreads s u) (hmine : s.threadsLock = some u → Ready P registry federation b s u) :
    Goes P registry federation b s u := by
  cases hl : s.threadsLock with
  | none => exact .inl ⟨_, .lockThreads s u hw hl⟩
  | some v =>
    by_cases hv : u = v
    · exact .inl (hmine (hv ▸ hl))
    · exact .inr ⟨v, .threads u v hw hl hv, active_of_wants (.inl (h.threads v hl))⟩

theorem goes_of_wantsWorkers {s : BoundedStages.State F} (h : Locks s) {u : Task}
    (hw : WantsWorkers s u) (hmine : s.workersLock = some u → Ready P registry federation b s u) :
    Goes P registry federation b s u := by
  cases hl : s.workersLock with
  | none => exact .inl ⟨_, .lockWorkers s u hw hl⟩
  | some v =>
    by_cases hv : u = v
    · exact .inl (hmine (hv ▸ hl))
    · exact .inr ⟨v, .workers u v hw hl hv, active_of_wants (.inr (h.workers v hl))⟩

theorem ne_nil_of_full {α : Type} {c : ℕ+} {queue : List α} (h : c ≤ queue.length) :
    queue ≠ [] := by
  rintro rfl
  have hpos := c.pos
  simp only [List.length_nil] at h
  omega

theorem parse_goes {s : BoundedStages.State F} (ha : Active s .parse) :
    Goes P registry federation b s .parse := by
  cases hp : s.parse with
  | stopped => exact absurd hp ha.1
  | receiving =>
    cases hq : s.ingress with
    | nil => exact absurd hq (ha.2 hp)
    | cons raw rest => exact .inl ⟨_, .relay (.parseRecv s raw rest hp hq)⟩
  | sending env =>
    by_cases hc : s.validate = .stopped
    · exact .inl ⟨_, .relay (.parseBreak s env hp hc)⟩
    · by_cases hroom : s.parsed.length < b.parsed
      · exact .inl ⟨_, .relay (.parseSend s env hp hc hroom)⟩
      · have hfull := Nat.le_of_not_lt hroom
        exact .inr ⟨.validate, .parsed env hp hc hfull, hc, fun _ => ne_nil_of_full hfull⟩

theorem validate_goes {s : BoundedStages.State F} (ha : Active s .validate) :
    Goes P registry federation b s .validate := by
  cases hp : s.validate with
  | stopped => exact absurd hp ha.1
  | receiving =>
    cases hq : s.parsed with
    | nil => exact absurd hq (ha.2 hp)
    | cons env rest => exact .inl ⟨_, .relay (.validateRecv s env rest hp hq)⟩
  | sending msg =>
    by_cases hc : s.route = .stopped
    · exact .inl ⟨_, .relay (.validateBreak s msg hp hc)⟩
    · by_cases hroom : s.validated.length < b.validated
      · exact .inl ⟨_, .relay (.validateSend s msg hp hc hroom)⟩
      · have hfull := Nat.le_of_not_lt hroom
        exact .inr ⟨.route, .validated msg hp hc hfull, hc, fun _ => ne_nil_of_full hfull⟩

theorem route_goes {s : BoundedStages.State F} (h : Locks s)
    (hegress : s.egressClosed = true ∨ s.egress.length < b.egress) (ha : Active s .route) :
    Goes P registry federation b s .route := by
  cases hp : s.route with
  | stopped => exact absurd hp ha.1
  | receiving =>
    cases hq : s.validated with
    | nil => exact absurd hq (ha.2 hp)
    | cons msg rest => exact .inl ⟨_, .route (.recv s msg rest hp hq)⟩
  | federating env =>
    cases ho : s.egressClosed with
    | true => exact .inl ⟨_, .route (.egressClosed s env hp ho)⟩
    | false =>
      have hroom : s.egress.length < b.egress := by simpa [ho] using hegress
      exact .inl ⟨_, .route (.egress s env hp ho hroom)⟩
  | registering msg name =>
    exact goes_of_wantsThreads h ⟨msg, name, hp⟩ fun hl =>
      ⟨_, .route (.register s msg name hp hl)⟩
  | sending msg =>
    cases hd : s.dispatching with
    | false => exact .inl ⟨_, .route (.fail s msg hp hd)⟩
    | true =>
      by_cases hroom : s.routed.length < b.routed
      · exact .inl ⟨_, .route (.send s msg hp hd hroom)⟩
      · have hfull := Nat.le_of_not_lt hroom
        exact .inr ⟨.dispatch, .routed msg hp hd hfull, .inr ⟨hd, ne_nil_of_full hfull⟩⟩

/-- The dispatcher finds the worker of the message, or room for a new one. -/
theorem dispatch_goes {s : BoundedStages.State F} (h : Locks s) (hinv : Inv s.pool)
    (hfree : {id | s.pool.worker id ≠ none}.Finite) (ha : Active s .dispatch) :
    Goes P registry federation b s .dispatch := by
  cases hp : s.pool.pending with
  | none =>
    have hrouted : s.dispatching = true ∧ s.routed ≠ [] := by
      rcases ha with hsome | hr
      · rw [hp] at hsome
        cases hsome
      · exact hr
    cases hq : s.routed with
    | nil => exact absurd hq hrouted.2
    | cons msg rest => exact .inl ⟨_, .dispatch (.recv s msg rest hrouted.1 hp hq)⟩
  | some msg =>
    have hwant : WantsWorkers s .dispatch := by
      change s.pool.pending.isSome
      rw [hp]
      rfl
    refine goes_of_wantsWorkers h hwant ?_
    intro hl
    cases hm : s.pool.map (key msg) with
    | none =>
      obtain ⟨id, hid⟩ := hfree.exists_notMem
      have hf : s.pool.worker id = none := by
        by_contra hne
        exact hid hne
      exact ⟨_, .dispatch (.spawn s msg id hl hp hm hf)⟩
    | some id =>
      obtain ⟨w, hw, _, hlive⟩ := hinv.registered _ id hm
      have hgone : w.phase ≠ .gone := by
        intro hg
        rw [hg] at hlive
        exact hlive
      exact ⟨_, .dispatch (.enqueue s msg id w hl hp hm hw hgone)⟩

theorem handling_goes {s : BoundedStages.State F} (h : Locks s) {id : ℕ} {w : Worker F}
    {msg : RoutedMsg F} (hw : s.pool.worker id = some w) (hp : w.phase = .processing msg)
    (hidle : s.progress id ≠ .idle) :
    Goes P registry federation b s (.worker id) := by
  have hphase := (phase_of_worker hw).trans (congrArg some hp)
  cases he : s.progress id with
  | idle => exact absurd he hidle
  | handling =>
    cases hh : registry.getHandler msg.targetName with
    | none =>
      have hsome : (none : Option (Except PipelineError (HandlerResponse F))).isSome =
          (registry.getHandler msg.targetName).isSome := by rw [hh]; rfl
      exact .inl ⟨_, .handling (.handled s id msg none ⟨hphase, he⟩ hsome)⟩
    | some handler =>
      have hsome : (some (.ok .none) : Option (Except PipelineError (HandlerResponse F))).isSome =
          (registry.getHandler msg.targetName).isSome := by rw [hh]; rfl
      exact .inl ⟨_, .handling (.handled s id msg _ ⟨hphase, he⟩ hsome)⟩
  | answering payload =>
    have hwant : WantsThreads s (.worker id) := ⟨⟨msg, hphase⟩, by rw [he]; trivial⟩
    exact goes_of_wantsThreads h hwant fun hl =>
      ⟨_, .handling (.prune s id "" msg payload ⟨hphase, he⟩ hl)⟩
  | calling kind toAddr payload =>
    have hwant : WantsThreads s (.worker id) := ⟨⟨msg, hphase⟩, by rw [he]; trivial⟩
    exact goes_of_wantsThreads h hwant fun hl =>
      ⟨_, .handling (.extend s id "" msg kind toAddr payload ⟨hphase, he⟩ hl)⟩
  | emitting call effects =>
    cases effects with
    | nil => exact .inl ⟨_, .loop (.processed s id w msg call hw hp he)⟩
    | cons effect rest =>
      cases hr : sent effect with
      | none => exact .inl ⟨_, .handling (.observe s id msg call effect rest ⟨hphase, he⟩ hr)⟩
      | some raw =>
        by_cases hc : s.parse = .stopped
        · exact .inl ⟨_, .handling (.reinjectClosed s id msg call effect rest raw ⟨hphase, he⟩ hr
            hc)⟩
        · by_cases hroom : s.ingress.length < b.ingress
          · exact .inl ⟨_, .handling (.reinject s id msg call effect rest raw ⟨hphase, he⟩ hr hc
              hroom)⟩
          · have hfull := Nat.le_of_not_lt hroom
            have hreinjects : Reinjects s id := ⟨msg, call, effect, rest, raw, ⟨hphase, he⟩, hr⟩
            exact .inr ⟨.parse, .ingress id hreinjects hc hfull, hc, fun _ => ne_nil_of_full hfull⟩

theorem worker_goes {s : BoundedStages.State F} (h : Locks s) (hengaged : Engaged s) {id : ℕ}
    (ha : Active s (.worker id)) : Goes P registry federation b s (.worker id) := by
  obtain ⟨w, hw, hgone, hqueue⟩ := ha
  cases hp : w.phase with
  | gone => exact absurd hp hgone
  | leaving => exact .inl ⟨_, .loop (.drop s id w hw hp)⟩
  | waiting =>
    cases hq : w.queue with
    | nil => exact absurd hq (hqueue hp)
    | cons msg rest => exact .inl ⟨_, .loop (.recv s id w msg rest hw hp hq)⟩
  | timedOut =>
    have hwant : WantsWorkers s (.worker id) := (phase_of_worker hw).trans (congrArg some hp)
    refine goes_of_wantsWorkers h hwant ?_
    intro hl
    cases hq : w.queue with
    | nil => exact ⟨_, .loop (.reap s id w hl hw hp hq)⟩
    | cons msg rest => exact ⟨_, .loop (.tryRecv s id w msg rest hl hw hp hq)⟩
  | processing msg =>
    have hphase := (phase_of_worker hw).trans (congrArg some hp)
    exact handling_goes h hw hp (hengaged id msg hphase)

/-! ## Every reachable state -/

/-- With a message anywhere and an egress that is drained or closed, a stage or a worker has its
    next step; and no task ever waits for itself through others. -/
theorem no_deadlock {s : BoundedStages.State F}
    (hs : Reachable (stages P registry federation b) s) :
    (InFlight s → s.egressClosed = true ∨ s.egress.length < b.egress →
      ∃ u t, BoundedStages.Step P registry federation b s (.task u) t) ∧
    ∀ u, ¬ TransGen (Waits b s) u u := by
  obtain ⟨hlocks, hstops, hengaged⟩ := kept_of_reachable hs
  obtain ⟨pool, hpool, rfl⟩ := refinesDispatch.reachable hs
  have hinv := inv_of_reachable hpool
  have hfree := finite_workers hpool
  constructor
  · intro hmsg hegress
    obtain ⟨u, hu⟩ := active_of_inFlight hstops hinv hmsg
    have hgoes : ∀ v, Active s v → Goes P registry federation b s v := by
      intro v hv
      cases v with
      | parse => exact parse_goes hv
      | validate => exact validate_goes hv
      | route => exact route_goes hlocks hegress hv
      | dispatch => exact dispatch_goes hlocks hinv hfree hv
      | worker id => exact worker_goes hlocks hengaged hv
    exact Waiting.exists_ready (depth_lt hlocks) hgoes hu
  · exact Waiting.not_waits_self (depth_lt hlocks)

/-! ## Channels of one message -/

def narrow : Buffers := ⟨1, 1, 1, 1, 1⟩

def narrowStages : System (BoundedStages.State UInt32) :=
  stages plain (desk (.flat "bob")).registry none narrow

/-- A third visit fills the ingress: the first is parsed, and the parse stage is at the send of the
    second. -/
def jammed : BoundedStages.State UInt32 :=
  { BoundedStages.State.boot .new with
    ingress := [encodeEnvelope plain (visitWith .empty)]
    parsed := [visitWith .empty]
    parse := .sending (visitWith .empty) }

theorem parsing_of_ok {F : Type} {P : Platform F} {raw : Bytes} {env : Envelope F}
    (h : decodeEnvelope P raw = .ok env) : parsing P raw = .sending env := by
  unfold parsing
  rw [h]

theorem parsing_visit : parsing plain (encodeEnvelope plain (visitWith .empty)) =
    .sending (visitWith .empty) := parsing_of_ok (decode_visitWith _)

/-- A visit comes in and is parsed. -/
theorem visit_parsed {s : BoundedStages.State UInt32} (h : Reachable narrowStages s)
    (hp : s.parse = .receiving) (hq : s.ingress = []) :
    Reachable narrowStages { s with parse := .sending (visitWith .empty), ingress := [] } := by
  have ho : s.parse ≠ .stopped := by simp [hp]
  have hroom : s.ingress.length < narrow.ingress := by
    rw [hq]
    decide
  have h1 := h.next ⟨_, .outside (.inject s (encodeEnvelope plain (visitWith .empty)) ho hroom)⟩
  rw [hq] at h1
  have h2 := h1.next ⟨_, .relay (.parseRecv _ (encodeEnvelope plain (visitWith .empty)) [] hp rfl)⟩
  rw [parsing_visit] at h2
  exact h2

theorem jammed_reachable : Reachable narrowStages jammed := by
  have h0 : Reachable narrowStages (BoundedStages.State.boot .new) := .start ⟨.new, rfl⟩
  have h1 := visit_parsed h0 rfl rfl
  have h2 := h1.next ⟨_, .relay (.parseSend _ (visitWith .empty) rfl nofun (by decide))⟩
  have h3 := visit_parsed h2 rfl rfl
  exact h3.next ⟨_, .outside (.inject _ (encodeEnvelope plain (visitWith .empty)) nofun (by decide))⟩

theorem no_deadlock_jammed :
    (∃ u t, BoundedStages.Step plain (desk (.flat "bob")).registry none narrow jammed (.task u) t) ∧
      ∀ u, ¬ TransGen (Waits narrow jammed) u u := by
  obtain ⟨hmoves, hcycle⟩ := no_deadlock jammed_reachable
  exact ⟨hmoves (.ingress (by simp [jammed])) (.inr (by decide)), hcycle⟩

end RustPipeline.NoDeadlock
