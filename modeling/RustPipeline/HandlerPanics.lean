import RustPipeline.Dispatch

set_option autoImplicit false

/-!
# Handlers that panic

A panic ends the worker's task and drops its receiver with everything that is queued in it. The
map keeps the stale entry until the next send fails on it. A pool whose panics leave nothing
queued behind still simulates a pool without panics.
-/
namespace RustPipeline.HandlerPanics
open Pipeline TransitionSystem Dispatch Relation

variable {F : Type}

/-! ## The protocol -/

/-- The dispatcher with its workers, and the messages whose handler call panicked. -/
structure State (F : Type) where
  pool : Dispatch.State F
  panicked : List (RoutedMsg F)

inductive Event where
  | pool
  | panic (id : ℕ)

inductive Step : State F → Event → State F → Prop where
  | pool (s : State F) (t : Dispatch.State F) (h : Dispatch.Step s.pool t) :
      Step s .pool { s with pool := t }
  -- The task unwinds: the receiver and what is queued in it are dropped by a later step.
  | panic (s : State F) (id : ℕ) (w : Worker F) (msg : RoutedMsg F)
      (hw : s.pool.worker id = some w) (hp : w.phase = .processing msg) :
      Step s (.panic id)
        ⟨s.pool.setWorker id { w with phase := .leaving }, s.panicked ++ [msg]⟩

/-- The step sends the pending message to the worker. -/
def SendsTo (s t : State F) (id : ℕ) : Prop :=
  ∃ msg, s.pool.pending = some msg ∧ s.pool.map (key msg) = some id ∧
    t.pool.accepted = s.pool.accepted ++ [msg]

/-- A handler panics when nothing is queued behind its message, and nothing is sent to a worker
that has panicked but still owns its receiver. -/
def Spares (s : State F) : Event → State F → Prop
  | .panic id, _ => ∀ w, s.pool.worker id = some w → w.queue = []
  | .pool, t => ∀ id w, SendsTo s t id → s.pool.worker id = some w → w.phase ≠ .leaving

/-- The runs all of whose steps meet a condition. -/
def runs (condition : State F → Event → State F → Prop) : System (State F) where
  init s := s = ⟨.new, []⟩
  step s t := ∃ e, Step s e t ∧ condition s e t

/-! ## Nothing lost -/

instance (p : Phase F) : Decidable p.Live :=
  match p with
  | .waiting => isTrue trivial
  | .timedOut => isTrue trivial
  | .processing _ => isTrue trivial
  | .leaving => isFalse id
  | .gone => isFalse id

/-- The messages that the live worker registered for the thread processes and has queued. -/
def held (p : Dispatch.State F) (k : String) : List (RoutedMsg F) :=
  match p.registered k with
  | none => []
  | some w => if w.phase.Live then w.phase.message.toList ++ w.queue else []

/-- Every accepted message was processed, or its own handler call panicked, or a live worker of
its thread holds it; each once. -/
def NothingLost (s : State F) : Prop :=
  ∀ k, (s.pool.accepted.filter fun m => key m = k).Perm
    (((s.pool.finished ++ s.panicked).filter fun m => key m = k) ++ held s.pool k)

/-! ## The pool without panics -/

/-- The pool with other map entries and another record of what has ended. -/
def shadow (p : Dispatch.State F) (map : String → Option ℕ) (ended : List (RoutedMsg F)) :
    Dispatch.State F :=
  { p with map := map, finished := ended }

/-- The map entries of the pool whose worker is live. -/
structure LiveEntries (p : Dispatch.State F) (map : String → Option ℕ) : Prop where
  kept : ∀ k id, map k = some id → p.map k = some id
  live : ∀ k id, p.map k = some id → ∃ w, p.worker id = some w ∧ (w.phase.Live ↔ map k = some id)

/-- The other pool keeps only the entries of live workers, and records the messages that were
processed and those that panicked. -/
def Mirrors (s : State F) (a : Dispatch.State F) : Prop :=
  ∃ map ended, a = shadow s.pool map ended ∧ Inv a ∧ LiveEntries s.pool map ∧
    ended.Perm (s.pool.finished ++ s.panicked)

theorem LiveEntries.live_iff {p : Dispatch.State F} {map : String → Option ℕ}
    (h : LiveEntries p map) {k : String} {id : ℕ} {w : Worker F} (hm : p.map k = some id)
    (hw : p.worker id = some w) : w.phase.Live ↔ map k = some id := by
  obtain ⟨v, hv, hl⟩ := h.live k id hm
  rw [hw, Option.some_inj] at hv
  subst hv
  exact hl

theorem LiveEntries.free {p : Dispatch.State F} {map : String → Option ℕ}
    (h : LiveEntries p map) {k : String} (hm : p.map k = none) : map k = none := by
  cases hk : map k with
  | none => rfl
  | some id =>
    have hsome := h.kept k id hk
    rw [hm] at hsome
    cases hsome

theorem LiveEntries.setWorker {p : Dispatch.State F} {map : String → Option ℕ}
    (h : LiveEntries p map) {id : ℕ} {w w' : Worker F} (hw : p.worker id = some w)
    (hl : w'.phase.Live ↔ w.phase.Live) : LiveEntries (p.setWorker id w') map where
  kept := h.kept
  live k j hm := by
    by_cases hj : j = id
    · subst hj
      exact ⟨w', p.setWorker_self j w', hl.trans (h.live_iff hm hw)⟩
    · rw [p.setWorker_of_ne w' hj]
      exact h.live k j hm

/-- A worker that dies has no entry left in the mirror, whether it clears its own or not. -/
theorem LiveEntries.die {p q : Dispatch.State F} {map : String → Option ℕ} {ended}
    (h : LiveEntries p map) (hi : Inv (shadow p map ended)) {id : ℕ} {w w' : Worker F}
    (hw : p.worker id = some w) (hdead : ¬ w'.phase.Live)
    (hworker : q.worker = (p.setWorker id w').worker)
    (hmap : ∀ k, k ≠ w.key → q.map k = p.map k)
    (hown : ∀ j, q.map w.key = some j → j = id) :
    LiveEntries q (Function.update map w.key none) where
  kept k j hm := by
    by_cases hk : k = w.key
    · subst hk
      rw [Function.update_self] at hm
      cases hm
    · rw [Function.update_of_ne hk] at hm
      rw [hmap k hk]
      exact h.kept k j hm
  live k j hm := by
    rw [hworker]
    by_cases hk : k = w.key
    · subst hk
      obtain rfl := hown j hm
      rw [Function.update_self]
      exact ⟨w', p.setWorker_self j w', iff_of_false hdead (by simp)⟩
    · rw [hmap k hk] at hm
      rw [Function.update_of_ne hk]
      by_cases hj : j = id
      · subst hj
        refine ⟨w', p.setWorker_self j w', iff_of_false hdead ?_⟩
        intro hlive
        exact hk (hi.live_of_map hlive hw).1.symm
      · rw [p.setWorker_of_ne w' hj]
        exact h.live k j hm

/-- A new worker's entry. -/
theorem LiveEntries.spawn {p : Dispatch.State F} {map : String → Option ℕ}
    (h : LiveEntries p map) {id : ℕ} {w : Worker F} (hf : p.worker id = none)
    (hl : w.phase.Live) (k : String) :
    LiveEntries ({ p with map := Function.update p.map k (some id) }.setWorker id w)
      (Function.update map k (some id)) where
  kept k' j hm := by
    change Function.update p.map k (some id) k' = some j
    by_cases hk : k' = k
    · subst hk
      rw [Function.update_self] at hm ⊢
      exact hm
    · rw [Function.update_of_ne hk] at hm ⊢
      exact h.kept k' j hm
  live k' j hm := by
    change Function.update p.map k (some id) k' = some j at hm
    by_cases hk : k' = k
    · subst hk
      rw [Function.update_self] at hm ⊢
      obtain rfl := Option.some_inj.mp hm
      exact ⟨w, State.setWorker_self _ _ _, iff_of_true hl rfl⟩
    · rw [Function.update_of_ne hk] at hm ⊢
      have hold := h.live k' j hm
      have hj : j ≠ id := by
        rintro rfl
        obtain ⟨v, hv, _⟩ := hold
        rw [hf] at hv
        cases hv
      rw [State.setWorker_of_ne _ w hj]
      exact hold

theorem LiveEntries.remove_dead {p : Dispatch.State F} {map : String → Option ℕ}
    (h : LiveEntries p map) {k : String} {id : ℕ} {w : Worker F} (hm : p.map k = some id)
    (hw : p.worker id = some w) (hdead : ¬ w.phase.Live) : LiveEntries (p.remove k) map where
  kept k' j hj := by
    have hk : k' ≠ k := by
      rintro rfl
      have hid : id = j := Option.some_inj.mp (hm.symm.trans (h.kept k' j hj))
      subst hid
      exact hdead ((h.live_iff hm hw).mpr hj)
    exact (Function.update_of_ne hk _ _).trans (h.kept k' j hj)
  live k' j hj := by
    have hk : k' ≠ k := by
      rintro rfl
      have hnone : (p.remove k').map k' = none := Function.update_self _ _ _
      rw [hnone] at hj
      cases hj
    exact h.live k' j ((Function.update_of_ne hk _ _).symm.trans hj)

/-! ## Every step is a run of the mirror -/

theorem Phase.live_of_ne {p : Phase F} (hl : p ≠ .leaving) (hg : p ≠ .gone) : p.Live := by
  cases p with
  | waiting => trivial
  | timedOut => trivial
  | processing msg => trivial
  | leaving => exact absurd rfl hl
  | gone => exact absurd rfl hg

theorem inv_of_run {a b : Dispatch.State F} (h : Inv a) (hr : ReflTransGen Dispatch.Step a b) :
    Inv b := by
  induction hr with
  | refl => exact h
  | tail _ hs ih => exact ih.step hs

theorem mirrors_of_step {s t : State F} {map map' : String → Option ℕ}
    {ended ended' : List (RoutedMsg F)} (hi : Inv (shadow s.pool map ended))
    (hs : ReflTransGen Dispatch.Step (shadow s.pool map ended) (shadow t.pool map' ended'))
    (he : LiveEntries t.pool map') (hp : ended'.Perm (t.pool.finished ++ t.panicked)) :
    ∃ b, ReflTransGen Dispatch.Step (shadow s.pool map ended) b ∧ Mirrors t b := by
  exact ⟨_, hs, map', ended', rfl, inv_of_run hi hs, he, hp⟩

theorem Mirrors.pool {s : State F} {a t : Dispatch.State F} (h : Mirrors s a)
    (hs : Dispatch.Step s.pool t) (hc : Spares s .pool { s with pool := t }) :
    ∃ b, ReflTransGen Dispatch.Step a b ∧ Mirrors { s with pool := t } b := by
  obtain ⟨map, ended, rfl, hi, he, hp⟩ := h
  cases hs with
  | receive msg hn =>
    exact mirrors_of_step (t := { s with pool := _ }) hi
      (.single (.receive (shadow s.pool map ended) msg hn)) ⟨he.kept, he.live⟩ hp
  | enqueue msg id w hn hm hw ho =>
    have hlive := Phase.live_of_ne (hc id w ⟨msg, hn, hm, rfl⟩ hw) ho
    have hmap := (he.live_iff hm hw).mp hlive
    have he' : LiveEntries (s.pool.setWorker id { w with queue := w.queue ++ [msg] }) map :=
      he.setWorker hw Iff.rfl
    exact mirrors_of_step (t := { s with pool := _ }) hi
      (.single (.enqueue (shadow s.pool map ended) msg id w hn hmap hw ho)) ⟨he'.kept, he'.live⟩ hp
  | spawn msg id hn hm hf =>
    have he' := he.spawn (w := ⟨key msg, [msg], .waiting⟩) hf trivial (key msg)
    exact mirrors_of_step (t := { s with pool := _ }) hi
      (.single (.spawn (shadow s.pool map ended) msg id hn (he.free hm) hf)) ⟨he'.kept, he'.live⟩ hp
  | sendError msg id w hn hm hw hg =>
    have hdead : ¬ w.phase.Live := by
      rw [hg]
      exact fun hl => hl
    exact mirrors_of_step (t := { s with pool := _ }) hi .refl (he.remove_dead hm hw hdead) hp
  | recv id w msg rest hw hph hq =>
    have hl : Phase.Live (.processing msg) ↔ w.phase.Live := by
      rw [hph]
      exact iff_of_true trivial trivial
    exact mirrors_of_step (t := { s with pool := _ }) hi
      (.single (.recv (shadow s.pool map ended) id w msg rest hw hph hq)) (he.setWorker hw hl) hp
  | processed id w msg hw hph =>
    have hl : Phase.Live (F := F) .waiting ↔ w.phase.Live := by
      rw [hph]
      exact iff_of_true trivial trivial
    have he' : LiveEntries (s.pool.setWorker id { w with phase := .waiting }) map :=
      he.setWorker hw hl
    refine mirrors_of_step (t := { s with pool := _ }) hi
      (.single (.processed (shadow s.pool map ended) id w msg hw hph)) ⟨he'.kept, he'.live⟩ ?_
    refine (hp.append_right [msg]).trans ?_
    rw [List.append_assoc]
    exact ((List.perm_append_comm).append_left s.pool.finished).trans
      (by rw [List.append_assoc])
  | timeout id w hw hph =>
    have hl : Phase.Live (F := F) .timedOut ↔ w.phase.Live := by
      rw [hph]
      exact iff_of_true trivial trivial
    exact mirrors_of_step (t := { s with pool := _ }) hi
      (.single (.timeout (shadow s.pool map ended) id w hw hph)) (he.setWorker hw hl) hp
  | tryRecv id w msg rest hw hph hq =>
    have hl : Phase.Live (.processing msg) ↔ w.phase.Live := by
      rw [hph]
      exact iff_of_true trivial trivial
    exact mirrors_of_step (t := { s with pool := _ }) hi
      (.single (.tryRecv (shadow s.pool map ended) id w msg rest hw hph hq)) (he.setWorker hw hl) hp
  | reap id w hw hph hq =>
    refine mirrors_of_step (t := { s with pool := _ }) hi
      (.single (.reap (shadow s.pool map ended) id w hw hph hq))
      (he.die hi hw (show ¬ Phase.Live (F := F) .leaving from fun hl => hl) rfl ?_ ?_) hp
    · intro k hk
      exact Function.update_of_ne hk _ _
    · intro j hj
      have hnone : (s.pool.remove w.key).map w.key = none := Function.update_self _ _ _
      exact absurd (hnone.symm.trans hj) (by simp)
  | recvNone id w hw hph hq hn =>
    have hlive : w.phase.Live := by
      rw [hph]
      trivial
    exact absurd (he.kept _ _ (hi.live id w hw hlive)) (hn w.key)
  | drop id w hw hph =>
    have hl : Phase.Live (F := F) .gone ↔ w.phase.Live := by
      rw [hph]
      exact Iff.rfl
    exact mirrors_of_step (t := { s with pool := _ }) hi
      (.single (.drop (shadow s.pool map ended) id w hw hph)) (he.setWorker hw hl) hp

/-- In the mirror a panic with nothing queued behind is a worker that finishes the message, idles
and reaps itself. -/
theorem Mirrors.panic {s : State F} {a : Dispatch.State F} (h : Mirrors s a) {id : ℕ}
    {w : Worker F} {msg : RoutedMsg F} (hw : s.pool.worker id = some w)
    (hph : w.phase = .processing msg) (hq : w.queue = []) :
    ∃ b, ReflTransGen Dispatch.Step a b ∧
      Mirrors ⟨s.pool.setWorker id { w with phase := .leaving }, s.panicked ++ [msg]⟩ b := by
  obtain ⟨map, ended, rfl, hi, he, hp⟩ := h
  have hlive : w.phase.Live := by
    rw [hph]
    trivial
  have hmap : map w.key = some id := hi.live id w hw hlive
  let done := shadow (s.pool.setWorker id { w with phase := .waiting }) map (ended ++ [msg])
  let idle := done.setWorker id { w with phase := .timedOut }
  let left := (idle.remove w.key).setWorker id { w with phase := .leaving }
  have hdone : Dispatch.Step (shadow s.pool map ended) done := .processed _ id w msg hw hph
  have hidle : Dispatch.Step done idle :=
    .timeout done id { w with phase := .waiting } (State.setWorker_self _ _ _) rfl
  have hleft : Dispatch.Step idle left :=
    .reap idle id { w with phase := .timedOut } (State.setWorker_self _ _ _) rfl hq
  have hsame : left = shadow (s.pool.setWorker id { w with phase := .leaving })
      (Function.update map w.key none) (ended ++ [msg]) := by
    simp [left, idle, done, shadow, State.setWorker, State.remove]
  have hrun : ReflTransGen Dispatch.Step (shadow s.pool map ended) left :=
    ((ReflTransGen.single hdone).tail hidle).tail hleft
  rw [hsame] at hrun
  refine mirrors_of_step
    (t := ⟨s.pool.setWorker id { w with phase := .leaving }, s.panicked ++ [msg]⟩) hi hrun
    (he.die hi hw (show ¬ Phase.Live (F := F) .leaving from fun hl => hl) rfl (fun _ _ => rfl) ?_)
    ?_
  · intro j hj
    have hreg : s.pool.map w.key = some id := he.kept _ _ hmap
    exact Option.some_inj.mp (hj.symm.trans hreg)
  · rw [← List.append_assoc]
    exact hp.append_right [msg]

/-- A pool whose panics leave nothing queued behind simulates a pool without panics. -/
def sparesSimulates : Simulation (runs (F := F) Spares) (dispatch F) where
  rel := Mirrors
  init s h := by
    subst h
    refine ⟨.new, rfl, fun _ => none, [], rfl, inv_new, ⟨?_, ?_⟩, .refl _⟩
    · intro k id hm
      cases hm
    · intro k id hm
      cases hm
  step s t a h hs := by
    obtain ⟨e, hs, hc⟩ := hs
    cases hs with
    | pool t hs => exact h.pool hs hc
    | panic id w msg hw hp => exact h.panic hw hp (hc w hw)

theorem Mirrors.held {s : State F} {a : Dispatch.State F} (h : Mirrors s a) (k : String) :
    held s.pool k = (a.running k).toList ++ a.waiting k := by
  obtain ⟨map, ended, rfl, hi, he, _⟩ := h
  unfold HandlerPanics.held
  cases hm : s.pool.map k with
  | none =>
    have hs : s.pool.registered k = none := by
      unfold State.registered
      rw [hm]
      rfl
    have ha : (shadow s.pool map ended).registered k = none := by
      unfold State.registered
      change (map k).bind _ = none
      rw [he.free hm]
      rfl
    rw [hs]
    unfold State.running State.waiting
    rw [ha]
    rfl
  | some id =>
    obtain ⟨w, hw, hl⟩ := he.live k id hm
    have hs : s.pool.registered k = some w := by
      unfold State.registered
      rw [hm]
      exact hw
    rw [hs]
    dsimp only
    by_cases hlive : w.phase.Live
    · have ha : (shadow s.pool map ended).registered k = some w := by
        unfold State.registered
        change (map k).bind _ = some w
        rw [hl.mp hlive]
        exact hw
      rw [if_pos hlive]
      unfold State.running State.waiting
      rw [ha]
      rfl
    · have ha : (shadow s.pool map ended).registered k = none := by
        unfold State.registered
        change (map k).bind _ = none
        cases hk : map k with
        | none => rfl
        | some j =>
          have hj : id = j := Option.some_inj.mp (hm.symm.trans (he.kept k j hk))
          subst hj
          exact absurd (hl.mpr hk) hlive
      rw [if_neg hlive]
      unfold State.running State.waiting
      rw [ha]
      rfl

/-- In every run in which a handler panics only with nothing queued behind its message, and
nothing is sent to a worker that has panicked before its receiver is dropped, every accepted
message but those whose own call panicked is processed or held by a live worker. -/
theorem nothing_lost_of_reachable {s : State F} (h : Reachable (runs Spares) s) :
    NothingLost s := by
  obtain ⟨a, ha, hm⟩ := sparesSimulates.reachable h
  intro k
  rw [hm.held k]
  have hacc := conserved_of_reachable ha k
  obtain ⟨map, ended, rfl, _, _, hp⟩ := hm
  have hrec : (shadow s.pool map ended).accepted = s.pool.accepted := rfl
  rw [hrec] at hacc
  rw [hacc, List.append_assoc]
  exact (hp.filter _).append_right _

/-! ## A panic with and without a message queued behind -/

theorem spares_of_same {s t : State F} (h : t.pool.accepted = s.pool.accepted) :
    Spares s .pool t := by
  rintro id w ⟨msg, _, _, ha⟩
  rw [h] at ha
  simp at ha

theorem spares_of_free {s t : State F} {msg : RoutedMsg F} (hp : s.pool.pending = some msg)
    (hm : s.pool.map (key msg) = none) : Spares s .pool t := by
  rintro id w ⟨m, hp', hm', _⟩
  obtain rfl := Option.some_inj.mp (hp.symm.trans hp')
  rw [hm] at hm'
  cases hm'

def farewell : RoutedMsg UInt32 :=
  { greeting with payload := ⟨"Farewell", .nil⟩ }

/-- The message has arrived at the dispatcher. -/
def arrived (p : Dispatch.State UInt32) (msg : RoutedMsg UInt32) : Dispatch.State UInt32 :=
  { p with received := p.received ++ [msg], pending := some msg }

/-- The message has got a new worker. -/
def hired (p : Dispatch.State UInt32) (msg : RoutedMsg UInt32) (id : ℕ) : Dispatch.State UInt32 :=
  ({ p with map := Function.update p.map (key msg) (some id) }.setWorker id
    ⟨key msg, [msg], .waiting⟩).accept msg

/-- The first worker has taken the greeting. -/
def busy : Dispatch.State UInt32 :=
  (hired (arrived .new greeting) greeting 0).setWorker 0 ⟨"t1", [], .processing greeting⟩

theorem reachable_busy {condition : State UInt32 → Event → State UInt32 → Prop}
    (hc : ∀ s t, Spares s .pool t → condition s .pool t) :
    Reachable (runs condition) ⟨busy, []⟩ := by
  have harrive : Step ⟨.new, []⟩ .pool ⟨arrived .new greeting, []⟩ :=
    .pool _ _ (.receive .new greeting rfl)
  have hhire : Step ⟨arrived .new greeting, []⟩ .pool
      ⟨hired (arrived .new greeting) greeting 0, []⟩ :=
    .pool _ _ (.spawn _ greeting 0 rfl rfl rfl)
  have htake : Step ⟨hired (arrived .new greeting) greeting 0, []⟩ .pool ⟨busy, []⟩ :=
    .pool _ _ (.recv _ 0 ⟨"t1", [greeting], .waiting⟩ greeting [] rfl rfl rfl)
  have hfree : Spares ⟨arrived .new greeting, []⟩ .pool
      ⟨hired (arrived .new greeting) greeting 0, []⟩ :=
    spares_of_free (show _ = some greeting from rfl) rfl
  exact .next (.next (.next (.start rfl) ⟨.pool, harrive, hc _ _ (spares_of_same rfl)⟩)
    ⟨.pool, hhire, hc _ _ hfree⟩) ⟨.pool, htake, hc _ _ (spares_of_same rfl)⟩

/-- The greeting's handler panicked and the receiver was dropped. -/
def deserted : Dispatch.State UInt32 :=
  (busy.setWorker 0 ⟨"t1", [], .leaving⟩).setWorker 0 ⟨"t1", [], .gone⟩

/-- The next send fails on the stale entry, and the farewell gets a new worker. -/
def rehired : Dispatch.State UInt32 :=
  hired ((arrived deserted farewell).remove "t1") farewell 1

theorem reachable_rehired : Reachable (runs Spares) ⟨rehired, [greeting]⟩ := by
  have hpanic : Step ⟨busy, []⟩ (.panic 0)
      ⟨busy.setWorker 0 ⟨"t1", [], .leaving⟩, [greeting]⟩ :=
    .panic _ 0 ⟨"t1", [], .processing greeting⟩ greeting rfl rfl
  have halone : Spares ⟨busy, []⟩ (.panic 0)
      ⟨busy.setWorker 0 ⟨"t1", [], .leaving⟩, [greeting]⟩ := by
    intro w hw
    obtain rfl := Option.some_inj.mp ((busy.setWorker_self 0 _).symm.trans hw)
    rfl
  have hdrop : Step ⟨busy.setWorker 0 ⟨"t1", [], .leaving⟩, [greeting]⟩ .pool
      ⟨deserted, [greeting]⟩ :=
    .pool _ _ (.drop _ 0 ⟨"t1", [], .leaving⟩ rfl rfl)
  have harrive : Step ⟨deserted, [greeting]⟩ .pool ⟨arrived deserted farewell, [greeting]⟩ :=
    .pool _ _ (.receive _ farewell rfl)
  have hfail : Step ⟨arrived deserted farewell, [greeting]⟩ .pool
      ⟨(arrived deserted farewell).remove "t1", [greeting]⟩ :=
    .pool _ _ (.sendError _ farewell 0 ⟨"t1", [], .gone⟩ rfl rfl rfl rfl)
  have hhire : Step ⟨(arrived deserted farewell).remove "t1", [greeting]⟩ .pool
      ⟨rehired, [greeting]⟩ :=
    .pool _ _ (.spawn _ farewell 1 rfl rfl rfl)
  have hfree : Spares ⟨(arrived deserted farewell).remove "t1", [greeting]⟩ .pool
      ⟨rehired, [greeting]⟩ :=
    spares_of_free (show _ = some farewell from rfl) rfl
  exact .next (.next (.next (.next (.next (reachable_busy fun _ _ h => h)
    ⟨.panic 0, hpanic, halone⟩) ⟨.pool, hdrop, spares_of_same rfl⟩)
    ⟨.pool, harrive, spares_of_same rfl⟩) ⟨.pool, hfail, spares_of_same rfl⟩)
    ⟨.pool, hhire, hfree⟩

theorem nothing_lost_rehired : NothingLost ⟨rehired, [greeting]⟩ :=
  nothing_lost_of_reachable reachable_rehired

/-- The farewell is queued behind the greeting when the greeting's handler panics. -/
def crowded : Dispatch.State UInt32 :=
  ((arrived busy farewell).setWorker 0 ⟨"t1", [farewell], .processing greeting⟩).accept farewell

theorem farewell_lost :
    ∃ s : State UInt32, Reachable (runs fun _ _ _ => True) s ∧ ¬ NothingLost s := by
  have harrive : Step ⟨busy, []⟩ .pool ⟨arrived busy farewell, []⟩ :=
    .pool _ _ (.receive _ farewell rfl)
  have hsend : Step ⟨arrived busy farewell, []⟩ .pool ⟨crowded, []⟩ :=
    .pool _ _ (.enqueue _ farewell 0 ⟨"t1", [], .processing greeting⟩ rfl rfl rfl (by simp))
  have hpanic : Step ⟨crowded, []⟩ (.panic 0)
      ⟨crowded.setWorker 0 ⟨"t1", [farewell], .leaving⟩, [greeting]⟩ :=
    .panic _ 0 ⟨"t1", [farewell], .processing greeting⟩ greeting rfl rfl
  refine ⟨_, .next (.next (.next (reachable_busy fun _ _ _ => trivial)
    ⟨.pool, harrive, trivial⟩) ⟨.pool, hsend, trivial⟩) ⟨.panic 0, hpanic, trivial⟩, ?_⟩
  intro h
  -- two messages were accepted, one panicked, and no live worker holds the other
  have hlen := (h "t1").length_eq
  have hlost : 2 = 1 := hlen
  omega

end RustPipeline.HandlerPanics
