import RustPipeline.Foundation.Lanes
import RustPipeline.Pipeline

set_option autoImplicit false

/-!
# Per-thread dispatch

The dispatcher, the worker map and the serial workers, one step for each critical section and each
change of a worker's phase. Every interleaving of these steps simulates keyed serial lanes.
-/
namespace RustPipeline.Dispatch
open Pipeline TransitionSystem Lanes Relation

variable {F : Type}

/-! ## The protocol -/

/-- The thread id, under which a message finds its worker. -/
def key (msg : RoutedMsg F) : String := msg.envelope.header.thread

/-- Where a worker stands in its loop. A worker that is `leaving` has left the loop but still owns
    its receiver, so a message sent to it would be lost. -/
inductive Phase (F : Type) where
  | waiting
  | timedOut
  | processing (msg : RoutedMsg F)
  | leaving
  | gone

def Phase.Live : Phase F → Prop
  | .waiting | .timedOut | .processing _ => True
  | .leaving | .gone => False

def Phase.message : Phase F → Option (RoutedMsg F)
  | .processing msg => some msg
  | _ => none

structure Worker (F : Type) where
  key : String
  queue : List (RoutedMsg F)
  phase : Phase F

/-- `map` holds the senders, by the number of the worker that owns the receiver. What was received,
    accepted and finished is recorded. -/
structure State (F : Type) where
  received : List (RoutedMsg F)
  pending : Option (RoutedMsg F)
  accepted : List (RoutedMsg F)
  finished : List (RoutedMsg F)
  map : String → Option ℕ
  worker : ℕ → Option (Worker F)

namespace State

def new : State F := ⟨[], none, [], [], fun _ => none, fun _ => none⟩

def setWorker (s : State F) (id : ℕ) (w : Worker F) : State F :=
  { s with worker := Function.update s.worker id (some w) }

def remove (s : State F) (k : String) : State F := { s with map := Function.update s.map k none }

/-- A send that succeeded. -/
def accept (s : State F) (msg : RoutedMsg F) : State F :=
  { s with accepted := s.accepted ++ [msg], pending := none }

end State

inductive Step : State F → State F → Prop where
  | receive (s : State F) (msg : RoutedMsg F) (h : s.pending = none) :
      Step s { s with received := s.received ++ [msg], pending := some msg }
  | enqueue (s : State F) (msg : RoutedMsg F) (id : ℕ) (w : Worker F) (h : s.pending = some msg)
      (hm : s.map (key msg) = some id) (hw : s.worker id = some w) (ho : w.phase ≠ .gone) :
      Step s ((s.setWorker id { w with queue := w.queue ++ [msg] }).accept msg)
  | spawn (s : State F) (msg : RoutedMsg F) (id : ℕ) (h : s.pending = some msg)
      (hm : s.map (key msg) = none) (hf : s.worker id = none) :
      Step s (({ s with map := Function.update s.map (key msg) (some id) }.setWorker id
        ⟨key msg, [msg], .waiting⟩).accept msg)
  -- The receiver is gone: the entry is removed and the message is retried.
  | sendError (s : State F) (msg : RoutedMsg F) (id : ℕ) (w : Worker F) (h : s.pending = some msg)
      (hm : s.map (key msg) = some id) (hw : s.worker id = some w) (hc : w.phase = .gone) :
      Step s (s.remove (key msg))
  | recv (s : State F) (id : ℕ) (w : Worker F) (msg : RoutedMsg F) (rest : List (RoutedMsg F))
      (hw : s.worker id = some w) (hp : w.phase = .waiting) (hq : w.queue = msg :: rest) :
      Step s (s.setWorker id { w with queue := rest, phase := .processing msg })
  | processed (s : State F) (id : ℕ) (w : Worker F) (msg : RoutedMsg F)
      (hw : s.worker id = some w) (hp : w.phase = .processing msg) :
      Step s { s.setWorker id { w with phase := .waiting } with finished := s.finished ++ [msg] }
  | timeout (s : State F) (id : ℕ) (w : Worker F) (hw : s.worker id = some w)
      (hp : w.phase = .waiting) : Step s (s.setWorker id { w with phase := .timedOut })
  -- The re-check under the map lock finds a message that arrived after the timeout.
  | tryRecv (s : State F) (id : ℕ) (w : Worker F) (msg : RoutedMsg F) (rest : List (RoutedMsg F))
      (hw : s.worker id = some w) (hp : w.phase = .timedOut) (hq : w.queue = msg :: rest) :
      Step s (s.setWorker id { w with queue := rest, phase := .processing msg })
  | reap (s : State F) (id : ℕ) (w : Worker F) (hw : s.worker id = some w)
      (hp : w.phase = .timedOut) (hq : w.queue = []) :
      Step s ((s.remove w.key).setWorker id { w with phase := .leaving })
  -- All senders dropped.
  | recvNone (s : State F) (id : ℕ) (w : Worker F) (hw : s.worker id = some w)
      (hp : w.phase = .waiting) (hq : w.queue = []) (hn : ∀ k, s.map k ≠ some id) :
      Step s (s.setWorker id { w with phase := .leaving })
  | drop (s : State F) (id : ℕ) (w : Worker F) (hw : s.worker id = some w)
      (hp : w.phase = .leaving) : Step s (s.setWorker id { w with phase := .gone })

def dispatch (F : Type) : System (State F) where
  init s := s = .new
  step := Step

/-! ## The invariant -/

/-- The map entries are exactly the live workers, each under its own key; a worker that is not
    live holds no message, and no worker holds a message of another key. -/
structure Inv (s : State F) : Prop where
  registered : ∀ k id, s.map k = some id →
    ∃ w, s.worker id = some w ∧ w.key = k ∧ w.phase.Live
  live : ∀ id w, s.worker id = some w → w.phase.Live → s.map w.key = some id
  idle : ∀ id w, s.worker id = some w → ¬ w.phase.Live → w.queue = []
  own : ∀ id w, s.worker id = some w →
    ∀ msg ∈ w.phase.message.toList ++ w.queue, key msg = w.key
  received : s.received = s.accepted ++ s.pending.toList

theorem Phase.not_live_message {p : Phase F} (h : ¬ p.Live) : p.message = none := by
  cases p with
  | waiting => rfl
  | timedOut => rfl
  | processing msg => exact absurd trivial h
  | leaving => rfl
  | gone => rfl

theorem inv_new : Inv (State.new : State F) where
  registered _ _ h := by cases h
  live _ _ h := by cases h
  idle _ _ h := by cases h
  own _ _ h := by cases h
  received := rfl

theorem State.setWorker_self (s : State F) (id : ℕ) (w : Worker F) :
    (s.setWorker id w).worker id = some w := Function.update_self _ _ _

theorem State.setWorker_of_ne (s : State F) {id id' : ℕ} (w : Worker F) (h : id' ≠ id) :
    (s.setWorker id w).worker id' = s.worker id' := Function.update_of_ne h _ _

theorem State.setWorker_cases {s : State F} {id j : ℕ} {w v : Worker F}
    (h : (s.setWorker id w).worker j = some v) : j = id ∧ v = w ∨ j ≠ id ∧ s.worker j = some v := by
  by_cases hj : j = id
  · subst hj
    rw [s.setWorker_self, Option.some_inj] at h
    exact .inl ⟨rfl, h.symm⟩
  · rw [s.setWorker_of_ne w hj] at h
    exact .inr ⟨hj, h⟩

/-- A worker changes in place, without leaving its loop. -/
theorem Inv.setWorker {s : State F} (h : Inv s) {id : ℕ} {w w' : Worker F}
    (hw : s.worker id = some w) (hlive : w.phase.Live) (hkey : w'.key = w.key)
    (hlive' : w'.phase.Live)
    (hown : ∀ msg ∈ w'.phase.message.toList ++ w'.queue, key msg = w.key) :
    Inv (s.setWorker id w') where
  registered k j hm := by
    obtain ⟨v, hv, hk, hl⟩ := h.registered k j hm
    by_cases hj : j = id
    · subst hj
      rw [hw, Option.some_inj] at hv
      subst hv
      exact ⟨w', s.setWorker_self j w', hkey.trans hk, hlive'⟩
    · exact ⟨v, (s.setWorker_of_ne w' hj).trans hv, hk, hl⟩
  live j v hv hl := by
    rcases State.setWorker_cases hv with ⟨rfl, rfl⟩ | ⟨_, hv⟩
    · rw [hkey]
      exact h.live j w hw hlive
    · exact h.live j v hv hl
  idle j v hv hn := by
    rcases State.setWorker_cases hv with ⟨rfl, rfl⟩ | ⟨_, hv⟩
    · exact absurd hlive' hn
    · exact h.idle j v hv hn
  own j v hv := by
    rcases State.setWorker_cases hv with ⟨rfl, rfl⟩ | ⟨_, hv⟩
    · rw [hkey]
      exact hown
    · exact h.own j v hv
  received := h.received

/-- A worker that has left its loop moves on. -/
theorem Inv.setWorker_dead {s : State F} (h : Inv s) {id : ℕ} {w' : Worker F}
    (hn : ∀ k, s.map k ≠ some id) (hdead : ¬ w'.phase.Live) (hq : w'.queue = []) :
    Inv (s.setWorker id w') where
  registered k j hm := by
    have hj : j ≠ id := by
      intro hj
      exact hn k (hj ▸ hm)
    rw [s.setWorker_of_ne w' hj]
    exact h.registered k j hm
  live j v hv hl := by
    rcases State.setWorker_cases hv with ⟨rfl, rfl⟩ | ⟨_, hv⟩
    · exact absurd hl hdead
    · exact h.live j v hv hl
  idle j v hv hd := by
    rcases State.setWorker_cases hv with ⟨rfl, rfl⟩ | ⟨_, hv⟩
    · exact hq
    · exact h.idle j v hv hd
  own j v hv := by
    rcases State.setWorker_cases hv with ⟨rfl, rfl⟩ | ⟨_, hv⟩
    · rw [Phase.not_live_message hdead, hq]
      simp
    · exact h.own j v hv
  received := h.received

/-- A worker takes its own entry out of the map and leaves. -/
theorem Inv.reap {s : State F} (h : Inv s) {id : ℕ} {w w' : Worker F} (hw : s.worker id = some w)
    (hlive : w.phase.Live) (hdead : ¬ w'.phase.Live) (hq : w'.queue = []) :
    Inv ((s.remove w.key).setWorker id w') where
  registered k j hm := by
    have hk : k ≠ w.key := by
      rintro rfl
      simp [State.remove, State.setWorker] at hm
    have hm' : s.map k = some j := (Function.update_of_ne hk _ _).symm.trans hm
    obtain ⟨v, hv, hvk, hl⟩ := h.registered k j hm'
    have hj : j ≠ id := by
      rintro rfl
      rw [hw, Option.some_inj] at hv
      exact hk (hv ▸ hvk).symm
    exact ⟨v, ((s.remove w.key).setWorker_of_ne w' hj).trans hv, hvk, hl⟩
  live j v hv hl := by
    rcases State.setWorker_cases hv with ⟨rfl, rfl⟩ | ⟨hj, hv⟩
    · exact absurd hl hdead
    · have hm := h.live j v hv hl
      have hk : v.key ≠ w.key := by
        intro hk
        rw [hk, h.live id w hw hlive, Option.some_inj] at hm
        exact hj hm.symm
      exact (Function.update_of_ne hk _ _).trans hm
  idle j v hv hd := by
    rcases State.setWorker_cases hv with ⟨rfl, rfl⟩ | ⟨_, hv⟩
    · exact hq
    · exact h.idle j v hv hd
  own j v hv := by
    rcases State.setWorker_cases hv with ⟨rfl, rfl⟩ | ⟨_, hv⟩
    · rw [Phase.not_live_message hdead, hq]
      simp
    · exact h.own j v hv
  received := h.received

/-- The first message of a key gets a worker of its own. -/
theorem Inv.spawn {s : State F} (h : Inv s) {msg : RoutedMsg F} {id : ℕ}
    (hm : s.map (key msg) = none) (hf : s.worker id = none) :
    Inv ({ s with map := Function.update s.map (key msg) (some id) }.setWorker id
      ⟨key msg, [msg], .waiting⟩) where
  registered k j hj := by
    by_cases hk : k = key msg
    · subst hk
      have hid : id = j := by simpa [State.setWorker] using hj
      subst hid
      exact ⟨_, State.setWorker_self _ _ _, rfl, trivial⟩
    · have hj' : s.map k = some j := (Function.update_of_ne hk _ _).symm.trans hj
      obtain ⟨v, hv, hvk, hl⟩ := h.registered k j hj'
      have hne : j ≠ id := by
        rintro rfl
        rw [hf] at hv
        cases hv
      exact ⟨v, (State.setWorker_of_ne _ _ hne).trans hv, hvk, hl⟩
  live j v hv hl := by
    rcases State.setWorker_cases hv with ⟨rfl, rfl⟩ | ⟨_, hv⟩
    · exact Function.update_self _ _ _
    · have hj := h.live j v hv hl
      have hk : v.key ≠ key msg := by
        intro hk
        rw [hk, hm] at hj
        cases hj
      exact (Function.update_of_ne hk _ _).trans hj
  idle j v hv hd := by
    rcases State.setWorker_cases hv with ⟨rfl, rfl⟩ | ⟨_, hv⟩
    · exact absurd trivial hd
    · exact h.idle j v hv hd
  own j v hv := by
    rcases State.setWorker_cases hv with ⟨rfl, rfl⟩ | ⟨_, hv⟩
    · simp [Phase.message]
    · exact h.own j v hv
  received := h.received

theorem Inv.accept {s : State F} (h : Inv s) {msg : RoutedMsg F} (hp : s.pending = some msg) :
    Inv (s.accept msg) where
  registered := h.registered
  live := h.live
  idle := h.idle
  own := h.own
  received := by
    have hr := h.received
    rw [hp] at hr
    rw [State.accept, hr]
    simp

theorem Inv.unregistered {s : State F} (h : Inv s) {id : ℕ} {w : Worker F}
    (hw : s.worker id = some w) (hdead : ¬ w.phase.Live) (k : String) : s.map k ≠ some id := by
  intro hm
  obtain ⟨v, hv, _, hl⟩ := h.registered k id hm
  rw [hw, Option.some_inj] at hv
  subst hv
  exact hdead hl

/-- A worker that the map refers to is live. -/
theorem Inv.live_of_map {s : State F} (h : Inv s) {k : String} {id : ℕ} {w : Worker F}
    (hm : s.map k = some id) (hw : s.worker id = some w) : w.key = k ∧ w.phase.Live := by
  obtain ⟨v, hv, hk, hl⟩ := h.registered k id hm
  rw [hw, Option.some_inj] at hv
  subst hv
  exact ⟨hk, hl⟩

theorem Inv.step {s t : State F} (h : Inv s) (hs : Step s t) : Inv t := by
  cases hs with
  | receive msg hp =>
    have hr := h.received
    rw [hp] at hr
    exact ⟨h.registered, h.live, h.idle, h.own, by simp [hr]⟩
  | enqueue msg id w hp hm hw ho =>
    obtain ⟨hk, hl⟩ := h.live_of_map hm hw
    have hi : Inv (s.setWorker id { w with queue := w.queue ++ [msg] }) := by
      refine h.setWorker hw hl rfl hl ?_
      intro m hmem
      rw [← List.append_assoc, List.mem_append, List.mem_singleton] at hmem
      rcases hmem with hmem | rfl
      · exact h.own id w hw m hmem
      · exact hk.symm
    exact hi.accept hp
  | spawn msg id hp hm hf => exact (h.spawn hm hf).accept hp
  | sendError msg id w hp hm hw hc =>
    obtain ⟨_, hl⟩ := h.live_of_map hm hw
    rw [hc] at hl
    exact hl.elim
  | recv id w msg rest hw hp hq =>
    refine h.setWorker hw (by rw [hp]; trivial) rfl trivial ?_
    have hown := h.own id w hw
    rw [hp, hq] at hown
    exact hown
  | processed id w msg hw hp =>
    have hown := h.own id w hw
    rw [hp] at hown
    have hi : Inv (s.setWorker id { w with phase := .waiting }) :=
      h.setWorker hw (by rw [hp]; trivial) rfl trivial fun m hm =>
        hown m (List.mem_append_right _ hm)
    exact ⟨hi.registered, hi.live, hi.idle, hi.own, hi.received⟩
  | timeout id w hw hp =>
    have hown := h.own id w hw
    rw [hp] at hown
    exact h.setWorker hw (by rw [hp]; trivial) rfl trivial hown
  | tryRecv id w msg rest hw hp hq =>
    refine h.setWorker hw (by rw [hp]; trivial) rfl trivial ?_
    have hown := h.own id w hw
    rw [hp, hq] at hown
    exact hown
  | reap id w hw hp hq => exact h.reap hw (by rw [hp]; trivial) (fun hl => hl) hq
  | recvNone id w hw hp hq hn => exact h.setWorker_dead hn (fun hl => hl) hq
  | drop id w hw hp =>
    have hdead : ¬ w.phase.Live := by
      rw [hp]
      intro hl
      exact hl
    exact h.setWorker_dead (h.unregistered hw hdead) (fun hl => hl) (h.idle id w hw hdead)

/-! ## Lanes -/

namespace State

/-- The worker whose sender is in the map. -/
def registered (s : State F) (k : String) : Option (Worker F) := (s.map k).bind s.worker

def running (s : State F) (k : String) : Option (RoutedMsg F) :=
  (s.registered k).bind fun w => w.phase.message

def waiting (s : State F) (k : String) : List (RoutedMsg F) :=
  ((s.registered k).map Worker.queue).getD []

def lane (s : State F) (k : String) : Lane (RoutedMsg F) :=
  ⟨s.finished.filter fun m => key m = k, s.running k, s.waiting k⟩

def lanes (s : State F) : Lanes.State String (RoutedMsg F) := ⟨s.accepted, s.lane⟩

end State

theorem lane_of_registered {s : State F} {k : String} {w : Worker F} (h : s.registered k = some w) :
    s.lane k = ⟨s.finished.filter fun m => key m = k, w.phase.message, w.queue⟩ := by
  unfold State.lane State.running State.waiting
  rw [h]
  rfl

theorem lane_of_none {s : State F} {k : String} (h : s.registered k = none) :
    s.lane k = ⟨s.finished.filter fun m => key m = k, none, []⟩ := by
  unfold State.lane State.running State.waiting
  rw [h]
  rfl

theorem lane_congr {s t : State F} {k : String} (hf : t.finished = s.finished)
    (h : t.registered k = s.registered k) : t.lane k = s.lane k := by
  unfold State.lane State.running State.waiting
  rw [hf, h]

theorem Inv.registered_of_live {s : State F} (h : Inv s) {id : ℕ} {w : Worker F}
    (hw : s.worker id = some w) (hl : w.phase.Live) : s.registered w.key = some w := by
  unfold State.registered
  rw [h.live id w hw hl]
  exact hw

/-- Another key keeps its worker when one worker changes. -/
theorem Inv.registered_setWorker {s : State F} (h : Inv s) {id : ℕ} {w w' : Worker F}
    (hw : s.worker id = some w) {k : String} (hk : k ≠ w.key) :
    (s.setWorker id w').registered k = s.registered k := by
  unfold State.registered
  change (s.map k).bind (s.setWorker id w').worker = _
  cases hm : s.map k with
  | none => rfl
  | some j =>
    obtain ⟨v, hv, hvk, _⟩ := h.registered k j hm
    have hj : j ≠ id := by
      rintro rfl
      rw [hw, Option.some_inj] at hv
      exact hk (hv ▸ hvk).symm
    exact s.setWorker_of_ne w' hj

/-- The lanes after one live worker changed. -/
theorem Inv.lane_setWorker {s : State F} (h : Inv s) {id : ℕ} {w w' : Worker F}
    (hw : s.worker id = some w) (hl : w.phase.Live) :
    (s.setWorker id w').lane = Function.update s.lane w.key
      ⟨s.finished.filter fun m => key m = w.key, w'.phase.message, w'.queue⟩ := by
  funext k
  by_cases hk : k = w.key
  · subst hk
    rw [Function.update_self]
    refine lane_of_registered ?_
    unfold State.registered
    change (s.map w.key).bind (s.setWorker id w').worker = _
    rw [h.live id w hw hl]
    exact s.setWorker_self id w'
  · rw [Function.update_of_ne hk]
    exact lane_congr rfl (h.registered_setWorker hw hk)

/-- A worker outside the map is invisible to the lanes. -/
theorem lane_setWorker_dead {s : State F} {id : ℕ} {w' : Worker F} (hn : ∀ k, s.map k ≠ some id) :
    (s.setWorker id w').lane = s.lane := by
  funext k
  refine lane_congr rfl ?_
  unfold State.registered
  change (s.map k).bind (s.setWorker id w').worker = _
  cases hm : s.map k with
  | none => rfl
  | some j =>
    refine s.setWorker_of_ne w' ?_
    rintro rfl
    exact hn k hm

/-- An idle worker that reaps itself leaves the lanes as they are. -/
theorem Inv.lane_reap {s : State F} (h : Inv s) {id : ℕ} {w w' : Worker F}
    (hw : s.worker id = some w) (hp : w.phase = .timedOut) (hq : w.queue = []) :
    ((s.remove w.key).setWorker id w').lane = s.lane := by
  have hl : w.phase.Live := by
    rw [hp]
    trivial
  funext k
  by_cases hk : k = w.key
  · subst hk
    have hr := h.registered_of_live hw hl
    have hnone : ((s.remove w.key).setWorker id w').registered w.key = none := by
      unfold State.registered
      simp [State.remove, State.setWorker]
    rw [lane_of_none hnone, lane_of_registered hr, hp, hq]
    rfl
  · refine lane_congr rfl ?_
    have hm : ((s.remove w.key).setWorker id w').map k = (s.setWorker id w').map k :=
      Function.update_of_ne hk _ _
    have hr : ((s.remove w.key).setWorker id w').registered k =
        (s.setWorker id w').registered k := by
      unfold State.registered
      rw [hm]
      rfl
    rw [hr]
    exact h.registered_setWorker hw hk

theorem lane_spawn {s : State F} {msg : RoutedMsg F} {id : ℕ} (h : Inv s)
    (hm : s.map (key msg) = none) (hf : s.worker id = none) :
    ({ s with map := Function.update s.map (key msg) (some id) }.setWorker id
      ⟨key msg, [msg], .waiting⟩).lane =
        Function.update s.lane (key msg) ((s.lane (key msg)).accept msg) := by
  funext k
  by_cases hk : k = key msg
  · subst hk
    have hnone : s.registered (key msg) = none := by
      unfold State.registered
      rw [hm]
      rfl
    have hsome : ({ s with map := Function.update s.map (key msg) (some id) }.setWorker id
        ⟨key msg, [msg], .waiting⟩).registered (key msg) = some ⟨key msg, [msg], .waiting⟩ := by
      unfold State.registered State.setWorker
      simp
    rw [Function.update_self, lane_of_none hnone, lane_of_registered hsome]
    rfl
  · rw [Function.update_of_ne hk]
    refine lane_congr rfl ?_
    unfold State.registered State.setWorker
    simp only [Function.update_of_ne hk]
    cases hj : s.map k with
    | none => rfl
    | some j =>
      obtain ⟨v, hv, _⟩ := h.registered k j hj
      refine Function.update_of_ne ?_ _ _
      rintro rfl
      rw [hf] at hv
      cases hv

theorem Inv.lane_live {s : State F} (h : Inv s) {id : ℕ} {w : Worker F} (hw : s.worker id = some w)
    (hl : w.phase.Live) :
    s.lane w.key = ⟨s.finished.filter fun m => key m = w.key, w.phase.message, w.queue⟩ :=
  lane_of_registered (h.registered_of_live hw hl)

/-- Taking the first message off a queue starts it on its lane. -/
theorem Inv.lanes_take {s : State F} (h : Inv s) {id : ℕ} {w : Worker F} {msg : RoutedMsg F}
    {rest : List (RoutedMsg F)} (hw : s.worker id = some w) (hl : w.phase.Live)
    (hn : w.phase.message = none) (hq : w.queue = msg :: rest) :
    Lanes.Step key s.lanes
      (s.setWorker id { w with queue := rest, phase := .processing msg }).lanes := by
  have hlane := h.lane_live hw hl
  rw [hn, hq] at hlane
  have hs : Lanes.Step key s.lanes _ := .start s.lanes w.key msg _ rest hlane
  unfold Lanes.State.set at hs
  unfold State.lanes at hs ⊢
  rw [h.lane_setWorker hw hl]
  exact hs

/-- Finishing a message ends it on its lane. -/
theorem Inv.lanes_processed {s : State F} (h : Inv s) {id : ℕ} {w : Worker F} {msg : RoutedMsg F}
    (hw : s.worker id = some w) (hp : w.phase = .processing msg) :
    Lanes.Step key s.lanes { s.setWorker id { w with phase := .waiting } with
      finished := s.finished ++ [msg] }.lanes := by
  have hl : w.phase.Live := by
    rw [hp]
    trivial
  have hkey : key msg = w.key := by
    refine h.own id w hw msg ?_
    rw [hp]
    exact List.mem_cons_self
  have hlane := h.lane_live hw hl
  rw [hp] at hlane
  have hs : Lanes.Step key s.lanes _ := .finish s.lanes w.key msg _ _ hlane
  have hafter : { s.setWorker id { w with phase := .waiting } with
      finished := s.finished ++ [msg] }.lane = Function.update s.lane w.key
        ⟨(s.finished.filter fun m => key m = w.key) ++ [msg], none, w.queue⟩ := by
    have hset : (s.setWorker id { w with phase := .waiting }).lane = _ := h.lane_setWorker hw hl
    funext k
    by_cases hk : k = w.key
    · subst hk
      have hset := congrFun hset w.key
      rw [Function.update_self] at hset ⊢
      unfold State.lane at hset ⊢
      simp only [Lane.mk.injEq] at hset ⊢
      refine ⟨?_, hset.2.1, hset.2.2⟩
      rw [List.filter_append, List.filter_singleton]
      simp [hkey]
    · have hset := congrFun hset k
      rw [Function.update_of_ne hk] at hset ⊢
      unfold State.lane at hset ⊢
      simp only [Lane.mk.injEq] at hset ⊢
      refine ⟨?_, hset.2.1, hset.2.2⟩
      rw [List.filter_append, List.filter_singleton]
      simp [hkey, Ne.symm hk]
  unfold Lanes.State.set at hs
  unfold State.lanes at hs ⊢
  rw [hafter]
  exact hs

theorem Inv.step_lanes {s t : State F} (h : Inv s) (hs : Step s t) :
    ReflTransGen (Lanes.Step key) s.lanes t.lanes := by
  cases hs with
  | receive msg hp => exact .refl
  | enqueue msg id w hp hm hw ho =>
    obtain ⟨hk, hl⟩ := h.live_of_map hm hw
    have hlane : (s.setWorker id { w with queue := w.queue ++ [msg] }).lane =
        Function.update s.lane (key msg) ((s.lane (key msg)).accept msg) := by
      rw [h.lane_setWorker hw hl, ← hk, h.lane_live hw hl]
      rfl
    have hstep : Lanes.Step key s.lanes _ := .accept s.lanes msg
    unfold State.lanes at hstep ⊢
    exact .single (hlane ▸ hstep)
  | spawn msg id hp hm hf =>
    have hlane := lane_spawn h hm hf
    have hstep : Lanes.Step key s.lanes _ := .accept s.lanes msg
    unfold State.lanes at hstep ⊢
    exact .single (hlane ▸ hstep)
  | sendError msg id w hp hm hw hc =>
    obtain ⟨_, hl⟩ := h.live_of_map hm hw
    rw [hc] at hl
    exact hl.elim
  | recv id w msg rest hw hp hq =>
    exact .single (h.lanes_take hw (by rw [hp]; trivial) (by rw [hp]; rfl) hq)
  | processed id w msg hw hp => exact .single (h.lanes_processed hw hp)
  | timeout id w hw hp =>
    have hl : w.phase.Live := by
      rw [hp]
      trivial
    have hlane := h.lane_live hw hl
    rw [hp] at hlane
    have hsame : (s.setWorker id { w with phase := .timedOut }).lanes = s.lanes := by
      unfold State.lanes
      rw [h.lane_setWorker hw hl]
      exact congrArg _ (Function.update_eq_iff.mpr ⟨hlane.symm, fun _ _ => rfl⟩)
    rw [hsame]
  | tryRecv id w msg rest hw hp hq =>
    exact .single (h.lanes_take hw (by rw [hp]; trivial) (by rw [hp]; rfl) hq)
  | reap id w hw hp hq =>
    have hlane : ((s.remove w.key).setWorker id { w with phase := .leaving }).lanes = s.lanes := by
      unfold State.lanes
      rw [h.lane_reap hw hp hq]
      rfl
    rw [hlane]
  | recvNone id w hw hp hq hn =>
    have hlane : (s.setWorker id { w with phase := .leaving }).lanes = s.lanes := by
      unfold State.lanes
      rw [lane_setWorker_dead hn]
      rfl
    rw [hlane]
  | drop id w hw hp =>
    have hdead : ¬ w.phase.Live := by
      rw [hp]
      intro hl
      exact hl
    have hlane : (s.setWorker id { w with phase := .gone }).lanes = s.lanes := by
      unfold State.lanes
      rw [lane_setWorker_dead (h.unregistered hw hdead)]
      rfl
    rw [hlane]

/-- The dispatcher and its workers are keyed serial lanes, one for each thread id. -/
def refinesLanes : Simulation (dispatch F) (Lanes.system (key (F := F))) where
  rel s a := Inv s ∧ a = s.lanes
  init s h := by
    subst h
    exact ⟨State.new.lanes, ⟨rfl, fun _ => rfl⟩, inv_new, rfl⟩
  step s t a h hs := by
    obtain ⟨hi, rfl⟩ := h
    exact ⟨t.lanes, hi.step_lanes hs, hi.step hs, rfl⟩

/-! ## Serial, in order, and nothing lost -/

structure Serial (s : State F) : Prop where
  one_worker : ∀ id id' w w', s.worker id = some w → s.worker id' = some w' →
    w.phase.Live → w'.phase.Live → w.key = w'.key → id = id'
  one_message : ∀ id id' w w' msg msg', s.worker id = some w → s.worker id' = some w' →
    w.phase = .processing msg → w'.phase = .processing msg' → key msg = key msg' →
    id = id' ∧ msg = msg'
  /-- What was processed, with what is being processed, is what was received first. -/
  in_order : ∀ k, (s.finished.filter fun m => key m = k) ++ (s.running k).toList <+:
    s.received.filter fun m => key m = k
  /-- An accepted message was processed, or is being processed, or waits, once. -/
  accounted : ∀ k, (s.accepted.filter fun m => key m = k) =
    (s.finished.filter fun m => key m = k) ++ (s.running k).toList ++ s.waiting k
  received : s.received = s.accepted ++ s.pending.toList
  /-- No worker but the live one registered under a message's key holds it. -/
  held : ∀ id w msg, s.worker id = some w → w.phase = .processing msg ∨ msg ∈ w.queue →
    w.phase.Live ∧ s.map (key msg) = some id

theorem Inv.held {s : State F} (h : Inv s) {id : ℕ} {w : Worker F} {msg : RoutedMsg F}
    (hw : s.worker id = some w) (hm : w.phase = .processing msg ∨ msg ∈ w.queue) :
    w.phase.Live ∧ s.map (key msg) = some id := by
  have hmem : msg ∈ w.phase.message.toList ++ w.queue := by
    rcases hm with hm | hm
    · rw [hm]
      exact List.mem_cons_self
    · exact List.mem_append_right _ hm
  have hl : w.phase.Live := by
    by_contra hn
    rw [Phase.not_live_message hn, h.idle id w hw hn] at hmem
    cases hmem
  refine ⟨hl, ?_⟩
  rw [h.own id w hw msg hmem]
  exact h.live id w hw hl

theorem conserved_of_reachable {s : State F} (hs : Reachable (dispatch F) s) (k : String) :
    (s.accepted.filter fun m => key m = k) =
      (s.finished.filter fun m => key m = k) ++ (s.running k).toList ++ s.waiting k := by
  obtain ⟨a, ha, _, rfl⟩ := refinesLanes.reachable hs
  exact accounted_of_reachable ha k

theorem serial_of_reachable {s : State F} (hs : Reachable (dispatch F) s) : Serial s := by
  have hacc := conserved_of_reachable hs
  obtain ⟨a, ha, h, rfl⟩ := refinesLanes.reachable hs
  refine ⟨?_, ?_, ?_, hacc, h.received, fun id w msg hw hm => h.held hw hm⟩
  · intro id id' w w' hw hw' hl hl' hk
    have hm := h.live id w hw hl
    rw [hk, h.live id' w' hw' hl', Option.some_inj] at hm
    exact hm.symm
  · intro id id' w w' msg msg' hw hw' hp hp' hk
    have hm := (h.held hw (.inl hp)).2
    rw [hk, (h.held hw' (.inl hp')).2, Option.some_inj] at hm
    subst hm
    rw [hw, Option.some_inj] at hw'
    subst hw'
    rw [hp] at hp'
    exact ⟨rfl, Phase.processing.inj hp'⟩
  · intro k
    rw [h.received, List.filter_append, hacc k, List.append_assoc _ (s.waiting k)]
    exact List.prefix_append _ _

def greeting : RoutedMsg UInt32 :=
  ⟨⟨⟨.flat "alice", some (.flat "bob"), "t1", .empty⟩, ⟨"Greeting", .nil⟩⟩, ⟨"Greeting", .nil⟩,
    "bob"⟩

def parting : RoutedMsg UInt32 := { greeting with payload := ⟨"Parting", .nil⟩ }

/-- The idle time of the worker runs out when it is done with the greeting, and the next message of
the thread comes in before it has left. -/
theorem greetings_reachable : ∃ s, Reachable (dispatch UInt32) s ∧ s.finished = [greeting] ∧
    s.running "t1" = some parting := by
  have h0 : Reachable (dispatch UInt32) .new := .start rfl
  have h1 := h0.next (Step.receive _ greeting rfl)
  have h2 := h1.next (Step.spawn _ greeting 0 rfl rfl rfl)
  have h3 := h2.next (Step.recv _ 0 ⟨"t1", [greeting], .waiting⟩ greeting [] rfl rfl rfl)
  have h4 := h3.next (Step.processed _ 0 ⟨"t1", [], .processing greeting⟩ greeting rfl rfl)
  have h5 := h4.next (Step.timeout _ 0 ⟨"t1", [], .waiting⟩ rfl rfl)
  have h6 := h5.next (Step.receive _ parting rfl)
  have h7 := h6.next (Step.enqueue _ parting 0 ⟨"t1", [], .timedOut⟩ rfl rfl rfl (by simp))
  have h8 := h7.next (Step.tryRecv _ 0 ⟨"t1", [parting], .timedOut⟩ parting [] rfl rfl rfl)
  exact ⟨_, h8, rfl, rfl⟩

theorem serial_greetings : ∃ s : State UInt32, s.finished = [greeting] ∧
    s.running "t1" = some parting ∧ Serial s := by
  obtain ⟨s, hs, hfinished, hrunning⟩ := greetings_reachable
  exact ⟨s, hfinished, hrunning, serial_of_reachable hs⟩

end RustPipeline.Dispatch
