import RustPipeline.Foundation.TransitionSystem

set_option autoImplicit false

/-!
# Keyed serial lanes

The purpose of a pool of per-key workers: every key has one lane, a lane runs one item at a time
in the order of acceptance, and lanes do not affect each other.
-/
namespace RustPipeline.Lanes
open TransitionSystem

universe u v

structure Lane (M : Type u) where
  finished : List M
  running : Option M
  waiting : List M

def Lane.empty {M : Type u} : Lane M := ⟨[], none, []⟩

/-- Everything that ever entered the lane, oldest first. -/
def Lane.contents {M : Type u} (l : Lane M) : List M :=
  l.finished ++ l.running.toList ++ l.waiting

def Lane.accept {M : Type u} (l : Lane M) (m : M) : Lane M :=
  { l with waiting := l.waiting ++ [m] }

structure State (K : Type v) (M : Type u) where
  accepted : List M
  lane : K → Lane M

variable {K : Type v} {M : Type u} [DecidableEq K]

def State.set (s : State K M) (k : K) (l : Lane M) : State K M :=
  { s with lane := Function.update s.lane k l }

inductive Step (key : M → K) : State K M → State K M → Prop where
  | accept (s : State K M) (m : M) : Step key s
      ⟨s.accepted ++ [m], Function.update s.lane (key m) ((s.lane (key m)).accept m)⟩
  | start (s : State K M) (k : K) (m : M) (fin rest : List M)
      (h : s.lane k = ⟨fin, none, m :: rest⟩) : Step key s (s.set k ⟨fin, some m, rest⟩)
  | finish (s : State K M) (k : K) (m : M) (fin rest : List M)
      (h : s.lane k = ⟨fin, some m, rest⟩) : Step key s (s.set k ⟨fin ++ [m], none, rest⟩)

def system (key : M → K) : System (State K M) where
  init s := s.accepted = [] ∧ ∀ k, s.lane k = Lane.empty
  step := Step key

/-- Each lane holds exactly the accepted items of its key, in the order of acceptance. -/
def Accounted (key : M → K) (s : State K M) : Prop :=
  ∀ k, s.accepted.filter (fun m => key m = k) = (s.lane k).contents

theorem Lane.contents_accept (l : Lane M) (m : M) :
    (l.accept m).contents = l.contents ++ [m] := by
  simp [Lane.accept, Lane.contents]

theorem Accounted.set {key : M → K} {s : State K M} (h : Accounted key s) {k : K} {l : Lane M}
    (hl : l.contents = (s.lane k).contents) : Accounted key (s.set k l) := by
  intro j
  by_cases hj : j = k
  · subst hj
    simpa [State.set, hl] using h j
  · simpa [State.set, Function.update_of_ne hj] using h j

theorem Accounted.step {key : M → K} {s t : State K M} (h : Accounted key s)
    (hs : Step key s t) : Accounted key t := by
  cases hs with
  | accept m =>
    intro j
    by_cases hj : key m = j
    · subst hj
      simp [List.filter_append, h (key m), Lane.contents_accept]
    · simp [List.filter_append, hj, h j, Function.update_of_ne (Ne.symm hj)]
  | start k m fin rest hl => exact h.set (by simp [hl, Lane.contents])
  | finish k m fin rest hl => exact h.set (by simp [hl, Lane.contents])

theorem accounted_of_reachable {key : M → K} {s : State K M} (h : Reachable (system key) s) :
    Accounted key s := by
  refine h.invariant ?_ (fun _ _ hi hs => hi.step hs)
  rintro s ⟨ha, hl⟩ k
  simp [ha, hl, Lane.empty, Lane.contents]

end RustPipeline.Lanes
