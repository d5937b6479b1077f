import Mathlib

set_option autoImplicit false

/-!
# Transition systems

Reachable states, inductive invariants, and forward simulations between two levels of a design.
-/
namespace RustPipeline.TransitionSystem

universe u v

structure System (σ : Type u) where
  init : σ → Prop
  step : σ → σ → Prop

variable {σ : Type u} {τ : Type v}

inductive Reachable (S : System σ) : σ → Prop where
  | start {s : σ} (h : S.init s) : Reachable S s
  | next {s t : σ} (h : Reachable S s) (hs : S.step s t) : Reachable S t

theorem Reachable.invariant {S : System σ} {I : σ → Prop} (h0 : ∀ s, S.init s → I s)
    (hstep : ∀ s t, I s → S.step s t → I t) {s : σ} (h : Reachable S s) : I s := by
  induction h with
  | start h => exact h0 _ h
  | next _ hs ih => exact hstep _ _ ih hs

/-- Each concrete step is answered by a run of the abstract system, possibly an empty one. -/
structure Simulation (C : System σ) (A : System τ) where
  rel : σ → τ → Prop
  init : ∀ s, C.init s → ∃ a, A.init a ∧ rel s a
  step : ∀ s t a, rel s a → C.step s t → ∃ b, Relation.ReflTransGen A.step a b ∧ rel t b

theorem Reachable.trans {S : System σ} {s t : σ} (h : Reachable S s)
    (hr : Relation.ReflTransGen S.step s t) : Reachable S t := by
  induction hr with
  | refl => exact h
  | tail _ hs ih => exact .next ih hs

theorem Simulation.reachable {C : System σ} {A : System τ} (sim : Simulation C A) {s : σ}
    (h : Reachable C s) : ∃ a, Reachable A a ∧ sim.rel s a := by
  induction h with
  | start h =>
    obtain ⟨a, ha, hr⟩ := sim.init _ h
    exact ⟨a, .start ha, hr⟩
  | next _ hs ih =>
    obtain ⟨a, ha, hr⟩ := ih
    obtain ⟨b, hab, hb⟩ := sim.step _ _ _ hr hs
    exact ⟨b, ha.trans hab, hb⟩

/-- Where each moment has a step to the next one, there is a run that never ends. -/
theorem exists_run {ε : Type v} {step : σ → ε → σ → Prop} {event : ℕ → ε}
    {moment : ℕ → σ → Prop} {s : σ} (h0 : moment 0 s)
    (hstep : ∀ i s, moment i s → ∃ t, step s (event i) t ∧ moment (i + 1) t) :
    ∃ run : ℕ → σ, run 0 = s ∧ ∀ i, step (run i) (event i) (run (i + 1)) := by
  choose next hnext hmoment using hstep
  let run : (i : ℕ) → {s : σ // moment i s} := fun i =>
    Nat.rec ⟨s, h0⟩ (fun i r => ⟨next i r.1 r.2, hmoment i r.1 r.2⟩) i
  exact ⟨fun i => (run i).1, rfl, fun i => hnext i (run i).1 (run i).2⟩

end RustPipeline.TransitionSystem
