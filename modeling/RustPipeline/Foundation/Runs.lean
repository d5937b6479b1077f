import Mathlib

set_option autoImplicit false

/-!
# Runs of a machine driven by a list of inputs

A deterministic machine takes its inputs one by one. A property of its steps along a run, and
when a property of its states holds at every moment of one.
-/
namespace RustPipeline.Runs

universe u v

variable {σ : Type u} {α : Type v} (step : σ → α → σ)

/-- Every step of the run satisfies the property. -/
def Along (Q : σ → α → Prop) : σ → List α → Prop
  | _, [] => True
  | s, a :: as => Q s a ∧ Along Q (step s a) as

instance Along.decidable (Q : σ → α → Prop) [∀ s a, Decidable (Q s a)] :
    ∀ s as, Decidable (Along step Q s as)
  | _, [] => isTrue trivial
  | s, a :: as => @instDecidableAnd _ _ _ (Along.decidable Q (step s a) as)

/-- The property holds at every moment of the run. -/
def Throughout (I : σ → Prop) (s : σ) (as : List α) : Prop :=
  ∀ pre, pre <+: as → I (pre.foldl step s)

variable {step}

theorem throughout_nil {I : σ → Prop} {s : σ} : Throughout step I s [] ↔ I s := by
  constructor
  · intro h
    exact h [] List.prefix_rfl
  · intro h pre hp
    rw [List.prefix_nil.mp hp]
    exact h

theorem throughout_cons {I : σ → Prop} {s : σ} {a : α} {as : List α} :
    Throughout step I s (a :: as) ↔ I s ∧ Throughout step I (step s a) as := by
  constructor
  · intro h
    refine ⟨h [] List.nil_prefix, ?_⟩
    intro pre hp
    exact h (a :: pre) (List.cons_prefix_cons.mpr ⟨rfl, hp⟩)
  · rintro ⟨h0, h⟩ pre hp
    cases pre with
    | nil => exact h0
    | cons b pre =>
      obtain ⟨rfl, hpre⟩ := List.cons_prefix_cons.mp hp
      exact h pre hpre

/-- What every step that meets its guard keeps, a run of such steps keeps. -/
theorem Along.invariant {G : σ → α → Prop} {J : σ → Prop}
    (hstep : ∀ s a, J s → G s a → J (step s a)) {s : σ} {as : List α} (hg : Along step G s as)
    (hj : J s) : J (as.foldl step s) := by
  induction as generalizing s with
  | nil => exact hj
  | cons a as ih => exact ih hg.2 (hstep s a hj hg.1)

/-- A first step that leads to the state from which the rest of the run goes on. -/
theorem Along.cons {Q : σ → α → Prop} {s t : σ} {a : α} {as : List α} (hq : Q s a)
    (hs : step s a = t) (h : Along step Q t as) : Along step Q s (a :: as) := by
  rw [← hs] at h
  exact ⟨hq, h⟩

theorem Along.imp {Q R : σ → α → Prop} (himp : ∀ s a, Q s a → R s a) {s : σ} {as : List α}
    (h : Along step Q s as) : Along step R s as := by
  induction as generalizing s with
  | nil => trivial
  | cons a as ih => exact ⟨himp s a h.1, ih h.2⟩

/-- What holds along a run holds of the step after any part of it. -/
theorem Along.at {Q : σ → α → Prop} {s : σ} {a : α} {pre post : List α}
    (h : Along step Q s (pre ++ a :: post)) : Q (pre.foldl step s) a := by
  induction pre generalizing s with
  | nil => exact h.1
  | cons b pre ih => exact ih h.2

theorem Along.and {G H : σ → α → Prop} {s : σ} {as : List α} (hg : Along step G s as)
    (hh : Along step H s as) : Along step (fun s a => G s a ∧ H s a) s as := by
  induction as generalizing s with
  | nil => trivial
  | cons a as ih => exact ⟨⟨hg.1, hh.1⟩, ih hg.2 hh.2⟩

/-- What follows of a step from its guard and from what such steps keep, follows along the run. -/
theorem Along.of_invariant {G Q : σ → α → Prop} {J : σ → Prop}
    (hstep : ∀ s a, J s → G s a → J (step s a)) (hq : ∀ s a, J s → G s a → Q s a) {s : σ}
    {as : List α} (hg : Along step G s as) (hj : J s) : Along step Q s as := by
  induction as generalizing s with
  | nil => trivial
  | cons a as ih => exact ⟨hq s a hj hg.1, ih hg.2 (hstep s a hj hg.1)⟩

/-- When a step keeps the property exactly on a condition, the property holds throughout a run
exactly when every step meets the condition. -/
theorem throughout_iff {G C : σ → α → Prop} {I J : σ → Prop}
    (hJ : ∀ s a, J s → G s a → J (step s a))
    (hI : ∀ s a, J s → I s → G s a → (I (step s a) ↔ C s a)) {s : σ} {as : List α}
    (hj : J s) (hi : I s) (hg : Along step G s as) :
    Throughout step I s as ↔ Along step C s as := by
  induction as generalizing s with
  | nil => exact throughout_nil.trans (iff_of_true hi trivial)
  | cons a as ih =>
    have hk := hI s a hj hi hg.1
    rw [throughout_cons]
    constructor
    · rintro ⟨_, h⟩
      have hi' : I (step s a) := h [] List.nil_prefix
      exact ⟨hk.mp hi', (ih (hJ s a hj hg.1) hi' hg.2).mp h⟩
    · rintro ⟨hc, h⟩
      have hi' := hk.mpr hc
      exact ⟨hi, (ih (hJ s a hj hg.1) hi' hg.2).mpr h⟩

end RustPipeline.Runs
