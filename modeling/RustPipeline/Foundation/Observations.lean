import RustPipeline.Foundation.TransitionSystem

set_option autoImplicit false

/-!
# Runs and what is seen of them

A run of labelled steps with what an observer sees of each. What every step adds to a record, or
takes from a size, the run adds or takes as well.
-/
namespace RustPipeline.Observations
open TransitionSystem

universe u v w x

variable {σ : Type u} {ε : Type v} {α : Type w} {β : Type x}

theorem filterMap_cons_toList (f : α → Option β) (a : α) (l : List α) :
    (a :: l).filterMap f = (f a).toList ++ l.filterMap f := by
  cases h : f a with
  | none => rw [List.filterMap_cons_none h, Option.toList_none, List.nil_append]
  | some b => rw [List.filterMap_cons_some h, Option.toList_some, List.singleton_append]

/-- A run from one state to another, with what was seen of its steps. -/
inductive Run (step : σ → ε → σ → Prop) (seen : σ → ε → List α) : σ → List α → σ → Prop where
  | refl (s : σ) : Run step seen s [] s
  | tail {s t u : σ} {e : ε} {as : List α} (h : Run step seen s as t) (hs : step t e u) :
      Run step seen s (as ++ seen t e) u

variable {step : σ → ε → σ → Prop} {seen : σ → ε → List α} {s t : σ} {as : List α}

theorem Run.invariant {I : σ → Prop} (hstep : ∀ s e t, I s → step s e t → I t)
    (h : Run step seen s as t) (hs : I s) : I t := by
  induction h with
  | refl => exact hs
  | tail _ he ih => exact hstep _ _ _ ih he

/-- A run of a system stays among its reachable states. -/
theorem Run.reachable {S : System σ} (hstep : ∀ s e t, step s e t → S.step s t)
    (h : Run step seen s as t) (hs : Reachable S s) : Reachable S t :=
  h.invariant (fun _ e _ hr he => .next hr (hstep _ e _ he)) hs

/-- Where each step puts what is seen of it behind the record, the run does. -/
theorem Run.recorded {I : σ → Prop} (hI : ∀ s e t, I s → step s e t → I t)
    {record : σ → List β} {f : α → Option β}
    (hstep : ∀ s e t, I s → step s e t → record t = record s ++ (seen s e).filterMap f)
    (h : Run step seen s as t) (hs : I s) : record t = record s ++ as.filterMap f := by
  induction h with
  | refl => simp
  | tail hr he ih =>
    rw [hstep _ _ _ (hr.invariant hI hs) he, ih, List.filterMap_append, List.append_assoc]

/-- Where each step takes what leaves off the front of a queue and puts what enters behind it, the
    run does, up to a state from which nothing was thrown away. -/
theorem Run.queued {I C : σ → Prop} (hI : ∀ s e t, I s → step s e t → I t)
    (hC : ∀ s e t, step s e t → C t → C s) {queue : σ → List β} {enters leaves : α → Option β}
    (hstep : ∀ s e t, I s → C t → step s e t → (seen s e).filterMap leaves ++ queue t =
      queue s ++ (seen s e).filterMap enters)
    (h : Run step seen s as t) (hs : I s) (ht : C t) :
    as.filterMap leaves ++ queue t = queue s ++ as.filterMap enters := by
  induction h with
  | refl => simp
  | tail hr he ih =>
    have hlast := hstep _ _ _ (hr.invariant hI hs) ht he
    rw [List.filterMap_append, List.filterMap_append, List.append_assoc, hlast,
      ← List.append_assoc, ih (hC _ _ _ he ht), List.append_assoc]

/-- Where each step pays for what is seen of it, no run is seen for longer than its size. -/
theorem Run.bounded {I : σ → Prop} (hI : ∀ s e t, I s → step s e t → I t) (size : σ → ℕ)
    (hstep : ∀ s e t, I s → step s e t → size t + (seen s e).length ≤ size s)
    (h : Run step seen s as t) (hs : I s) : size t + as.length ≤ size s := by
  induction h with
  | refl => exact le_rfl
  | tail hr he ih =>
    have hlast := hstep _ _ _ (hr.invariant hI hs) he
    rw [List.length_append]
    omega

end RustPipeline.Observations
