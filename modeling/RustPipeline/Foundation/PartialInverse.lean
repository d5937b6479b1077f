import Mathlib.Logic.Function.Basic

set_option autoImplicit false

/-!
# Two maps that are inverse to each other

A pair of finite maps kept in step: an entry of one is an entry of the other, the other way round.
Where an entry of the second may be overwritten, this still holds in one direction.
-/
namespace RustPipeline.PartialInverse

universe u v

variable {α : Type u} {β : Type v}

def Inverse (f : α → Option β) (g : β → Option α) : Prop := ∀ a b, f a = some b ↔ g b = some a

theorem inverse_empty : Inverse (fun _ : α => (none : Option β)) fun _ => none := by
  intro a b
  simp

variable {f : α → Option β} {g : β → Option α}

theorem Inverse.injective (h : Inverse f g) {a a' : α} {b : β} (ha : f a = some b)
    (ha' : f a' = some b) : a = a' := by
  rw [h] at ha ha'
  rw [ha] at ha'
  exact Option.some_inj.mp ha'

/-- The second map determines the first. -/
theorem Inverse.unique {f' : α → Option β} (h : Inverse f g) (h' : Inverse f' g) : f = f' := by
  funext a
  apply Option.ext
  intro b
  exact (h a b).trans (h' a b).symm

variable [DecidableEq α] [DecidableEq β]

theorem Inverse.insert (h : Inverse f g) {a : α} {b : β} (ha : f a = none) (hb : g b = none) :
    Inverse (Function.update f a (some b)) (Function.update g b (some a)) := by
  intro x y
  by_cases hx : x = a
  · subst hx
    by_cases hy : y = b
    · subst hy
      simp
    · rw [Function.update_self, Function.update_of_ne hy, Option.some_inj, ← h]
      simp [ha, Ne.symm hy]
  · by_cases hy : y = b
    · subst hy
      rw [Function.update_self, Function.update_of_ne hx, Option.some_inj, h]
      simp [hb, Ne.symm hx]
    · rw [Function.update_of_ne hx, Function.update_of_ne hy]
      exact h x y

theorem Inverse.erase (h : Inverse f g) {a : α} {b : β} (ha : f a = some b) :
    Inverse (Function.update f a none) (Function.update g b none) := by
  intro x y
  by_cases hx : x = a
  · subst hx
    rw [Function.update_self]
    by_cases hy : y = b
    · subst hy
      simp
    · rw [Function.update_of_ne hy]
      refine iff_of_false (by simp) (fun hg => hy ?_)
      rw [← h, ha] at hg
      exact (Option.some_inj.mp hg).symm
  · rw [Function.update_of_ne hx]
    by_cases hy : y = b
    · subst hy
      rw [Function.update_self]
      refine iff_of_false (fun hf => hx (h.injective hf ha)) (by simp)
    · rw [Function.update_of_ne hy]
      exact h x y

/-! ## One direction -/

/-- Every entry of the second map is an entry of the first. -/
def Backed (f : α → Option β) (g : β → Option α) : Prop := ∀ b a, g b = some a → f a = some b

theorem Backed.insert (h : Backed f g) {a : α} {b : β} (ha : f a = none) :
    Backed (Function.update f a (some b)) (Function.update g b (some a)) := by
  intro y x hg
  by_cases hy : y = b
  · subst hy
    rw [Function.update_self, Option.some_inj] at hg
    rw [hg, Function.update_self]
  · rw [Function.update_of_ne hy] at hg
    have hf := h y x hg
    have hx : x ≠ a := by
      intro he
      rw [he, ha] at hf
      cases hf
    rw [Function.update_of_ne hx]
    exact hf

theorem Backed.erase (h : Backed f g) {a : α} {b : β} (ha : f a = some b) :
    Backed (Function.update f a none) (Function.update g b none) := by
  intro y x hg
  by_cases hy : y = b
  · subst hy
    rw [Function.update_self] at hg
    cases hg
  · rw [Function.update_of_ne hy] at hg
    have hf := h y x hg
    have hx : x ≠ a := by
      intro he
      rw [he, ha, Option.some_inj] at hf
      exact hy hf.symm
    rw [Function.update_of_ne hx]
    exact hf

end RustPipeline.PartialInverse
