import Mathlib

set_option autoImplicit false

/-!
# Histories

A list as the record of what happened, each entry judged by the entries before it.
-/
namespace RustPipeline.History

universe u

variable {α : Type u}

/-- Each entry is related to the entries before it. -/
def Each (R : List α → α → Prop) (l : List α) : Prop :=
  ∀ pre a post, l = pre ++ a :: post → R pre a

theorem each_nil (R : List α → α → Prop) : Each R [] := by
  intro pre a post h
  cases pre <;> cases h

theorem each_concat {R : List α → α → Prop} {l : List α} {a : α} :
    Each R (l ++ [a]) ↔ Each R l ∧ R l a := by
  constructor
  · intro h
    refine ⟨?_, h l a [] rfl⟩
    intro pre b post hl
    refine h pre b (post ++ [a]) ?_
    rw [hl, List.append_assoc]
    rfl
  · intro h pre b post hl
    rcases List.eq_nil_or_concat post with rfl | ⟨rest, c, rfl⟩
    · obtain ⟨rfl, hb⟩ := List.append_inj' hl rfl
      rw [← List.singleton_inj.mp hb]
      exact h.2
    · rw [List.concat_eq_append, ← List.cons_append, ← List.append_assoc] at hl
      exact h.1 pre b rest (List.append_inj_left' hl rfl)

theorem each_cons {R : List α → α → Prop} {a : α} {l : List α} :
    Each R (a :: l) ↔ R [] a ∧ Each (fun pre b => R (a :: pre) b) l := by
  constructor
  · intro h
    refine ⟨h [] a l rfl, ?_⟩
    intro pre b post hl
    exact h (a :: pre) b post (by rw [hl, List.cons_append])
  · rintro ⟨h0, h⟩ pre b post hl
    cases pre with
    | nil =>
      obtain ⟨rfl, _⟩ := List.cons_eq_cons.mp hl
      exact h0
    | cons c pre =>
      obtain ⟨rfl, htail⟩ := List.cons_eq_cons.mp hl
      exact h pre b post htail

end RustPipeline.History
