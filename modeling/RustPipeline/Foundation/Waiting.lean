import Mathlib

set_option autoImplicit false

/-!
# Who waits for whom

Parties that wait for one another. With a rank that falls along every wait no party waits for
itself through others, and behind every party that waits there is one that does not.
-/
namespace RustPipeline.Waiting
open Relation

universe u

variable {τ : Type u} {waits : τ → τ → Prop} {rank : τ → ℕ}

theorem rank_lt_of_transGen (h : ∀ a b, waits a b → rank b < rank a) {a b : τ}
    (hab : TransGen waits a b) : rank b < rank a := by
  induction hab with
  | single hw => exact h _ _ hw
  | tail _ hw ih => exact (h _ _ hw).trans ih

theorem not_waits_self (h : ∀ a b, waits a b → rank b < rank a) (a : τ) :
    ¬ TransGen waits a a := by
  intro haa
  exact lt_irrefl _ (rank_lt_of_transGen h haa)

/-- Where everyone with something to do is ready or waits for someone with something to do, someone
    is ready. -/
theorem exists_ready {active ready : τ → Prop} (h : ∀ a b, waits a b → rank b < rank a)
    (hactive : ∀ a, active a → ready a ∨ ∃ b, waits a b ∧ active b) {a : τ} (ha : active a) :
    ∃ b, ready b := by
  induction hn : rank a using Nat.strong_induction_on generalizing a with
  | h n ih =>
    rcases hactive a ha with hready | ⟨b, hw, hb⟩
    · exact ⟨a, hready⟩
    · have hlt := h a b hw
      exact ih (rank b) (hn ▸ hlt) hb rfl

end RustPipeline.Waiting
