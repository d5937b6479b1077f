import Mathlib

set_option autoImplicit false

/-!
# Weights of a family

The total weight of a family of which finitely many members weigh something, and what it becomes
when one member changes.
-/
namespace RustPipeline.Weights

universe u

variable {ι : Type u} [DecidableEq ι]

/-- The new total has the new weight in place of the old one. -/
theorem finsum_update {f : ι → ℕ} (hf : f.support.Finite) (i : ι) (n : ℕ) :
    (∑ᶠ j, Function.update f i n j) + f i = (∑ᶠ j, f j) + n := by
  let K := insert i hf.toFinset
  have hi : i ∈ K := Finset.mem_insert_self i _
  have hsub : f.support ⊆ K := by
    intro j hj
    exact Finset.mem_coe.mpr (Finset.mem_insert_of_mem (hf.mem_toFinset.mpr hj))
  have hsub' : (Function.update f i n).support ⊆ K := by
    intro j hj
    by_cases hji : j = i
    · rw [hji]
      exact hi
    · rw [Function.mem_support, Function.update_of_ne hji] at hj
      exact hsub hj
  rw [finsum_eq_sum_of_support_subset _ hsub, finsum_eq_sum_of_support_subset _ hsub',
    Finset.sum_update_of_mem hi, ← Finset.add_sum_erase K f hi, Finset.sdiff_singleton_eq_erase]
  omega

end RustPipeline.Weights
