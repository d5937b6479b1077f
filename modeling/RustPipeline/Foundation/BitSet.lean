import Mathlib

set_option autoImplicit false

/-!
# Bit vectors as sets of numbers

The positions of the set bits. Bitwise or, bitwise and and a mask of one bit are union,
intersection and a singleton, and a vector of two words holds the positions of both.
-/
namespace RustPipeline.BitSet

variable {w v : ℕ}

def members (x : BitVec w) : Set ℕ := {i | x.getLsbD i = true}

theorem mem_members (x : BitVec w) (i : ℕ) : i ∈ members x ↔ x.getLsbD i = true := Iff.rfl

theorem lt_of_mem {x : BitVec w} {i : ℕ} (h : i ∈ members x) : i < w := by
  by_contra hw
  rw [mem_members, BitVec.getLsbD_of_ge x i (by omega)] at h
  cases h

theorem members_inj {x y : BitVec w} : members x = members y ↔ x = y := by
  constructor
  · intro h
    apply BitVec.eq_of_getLsbD_eq
    intro i _
    have hi : i ∈ members x ↔ i ∈ members y := by rw [h]
    rwa [mem_members, mem_members, ← Bool.eq_iff_iff] at hi
  · intro h
    rw [h]

theorem members_zero : members (0#w) = ∅ := by
  apply Set.eq_empty_of_forall_notMem
  intro i h
  rw [mem_members, BitVec.getLsbD_zero] at h
  cases h

theorem eq_zero_iff (x : BitVec w) : x = 0#w ↔ members x = ∅ := by
  rw [← members_inj, members_zero]

theorem members_or (x y : BitVec w) : members (x ||| y) = members x ∪ members y := by
  ext i
  rw [Set.mem_union, mem_members, mem_members, mem_members, BitVec.getLsbD_or, Bool.or_eq_true]

theorem members_and (x y : BitVec w) : members (x &&& y) = members x ∩ members y := by
  ext i
  rw [Set.mem_inter_iff, mem_members, mem_members, mem_members, BitVec.getLsbD_and,
    Bool.and_eq_true]

theorem mem_members_twoPow (i j : ℕ) : j ∈ members (BitVec.twoPow w i) ↔ i < w ∧ i = j := by
  rw [mem_members, BitVec.getLsbD_twoPow, Bool.and_eq_true, decide_eq_true_eq, decide_eq_true_eq]

theorem mem_members_append (x : BitVec w) (y : BitVec v) (i : ℕ) :
    i ∈ members (x ++ y) ↔ if i < v then i ∈ members y else i - v ∈ members x := by
  rw [mem_members, BitVec.getLsbD_append]
  split_ifs
  · rfl
  · rfl

/-- Testing against a mask of one bit. -/
theorem and_twoPow_ne_zero_iff (x : BitVec w) (i : ℕ) :
    x &&& BitVec.twoPow w i ≠ 0#w ↔ i ∈ members x := by
  rw [ne_eq, eq_zero_iff, members_and, ← ne_eq, ← Set.nonempty_iff_ne_empty]
  constructor
  · intro h
    obtain ⟨j, hj, hm⟩ := h
    rw [mem_members_twoPow] at hm
    rw [hm.2]
    exact hj
  · intro h
    exact ⟨i, h, (mem_members_twoPow i i).mpr ⟨lt_of_mem h, rfl⟩⟩

/-- Every set of positions within the width is the set of some vector. -/
theorem exists_members {s : Set ℕ} (h : ∀ i ∈ s, i < w) : ∃ x : BitVec w, members x = s := by
  have hfin : s.Finite := (Set.finite_Iio w).subset h
  induction s, hfin using Set.Finite.induction_on with
  | empty => exact ⟨0#w, members_zero⟩
  | @insert i s _ _ ih =>
    obtain ⟨x, hx⟩ := ih fun j hj => h j (Set.mem_insert_of_mem i hj)
    refine ⟨x ||| BitVec.twoPow w i, ?_⟩
    ext j
    rw [members_or, Set.mem_union, mem_members_twoPow, hx, Set.mem_insert_iff, or_comm, eq_comm]
    have hi := h i (Set.mem_insert i s)
    tauto

end RustPipeline.BitSet
