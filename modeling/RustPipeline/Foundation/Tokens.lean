import Mathlib

set_option autoImplicit false

/-!
# Ranked tokens

Finitely many tokens, each standing on a place with some steps left to take there. A place may have
a rank. The size of the tokens falls when a token goes, when it takes a step on its place and when
it moves to a place of lower rank, and it does not rise when places without a rank get one.
-/
namespace RustPipeline.Tokens

universe u

/-- What never rises along an infinite run falls only finitely often. -/
theorem finite_falls {α : Type u} [PartialOrder α] [WellFoundedLT α] {f : ℕ → α}
    (h : ∀ i, f (i + 1) ≤ f i) : {i | f (i + 1) < f i}.Finite := by
  obtain ⟨n, hn⟩ := WellFoundedLT.antitone_chain_condition (antitone_nat_of_succ_le h)
  refine (Set.finite_lt_nat n).subset ?_
  intro i hi
  by_contra hni
  have hle : n ≤ i := Nat.le_of_not_lt hni
  have heq : f (i + 1) = f i := (hn (i + 1) (by omega)).symm.trans (hn i hle)
  exact absurd heq (ne_of_lt hi)

/-! ## The size -/

variable {ι : Type u}

/-- The place of a token and how many steps it still takes there. -/
abbrev Token (ι : Type u) := ι × ℕ

def unranked (rank : ι → Option ℕ) (tokens : Multiset (Token ι)) : ℕ :=
  tokens.countP fun a => rank a.1 = none

/-- How far a token is from the lowest rank, when it takes at most one step on a place. -/
def height (rank : ι → Option ℕ) (a : Token ι) : ℕ := 2 * (rank a.1).getD 0 + a.2

def size (rank : ι → Option ℕ) (tokens : Multiset (Token ι)) : ℕ ×ₗ ℕ ×ₗ ℕ :=
  toLex (tokens.card, toLex (unranked rank tokens, (tokens.map (height rank)).sum))

/-- Places get a rank and keep it. -/
def Extends (rank rank' : ι → Option ℕ) : Prop := ∀ i n, rank i = some n → rank' i = some n

theorem Extends.refl (rank : ι → Option ℕ) : Extends rank rank := fun _ _ h => h

variable {rank rank' : ι → Option ℕ} {tokens tokens' : Multiset (Token ι)}

theorem Extends.eq_none (h : Extends rank rank') {i : ι} (hi : rank' i = none) :
    rank i = none := by
  cases hr : rank i with
  | none => rfl
  | some n => exact absurd ((h i n hr).symm.trans hi) (by simp)

theorem size_lt_of_card (h : tokens'.card < tokens.card) :
    size rank' tokens' < size rank tokens :=
  Prod.Lex.toLex_lt_toLex.mpr (.inl h)

theorem size_le_of_le (h : tokens' ≤ tokens) : size rank tokens' ≤ size rank tokens := by
  rcases h.eq_or_lt with rfl | hlt
  · exact le_rfl
  · exact (size_lt_of_card (Multiset.card_lt_card hlt)).le

theorem unranked_cons (rank : ι → Option ℕ) (a : Token ι) (tokens : Multiset (Token ι)) :
    unranked rank (a ::ₘ tokens) = unranked rank tokens + if rank a.1 = none then 1 else 0 :=
  Multiset.countP_cons _ a tokens

/-- A place that gets its rank takes its tokens from those without one; until then no token is
    higher or lower than before. -/
theorem extends_unranked (h : Extends rank rank') (tokens : Multiset (Token ι)) :
    unranked rank' tokens ≤ unranked rank tokens ∧
      (unranked rank' tokens = unranked rank tokens →
        (tokens.map (height rank')).sum = (tokens.map (height rank)).sum) := by
  induction tokens using Multiset.induction_on with
  | empty => exact ⟨le_rfl, fun _ => rfl⟩
  | cons a tokens ih =>
    obtain ⟨hle, heq⟩ := ih
    simp only [unranked_cons, Multiset.map_cons, Multiset.sum_cons]
    cases hr : rank a.1 with
    | some n =>
      have hr' := h a.1 n hr
      simp only [height, hr, hr', reduceCtorEq, if_false, add_zero, Option.getD_some]
      refine ⟨hle, ?_⟩
      intro hu
      rw [heq hu]
    | none =>
      cases hr' : rank' a.1 with
      | none =>
        simp only [height, hr, hr', if_true]
        refine ⟨by omega, ?_⟩
        intro hu
        rw [heq (by omega)]
      | some n =>
        simp only [reduceCtorEq, if_false, if_true]
        refine ⟨by omega, ?_⟩
        intro hu
        omega

theorem size_le_of_extends (h : Extends rank rank') (tokens : Multiset (Token ι)) :
    size rank' tokens ≤ size rank tokens := by
  obtain ⟨hle, heq⟩ := extends_unranked h tokens
  refine Prod.Lex.toLex_le_toLex'.mpr ⟨le_rfl, ?_⟩
  intro _
  exact Prod.Lex.toLex_le_toLex'.mpr ⟨hle, fun hu => (heq hu).le⟩

/-- A token gives way to a lower one. -/
theorem size_lt_of_height {a b : Token ι} (hrank : rank b.1 = none → rank a.1 = none)
    (h : height rank b < height rank a) :
    size rank (b ::ₘ tokens) < size rank (a ::ₘ tokens) := by
  refine Prod.Lex.toLex_lt_toLex'.mpr ⟨by simp, ?_⟩
  intro _
  refine Prod.Lex.toLex_lt_toLex'.mpr ⟨?_, ?_⟩
  · simp only [unranked_cons]
    split_ifs with hb ha
    · exact le_rfl
    · exact absurd (hrank hb) ha
    · omega
    · exact le_rfl
  · intro _
    simp only [Multiset.map_cons, Multiset.sum_cons]
    omega

theorem size_lt_of_step (i : ι) (n : ℕ) :
    size rank ((i, n) ::ₘ tokens) < size rank ((i, n + 1) ::ₘ tokens) := by
  refine size_lt_of_height (fun h => h) ?_
  simp only [height]
  omega

/-- A token that has taken its steps moves to a place of lower rank. -/
theorem size_lt_of_rank {i j : ι} {m n : ℕ} (hi : rank i = some m) (hj : rank j = some n)
    (h : n < m) : size rank ((j, 1) ::ₘ tokens) < size rank ((i, 0) ::ₘ tokens) := by
  refine size_lt_of_height ?_ ?_
  · intro hn
    rw [show rank j = none from hn] at hj
    cases hj
  · simp only [height, hi, hj, Option.getD_some]
    omega

end RustPipeline.Tokens
