import RustPipeline.Foundation.Runs

set_option autoImplicit false

/-!
# Schedules of independent parties

A machine takes the inputs of several parties, one by one, and puts something out at each. Where the
inputs of different parties commute, no party sees how they are scheduled: each gets what it would
get alone, and the last state is the same.
-/
namespace RustPipeline.Schedules
open Runs

universe u v w x

variable {σ : Type u} {α : Type v} {ω : Type w} (step : σ → α → σ) (out : σ → α → List ω)

/-! ## Two inputs -/

/-- Either input may come first: the state is the same, and neither sees the other. -/
structure Commutes (s : σ) (a b : α) : Prop where
  state : step (step s a) b = step (step s b) a
  second : out (step s a) b = out s b
  first : out (step s b) a = out s a

/-- Inputs of two kinds: one of each commute, and neither takes the other out of its kind. -/
structure Independent (A B : σ → α → Prop) : Prop where
  commutes : ∀ s a b, A s a → B s b → Commutes step out s a b
  keepsFirst : ∀ s a b, A s a → B s b → A (step s b) a
  keepsSecond : ∀ s a b, A s a → B s b → B (step s a) b

/-- What a run puts out. -/
def outputs : σ → List α → List ω
  | _, [] => []
  | s, a :: as => out s a ++ outputs (step s a) as

variable {step out} {A B : σ → α → Prop}

theorem Commutes.symm {s : σ} {a b : α} (h : Commutes step out s a b) : Commutes step out s b a :=
  ⟨h.state.symm, h.first, h.second⟩

theorem Independent.symm (h : Independent step out A B) : Independent step out B A where
  commutes s b a hb ha := (h.commutes s a b ha hb).symm
  keepsFirst s b a hb ha := h.keepsSecond s a b ha hb
  keepsSecond s b a hb ha := h.keepsFirst s a b ha hb

/-- A run of the first kind stays one behind an input of the second. -/
theorem Independent.along (h : Independent step out A B) {s : σ} {as : List α} {b : α}
    (ha : Along step A s as) (hb : B s b) : Along step A (step s b) as := by
  induction as generalizing s with
  | nil => trivial
  | cons a as ih =>
    obtain ⟨hhead, htail⟩ := ha
    refine ⟨h.keepsFirst s a b hhead hb, ?_⟩
    rw [← (h.commutes s a b hhead hb).state]
    exact ih htail (h.keepsSecond s a b hhead hb)

/-- An input of the first kind does not show in a run of the second. -/
theorem Independent.unseen (h : Independent step out A B) {s : σ} {a : α} {bs : List α}
    (ha : A s a) (hb : Along step B s bs) :
    outputs step out (step s a) bs = outputs step out s bs := by
  induction bs generalizing s with
  | nil => rfl
  | cons b bs ih =>
    obtain ⟨hhead, htail⟩ := hb
    have hc := h.commutes s a b ha hhead
    change out (step s a) b ++ outputs step out (step (step s a) b) bs =
      out s b ++ outputs step out (step s b) bs
    rw [hc.second, hc.state, ih (h.keepsFirst s a b ha hhead) htail]

/-! ## Inputs of several parties -/

section
variable {ι : Type x} [DecidableEq ι] (step out)

/-- The inputs of one party. -/
def inputsOf (i : ι) (schedule : List (ι × α)) : List α :=
  (schedule.filter fun x => x.1 = i).map Prod.snd

/-- What is put out at the inputs of one party. -/
def outputsOf (i : ι) : σ → List (ι × α) → List ω
  | _, [] => []
  | s, (j, a) :: rest => (if j = i then out s a else []) ++ outputsOf i (step s a) rest

def final (s : σ) (schedule : List (ι × α)) : σ := (schedule.map Prod.snd).foldl step s

/-- Taken alone, every party keeps to its kind of inputs. -/
def Keeping (K : ι → σ → α → Prop) (s : σ) (schedule : List (ι × α)) : Prop :=
  ∀ i, Along step (K i) s (inputsOf i schedule)

variable {step out} {K : ι → σ → α → Prop}

theorem inputsOf_self (i : ι) (a : α) (rest : List (ι × α)) :
    inputsOf i ((i, a) :: rest) = a :: inputsOf i rest := by
  simp [inputsOf]

theorem inputsOf_of_ne {i j : ι} (h : j ≠ i) (a : α) (rest : List (ι × α)) :
    inputsOf i ((j, a) :: rest) = inputsOf i rest := by
  simp [inputsOf, h]

theorem inputsOf_append (i : ι) (pre post : List (ι × α)) :
    inputsOf i (pre ++ post) = inputsOf i pre ++ inputsOf i post := by
  simp [inputsOf]

theorem Keeping.head {s : σ} {j : ι} {a : α} {rest : List (ι × α)}
    (h : Keeping step K s ((j, a) :: rest)) : K j s a := by
  have hj := h j
  rw [inputsOf_self] at hj
  exact hj.1

/-- The other parties are where they were after an input of one. -/
theorem Keeping.tail (hK : Pairwise fun i j => Independent step out (K i) (K j)) {s : σ} {j : ι}
    {a : α} {rest : List (ι × α)} (h : Keeping step K s ((j, a) :: rest)) :
    Keeping step K (step s a) rest := by
  intro i
  have hi := h i
  by_cases hij : j = i
  · subst hij
    rw [inputsOf_self] at hi
    exact hi.2
  · rw [inputsOf_of_ne hij] at hi
    exact (hK (Ne.symm hij)).along hi h.head

/-- However the parties are scheduled, what is put out at the inputs of one is what it would get
    alone. -/
theorem outputsOf_eq (hK : Pairwise fun i j => Independent step out (K i) (K j)) {s : σ}
    {schedule : List (ι × α)} (h : Keeping step K s schedule) (i : ι) :
    outputsOf step out i s schedule = outputs step out s (inputsOf i schedule) := by
  induction schedule generalizing s with
  | nil => rfl
  | cons x rest ih =>
    obtain ⟨j, a⟩ := x
    have hi := h i
    change (if j = i then out s a else []) ++ outputsOf step out i (step s a) rest = _
    rw [ih (h.tail hK)]
    by_cases hij : j = i
    · subst hij
      rw [if_pos rfl, inputsOf_self]
      rfl
    · rw [inputsOf_of_ne hij] at hi ⊢
      rw [if_neg hij, List.nil_append]
      exact (hK hij).unseen h.head hi

/-- The first input of a party may be taken before those of the others that precede it. -/
theorem final_first (hK : Pairwise fun i j => Independent step out (K i) (K j)) {s : σ} {j : ι}
    {a : α} {pre post : List (ι × α)} (hpre : ∀ x ∈ pre, x.1 ≠ j)
    (h : Keeping step K s (pre ++ (j, a) :: post)) :
    final step s (pre ++ (j, a) :: post) = final step (step s a) (pre ++ post) := by
  induction pre generalizing s with
  | nil => rfl
  | cons x pre ih =>
    obtain ⟨k, b⟩ := x
    have hk : k ≠ j := hpre (k, b) List.mem_cons_self
    have hrest : ∀ x ∈ pre, x.1 ≠ j := fun x hx => hpre x (List.mem_cons_of_mem _ hx)
    have hnone : inputsOf j ((k, b) :: pre) = [] := by
      rw [inputsOf, List.filter_eq_nil_iff.mpr fun x hx => by simpa using hpre x hx]
      rfl
    have ha : K j s a := by
      have hj := h j
      rw [inputsOf_append, hnone, List.nil_append, inputsOf_self] at hj
      exact hj.1
    calc final step s ((k, b) :: pre ++ (j, a) :: post)
        = final step (step s b) (pre ++ (j, a) :: post) := rfl
      _ = final step (step (step s b) a) (pre ++ post) := ih hrest (h.tail hK)
      _ = final step (step (step s a) b) (pre ++ post) := by
        rw [((hK hk).commutes s b a h.head ha).state]
      _ = final step (step s a) ((k, b) :: pre ++ post) := rfl

theorem exists_first {j : ι} {a : α} {as : List α} {schedule : List (ι × α)}
    (h : inputsOf j schedule = a :: as) :
    ∃ pre post, schedule = pre ++ (j, a) :: post ∧ ∀ x ∈ pre, x.1 ≠ j := by
  induction schedule with
  | nil => cases h
  | cons x rest ih =>
    obtain ⟨k, b⟩ := x
    by_cases hk : k = j
    · subst hk
      rw [inputsOf_self] at h
      obtain ⟨rfl, _⟩ := List.cons.inj h
      exact ⟨[], rest, rfl, fun x hx => absurd hx List.not_mem_nil⟩
    · rw [inputsOf_of_ne hk] at h
      obtain ⟨pre, post, rfl, hpre⟩ := ih h
      refine ⟨(k, b) :: pre, post, rfl, ?_⟩
      intro x hx
      rcases List.mem_cons.mp hx with rfl | hx
      · exact hk
      · exact hpre x hx

/-- The last state depends on what each party puts in, and not on the order between parties. -/
theorem final_eq (hK : Pairwise fun i j => Independent step out (K i) (K j)) {s : σ}
    {schedule other : List (ι × α)} (h : Keeping step K s schedule)
    (hsame : ∀ i, inputsOf i other = inputsOf i schedule) :
    final step s other = final step s schedule := by
  induction schedule generalizing s other with
  | nil =>
    cases other with
    | nil => rfl
    | cons x rest =>
      have hx := hsame x.1
      rw [show x :: rest = (x.1, x.2) :: rest from rfl, inputsOf_self] at hx
      cases hx
  | cons x rest ih =>
    obtain ⟨j, a⟩ := x
    have hj := hsame j
    rw [inputsOf_self] at hj
    obtain ⟨pre, post, rfl, hpre⟩ := exists_first hj
    have hother : Keeping step K s (pre ++ (j, a) :: post) := by
      intro i
      rw [hsame i]
      exact h i
    rw [final_first hK hpre hother]
    refine (ih (h.tail hK) ?_).trans rfl
    intro i
    have hi := hsame i
    rw [inputsOf_append] at hi ⊢
    by_cases hij : j = i
    · subst hij
      have hnone : inputsOf j pre = [] := by
        rw [inputsOf, List.filter_eq_nil_iff.mpr fun x hx => by simpa using hpre x hx]
        rfl
      rw [hnone, List.nil_append, inputsOf_self, inputsOf_self] at hi
      rw [hnone, List.nil_append]
      exact (List.cons.inj hi).2
    · rw [inputsOf_of_ne hij, inputsOf_of_ne hij] at hi
      exact hi

end

end RustPipeline.Schedules
