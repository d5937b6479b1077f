import RustPipeline.Thread

set_option autoImplicit false

/-!
# One entry of the registry

What an operation does to the thread registry is one entry put in or taken out. Two of them commute
exactly when they are entries of different chains, or both find the chain registered.
-/
namespace RustPipeline.RegistryTouches
open Thread ThreadRegistry PartialInverse

/-! ## One entry -/

/-- What an action does: an id for a chain that may have one already, or an id given up. -/
inductive Touch where
  | none
  | put (chain uuid : String)
  | drop (chain uuid : String)

namespace Touch

def apply (t : ThreadRegistry) : Touch → ThreadRegistry
  | .none => t
  | .put chain uuid => (t.getOrCreate chain uuid).2
  | .drop _ uuid => t.cleanup uuid

def chain : Touch → Option String
  | .none => Option.none
  | .put chain _ => some chain
  | .drop chain _ => some chain

def uuid : Touch → Option String
  | .none => Option.none
  | .put _ uuid => some uuid
  | .drop _ uuid => some uuid

/-- An id that is put in is unused, and one that is taken out has the chain. -/
def Valid (t : ThreadRegistry) : Touch → Prop
  | .none => True
  | .put _ uuid => t.uuidToChain uuid = Option.none
  | .drop chain uuid => t.uuidToChain uuid = some chain

end Touch

/-- The id of a chain behind the touch, from the id it has before. -/
def Touch.onChain (c : String) (old : Option String) : Touch → Option String
  | .none => old
  | .put d uuid => if c = d then some (old.getD uuid) else old
  | .drop d _ => if c = d then Option.none else old

theorem apply_put {t : ThreadRegistry} (c u : String) : (Touch.put c u).apply t =
    if (t.chainToUuid c).isSome then t else t.insert c u := by
  change (t.getOrCreate c u).2 = _
  unfold ThreadRegistry.getOrCreate
  cases t.chainToUuid c with
  | some v => rfl
  | none => rfl

theorem apply_drop {t : ThreadRegistry} {c u : String} (h : t.uuidToChain u = some c) :
    (Touch.drop c u).apply t = { t with
      uuidToChain := Function.update t.uuidToChain u none
      chainToUuid := Function.update t.chainToUuid c none } := by
  change t.cleanup u = _
  unfold ThreadRegistry.cleanup
  rw [h]

theorem chainToUuid_apply {t : ThreadRegistry} {x : Touch} (hx : x.Valid t) (c : String) :
    (x.apply t).chainToUuid c = x.onChain c (t.chainToUuid c) := by
  cases x with
  | none => rfl
  | put d u =>
    rw [apply_put, Touch.onChain]
    by_cases hc : c = d
    · subst hc
      cases hv : t.chainToUuid c with
      | some v => simp [hv]
      | none => simp [ThreadRegistry.insert]
    · split_ifs
      · rfl
      · exact Function.update_of_ne hc _ _
  | drop d u =>
    rw [apply_drop hx, Touch.onChain]
    by_cases hc : c = d
    · subst hc
      rw [if_pos rfl]
      exact Function.update_self _ _ _
    · rw [if_neg hc]
      exact Function.update_of_ne hc _ _

/-- A touch leaves the chains of all ids but its own alone. -/
theorem lookup_apply {t : ThreadRegistry} {x : Touch} (hx : x.Valid t) {id : String}
    (hid : x.uuid ≠ some id) : (x.apply t).lookup id = t.lookup id := by
  cases x with
  | none => rfl
  | put d u =>
    have hne : id ≠ u := fun h => hid (congrArg some h.symm)
    rw [apply_put]
    split_ifs
    · rfl
    · exact Function.update_of_ne hne _ _
  | drop d u =>
    have hne : id ≠ u := fun h => hid (congrArg some h.symm)
    rw [apply_drop hx]
    exact Function.update_of_ne hne _ _

theorem root_apply {t : ThreadRegistry} {x : Touch} (hx : x.Valid t) :
    (x.apply t).rootUuid = t.rootUuid ∧ (x.apply t).rootChain = t.rootChain := by
  cases x with
  | none => exact ⟨rfl, rfl⟩
  | put c u =>
    rw [apply_put]
    split_ifs <;> exact ⟨rfl, rfl⟩
  | drop c u =>
    rw [apply_drop hx]
    exact ⟨rfl, rfl⟩

theorem consistent_apply {t : ThreadRegistry} (h : Consistent t) {x : Touch} (hx : x.Valid t) :
    Consistent (x.apply t) := by
  cases x with
  | none => exact h
  | put c u => exact h.getOrCreate c hx
  | drop c u => exact h.cleanup u

theorem registry_eq {t s : ThreadRegistry} (hchain : t.chainToUuid = s.chainToUuid)
    (huuid : t.uuidToChain = s.uuidToChain) (hroot : t.rootUuid = s.rootUuid)
    (hrootChain : t.rootChain = s.rootChain) : t = s := by
  cases t with
  | mk f g r c =>
    cases s with
    | mk f' g' r' c' =>
      subst hchain huuid hroot hrootChain
      rfl

/-! ## Two entries -/

/-- The touches are of different chains, or both put an id in for a chain that has one. -/
def Compatible (t : ThreadRegistry) (x y : Touch) : Prop :=
  ∀ c, x.chain = some c → y.chain = some c →
    (t.chainToUuid c).isSome ∧ (∃ u, x = .put c u) ∧ ∃ v, y = .put c v

theorem Compatible.symm {t : ThreadRegistry} {x y : Touch} (h : Compatible t x y) :
    Compatible t y x := by
  intro c hy hx
  obtain ⟨hc, hput, hput'⟩ := h c hx hy
  exact ⟨hc, hput', hput⟩

theorem onChain_of_ne {x : Touch} {c : String} (h : x.chain ≠ some c) (old : Option String) :
    x.onChain c old = old := by
  cases x with
  | none => rfl
  | put d u => exact if_neg fun hc => h (congrArg some hc.symm)
  | drop d u => exact if_neg fun hc => h (congrArg some hc.symm)

theorem onChain_put (c u : String) (old : Option String) :
    (Touch.put c u).onChain c old = some (old.getD u) := if_pos rfl

theorem onChain_drop (c u : String) (old : Option String) :
    (Touch.drop c u).onChain c old = none := if_pos rfl

/-- A compatible touch leaves the id of the other's chain alone. -/
theorem Compatible.chainToUuid {t : ThreadRegistry} {x y : Touch} (h : Compatible t x y)
    (hx : x.Valid t) {c : String} (hy : y.chain = some c) :
    (x.apply t).chainToUuid c = t.chainToUuid c := by
  rw [chainToUuid_apply hx]
  by_cases hc : x.chain = some c
  · obtain ⟨hsome, ⟨u, rfl⟩, _⟩ := h c hc hy
    obtain ⟨v, hv⟩ := Option.isSome_iff_exists.mp hsome
    rw [onChain_put, hv, Option.getD_some]
  · exact onChain_of_ne hc _

theorem valid_apply {t : ThreadRegistry} {x y : Touch} (hx : x.Valid t) (hy : y.Valid t)
    (hu : ∀ u, x.uuid = some u → y.uuid ≠ some u) : y.Valid (x.apply t) := by
  cases y with
  | none => trivial
  | put c u => exact (lookup_apply hx fun h => hu u h rfl).trans hy
  | drop c u => exact (lookup_apply hx fun h => hu u h rfl).trans hy

/-- On each chain both orders agree exactly when the touches are compatible. -/
theorem onChain_comm_iff {t : ThreadRegistry} (ht : Consistent t) {x y : Touch} (hx : x.Valid t)
    (hy : y.Valid t) (hu : ∀ u, x.uuid = some u → y.uuid ≠ some u) :
    (∀ c, y.onChain c (x.onChain c (t.chainToUuid c)) =
      x.onChain c (y.onChain c (t.chainToUuid c))) ↔ Compatible t x y := by
  constructor
  · intro h c hxc hyc
    have hc := h c
    cases x with
    | none => cases hxc
    | put d u =>
      obtain rfl : d = c := Option.some_inj.mp hxc
      cases y with
      | none => cases hyc
      | put e v =>
        obtain rfl : e = d := Option.some_inj.mp hyc
        cases hv : t.chainToUuid e with
        | some w => exact ⟨rfl, ⟨u, rfl⟩, ⟨v, rfl⟩⟩
        | none =>
          simp only [hv, onChain_put, Option.getD_some, Option.getD_none, Option.some_inj] at hc
          exact absurd (congrArg some hc.symm) (hu u rfl)
      | drop e v =>
        obtain rfl : e = d := Option.some_inj.mp hyc
        simp [onChain_put, onChain_drop] at hc
    | drop d u =>
      obtain rfl : d = c := Option.some_inj.mp hxc
      cases y with
      | none => cases hyc
      | put e v =>
        obtain rfl : e = d := Option.some_inj.mp hyc
        simp [onChain_put, onChain_drop] at hc
      | drop e v =>
        obtain rfl : e = d := Option.some_inj.mp hyc
        exact absurd (congrArg some (Inverse.injective ht hy hx)) (hu u rfl)
  · intro h c
    by_cases hxc : x.chain = some c
    · by_cases hyc : y.chain = some c
      · obtain ⟨hsome, ⟨u, rfl⟩, ⟨v, rfl⟩⟩ := h c hxc hyc
        obtain ⟨w, hw⟩ := Option.isSome_iff_exists.mp hsome
        simp only [hw, onChain_put, Option.getD_some]
      · rw [onChain_of_ne hyc, onChain_of_ne hyc]
    · rw [onChain_of_ne hxc, onChain_of_ne hxc]

/-- Two touches commute exactly when they are compatible. -/
theorem apply_comm_iff {t : ThreadRegistry} (ht : Consistent t) {x y : Touch} (hx : x.Valid t)
    (hy : y.Valid t) (hu : ∀ u, x.uuid = some u → y.uuid ≠ some u) :
    y.apply (x.apply t) = x.apply (y.apply t) ↔ Compatible t x y := by
  have hxy := valid_apply hx hy hu
  have hyx := valid_apply hy hx fun u hv hw => hu u hw hv
  have hchain : ∀ c, (y.apply (x.apply t)).chainToUuid c =
      y.onChain c (x.onChain c (t.chainToUuid c)) := by
    intro c
    rw [chainToUuid_apply hxy, chainToUuid_apply hx]
  have hchain' : ∀ c, (x.apply (y.apply t)).chainToUuid c =
      x.onChain c (y.onChain c (t.chainToUuid c)) := by
    intro c
    rw [chainToUuid_apply hyx, chainToUuid_apply hy]
  rw [← onChain_comm_iff ht hx hy hu]
  constructor
  · intro h c
    rw [← hchain, ← hchain', h]
  · intro h
    have hmaps : (y.apply (x.apply t)).chainToUuid = (x.apply (y.apply t)).chainToUuid := by
      funext c
      rw [hchain, hchain', h c]
    have hback := consistent_apply (consistent_apply ht hx) hxy
    have hback' := consistent_apply (consistent_apply ht hy) hyx
    unfold Consistent at hback
    rw [hmaps] at hback
    have hroot := (root_apply hxy).1.trans (root_apply hx).1
    have hroot' := (root_apply hyx).1.trans (root_apply hy).1
    have hrootChain := (root_apply hxy).2.trans (root_apply hx).2
    have hrootChain' := (root_apply hyx).2.trans (root_apply hy).2
    exact registry_eq hmaps (hback.unique hback') (hroot.trans hroot'.symm)
      (hrootChain.trans hrootChain'.symm)

end RustPipeline.RegistryTouches
