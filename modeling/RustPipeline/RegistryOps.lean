import RustPipeline.Foundation.Runs
import RustPipeline.Thread

set_option autoImplicit false

/-!
# Runs of the registry's operations

The public operations in any order. The two maps stay inverse and the root's id stands for the
root chain exactly when no operation registers the root chain a second time or drops the root's id.
-/
namespace RustPipeline.RegistryOps
open Runs Separated PartialInverse Thread ThreadRegistry

inductive Op where
  | initializeRoot (organismName fresh : String)
  | getOrCreate (chain fresh : String)
  | startChain (initiator target fresh : String)
  | registerThread (threadId initiator target : String)
  | extendChain (currentUuid nextHop fresh : String)
  | pruneForResponse (threadId fresh : String)
  | cleanup (threadId : String)
  | clear

def perform (t : ThreadRegistry) : Op → ThreadRegistry
  | .initializeRoot organismName fresh => (t.initializeRoot organismName fresh).2
  | .getOrCreate chain fresh => (t.getOrCreate chain fresh).2
  | .startChain initiator target fresh => (t.startChain initiator target fresh).2
  | .registerThread threadId initiator target => (t.registerThread threadId initiator target).2
  | .extendChain currentUuid nextHop fresh => (t.extendChain currentUuid nextHop fresh).2
  | .pruneForResponse threadId fresh => (t.pruneForResponse threadId fresh).2
  | .cleanup threadId => t.cleanup threadId
  | .clear => t.clear

/-- The UUID that the operation may generate. -/
def Op.generated : Op → Option String
  | .initializeRoot _ fresh => some fresh
  | .getOrCreate _ fresh => some fresh
  | .startChain _ _ fresh => some fresh
  | .extendChain _ _ fresh => some fresh
  | .pruneForResponse _ fresh => some fresh
  | .registerThread _ _ _ => none
  | .cleanup _ => none
  | .clear => none

/-- A generated UUID is not in the registry. -/
def Unused (t : ThreadRegistry) (op : Op) : Prop :=
  ∀ fresh ∈ op.generated, t.uuidToChain fresh = none

instance (t : ThreadRegistry) (op : Op) : Decidable (Unused t op) :=
  inferInstanceAs (Decidable (∀ fresh ∈ op.generated, t.uuidToChain fresh = none))

structure Sound (t : ThreadRegistry) : Prop where
  inverse : Consistent t
  root : ∀ uuid, t.rootUuid = some uuid → t.lookup uuid = some t.rootChain

/-- The root is set on a chain that is not registered yet, and the root's id is not cleaned up. -/
def Keeps (t : ThreadRegistry) : Op → Prop
  | .initializeRoot organismName _ =>
      t.rootUuid = none → t.chainToUuid ("system." ++ organismName) = none
  | .cleanup threadId => t.rootUuid ≠ some threadId
  | _ => True

instance (t : ThreadRegistry) : ∀ op, Decidable (Keeps t op)
  | .initializeRoot organismName _ =>
      inferInstanceAs (Decidable (t.rootUuid = none →
        t.chainToUuid ("system." ++ organismName) = none))
  | .cleanup threadId => inferInstanceAs (Decidable (t.rootUuid ≠ some threadId))
  | .getOrCreate _ _ => isTrue trivial
  | .startChain _ _ _ => isTrue trivial
  | .registerThread _ _ _ => isTrue trivial
  | .extendChain _ _ _ => isTrue trivial
  | .pruneForResponse _ _ => isTrue trivial
  | .clear => isTrue trivial

/-- A set root has a chain of at least two parts, so that no answer cleans it up. -/
def RootDotted (t : ThreadRegistry) : Prop := t.rootUuid.isSome → '.' ∈ t.rootChain.toList

/-! ## What an operation leaves of the root -/

def SameRoot (t t' : ThreadRegistry) : Prop :=
  t'.rootUuid = t.rootUuid ∧ t'.rootChain = t.rootChain

theorem sameRoot_getOrCreate (t : ThreadRegistry) (chain fresh : String) :
    SameRoot t (t.getOrCreate chain fresh).2 := by
  unfold ThreadRegistry.getOrCreate
  cases t.chainToUuid chain with
  | some uuid => exact ⟨rfl, rfl⟩
  | none => exact ⟨rfl, rfl⟩

theorem sameRoot_registerThread (t : ThreadRegistry) (threadId initiator target : String) :
    SameRoot t (t.registerThread threadId initiator target).2 := by
  unfold ThreadRegistry.registerThread
  cases t.uuidToChain threadId with
  | some chain => exact ⟨rfl, rfl⟩
  | none =>
    cases hc : t.chainToUuid (t.rootedChain initiator target) with
    | some uuid => simp [hc, SameRoot]
    | none => simp [hc, SameRoot, ThreadRegistry.insert]

theorem sameRoot_cleanup (t : ThreadRegistry) (threadId : String) :
    SameRoot t (t.cleanup threadId) := by
  unfold ThreadRegistry.cleanup
  cases t.uuidToChain threadId with
  | some chain => exact ⟨rfl, rfl⟩
  | none => exact ⟨rfl, rfl⟩

theorem sameRoot_pruneForResponse (t : ThreadRegistry) (threadId fresh : String) :
    SameRoot t (t.pruneForResponse threadId fresh).2 := by
  unfold ThreadRegistry.pruneForResponse
  cases t.uuidToChain threadId with
  | none => exact ⟨rfl, rfl⟩
  | some chain =>
    dsimp only
    split_ifs
    · exact sameRoot_cleanup t threadId
    · exact sameRoot_getOrCreate t _ fresh

theorem RootDotted.of_sameRoot {t t' : ThreadRegistry} (h : RootDotted t) (hs : SameRoot t t') :
    RootDotted t' := by
  unfold RootDotted
  rw [hs.1, hs.2]
  exact h

theorem RootDotted.perform {t : ThreadRegistry} (h : RootDotted t) (op : Op) :
    RootDotted (perform t op) := by
  cases op with
  | initializeRoot organismName fresh =>
    change RootDotted (t.initializeRoot organismName fresh).2
    unfold ThreadRegistry.initializeRoot
    cases hr : t.rootUuid with
    | some uuid => exact h
    | none =>
      intro _
      simp
  | getOrCreate chain fresh => exact h.of_sameRoot (sameRoot_getOrCreate t chain fresh)
  | startChain initiator target fresh => exact h.of_sameRoot (sameRoot_getOrCreate t _ fresh)
  | registerThread threadId initiator target =>
    exact h.of_sameRoot (sameRoot_registerThread t threadId initiator target)
  | extendChain currentUuid nextHop fresh => exact h.of_sameRoot (sameRoot_getOrCreate t _ fresh)
  | pruneForResponse threadId fresh =>
    exact h.of_sameRoot (sameRoot_pruneForResponse t threadId fresh)
  | cleanup threadId => exact h.of_sameRoot (sameRoot_cleanup t threadId)
  | clear =>
    intro hr
    cases hr

/-! ## One operation -/

theorem Sound.of_sameRoot {t t' : ThreadRegistry} (h : Sound t) (hs : SameRoot t t')
    (hc : Consistent t') (hl : ∀ uuid, t.rootUuid = some uuid →
      t.lookup uuid = some t.rootChain → t'.lookup uuid = some t.rootChain) : Sound t' where
  inverse := hc
  root uuid hu := by
    rw [hs.1] at hu
    rw [hs.2]
    exact hl uuid hu (h.root uuid hu)

theorem Sound.getOrCreate {t : ThreadRegistry} (h : Sound t) (chain : String) {fresh : String}
    (hf : t.uuidToChain fresh = none) : Sound (t.getOrCreate chain fresh).2 :=
  h.of_sameRoot (sameRoot_getOrCreate t chain fresh) (h.inverse.getOrCreate chain hf)
    fun _ _ hl => lookup_getOrCreate hf hl

theorem Sound.pruneForResponse {t : ThreadRegistry} (h : Sound t) (hd : RootDotted t)
    (threadId : String) {fresh : String} (hf : t.uuidToChain fresh = none) :
    Sound (t.pruneForResponse threadId fresh).2 := by
  refine h.of_sameRoot (sameRoot_pruneForResponse t threadId fresh)
    (h.inverse.pruneForResponse threadId hf) ?_
  intro uuid hu hl
  exact lookup_pruneForResponse hf hl (hd (Option.isSome_iff_exists.mpr ⟨uuid, hu⟩))

/-- An entry put over a registered chain leaves the chain's old id in one direction only. -/
theorem consistent_insert {t : ThreadRegistry} (h : Consistent t) (chain : String) {uuid : String}
    (hu : t.uuidToChain uuid = none) :
    Consistent (t.insert chain uuid) ↔ t.chainToUuid chain = none := by
  refine ⟨?_, h.insert hu⟩
  intro h'
  cases hc : t.chainToUuid chain with
  | none => rfl
  | some old =>
    have hold : t.uuidToChain old = some chain := (h old chain).mpr hc
    have hne : old ≠ uuid := by
      rintro rfl
      rw [hu] at hold
      cases hold
    have hback : (t.insert chain uuid).chainToUuid chain = some old :=
      (h' old chain).mp ((Function.update_of_ne hne _ _).trans hold)
    have hnew : (t.insert chain uuid).chainToUuid chain = some uuid := by
      simp [ThreadRegistry.insert]
    rw [hnew, Option.some_inj] at hback
    exact absurd hback.symm hne

theorem sound_initializeRoot {t : ThreadRegistry} (h : Sound t) (organismName : String)
    {fresh : String} (hf : t.uuidToChain fresh = none) :
    Sound (t.initializeRoot organismName fresh).2 ↔
      (t.rootUuid = none → t.chainToUuid ("system." ++ organismName) = none) := by
  unfold ThreadRegistry.initializeRoot
  cases hr : t.rootUuid with
  | some uuid =>
    refine iff_of_true h ?_
    intro hn
    cases hn
  | none =>
    constructor
    · intro h' _
      exact (consistent_insert h.inverse _ hf).mp h'.inverse
    · intro hc
      refine ⟨h.inverse.insert hf (hc rfl), ?_⟩
      intro uuid hu
      obtain rfl : fresh = uuid := Option.some_inj.mp hu
      exact Function.update_self fresh _ t.uuidToChain

theorem sound_cleanup {t : ThreadRegistry} (h : Sound t) (threadId : String) :
    Sound (t.cleanup threadId) ↔ t.rootUuid ≠ some threadId := by
  constructor
  · intro h' hr
    have hl := h.root threadId hr
    have hl' := h'.root threadId ((sameRoot_cleanup t threadId).1.trans hr)
    unfold ThreadRegistry.cleanup ThreadRegistry.lookup at hl'
    unfold ThreadRegistry.lookup at hl
    rw [hl] at hl'
    have hgone : (none : Option String) = some t.rootChain :=
      (Function.update_self threadId none t.uuidToChain).symm.trans hl'
    cases hgone
  · intro hne
    refine h.of_sameRoot (sameRoot_cleanup t threadId) (h.inverse.cleanup threadId) ?_
    intro uuid hu hl
    refine lookup_cleanup ?_ hl
    rintro rfl
    exact hne hu

theorem sound_clear (t : ThreadRegistry) : Sound t.clear where
  inverse := PartialInverse.inverse_empty
  root _ hu := nomatch hu

theorem sound_perform {t : ThreadRegistry} (hd : RootDotted t) (h : Sound t) {op : Op}
    (hf : Unused t op) : Sound (perform t op) ↔ Keeps t op := by
  cases op with
  | initializeRoot organismName fresh => exact sound_initializeRoot h organismName (hf _ rfl)
  | getOrCreate chain fresh => exact iff_of_true (h.getOrCreate chain (hf _ rfl)) trivial
  | startChain initiator target fresh => exact iff_of_true (h.getOrCreate _ (hf _ rfl)) trivial
  | registerThread threadId initiator target =>
    refine iff_of_true ?_ trivial
    exact h.of_sameRoot (sameRoot_registerThread t threadId initiator target)
      (h.inverse.registerThread threadId initiator target) fun _ _ hl => lookup_registerThread hl
  | extendChain currentUuid nextHop fresh =>
    exact iff_of_true (h.getOrCreate _ (hf _ rfl)) trivial
  | pruneForResponse threadId fresh =>
    exact iff_of_true (h.pruneForResponse hd threadId (hf _ rfl)) trivial
  | cleanup threadId => exact sound_cleanup h threadId
  | clear => exact iff_of_true (sound_clear t) trivial

/-! ## What holds in any order -/

/-- Every registered chain has the id that has it. -/
def Filed (t : ThreadRegistry) : Prop := Backed t.uuidToChain t.chainToUuid

theorem Filed.insert {t : ThreadRegistry} (h : Filed t) (chain : String) {uuid : String}
    (hu : t.uuidToChain uuid = none) : Filed (t.insert chain uuid) := Backed.insert h hu

theorem Filed.getOrCreate {t : ThreadRegistry} (h : Filed t) (chain : String) {fresh : String}
    (hf : t.uuidToChain fresh = none) : Filed (t.getOrCreate chain fresh).2 := by
  unfold ThreadRegistry.getOrCreate
  cases t.chainToUuid chain with
  | some uuid => exact h
  | none => exact h.insert chain hf

theorem Filed.registerThread {t : ThreadRegistry} (h : Filed t)
    (threadId initiator target : String) :
    Filed (t.registerThread threadId initiator target).2 := by
  unfold ThreadRegistry.registerThread
  cases hu : t.uuidToChain threadId with
  | some chain => exact h
  | none =>
    cases hc : t.chainToUuid (t.rootedChain initiator target) with
    | some uuid => simpa [hc] using h
    | none => simpa [hc] using h.insert _ hu

theorem Filed.cleanup {t : ThreadRegistry} (h : Filed t) (threadId : String) :
    Filed (t.cleanup threadId) := by
  unfold ThreadRegistry.cleanup
  cases hu : t.uuidToChain threadId with
  | none => exact h
  | some chain => exact Backed.erase h hu

theorem Filed.pruneForResponse {t : ThreadRegistry} (h : Filed t) (threadId : String)
    {fresh : String} (hf : t.uuidToChain fresh = none) :
    Filed (t.pruneForResponse threadId fresh).2 := by
  unfold ThreadRegistry.pruneForResponse
  cases t.uuidToChain threadId with
  | none => exact h
  | some chain =>
    dsimp only
    split_ifs
    · exact h.cleanup threadId
    · exact h.getOrCreate _ hf

theorem Filed.perform {t : ThreadRegistry} (h : Filed t) {op : Op} (hf : Unused t op) :
    Filed (perform t op) := by
  cases op with
  | initializeRoot organismName fresh =>
    change Filed (t.initializeRoot organismName fresh).2
    unfold ThreadRegistry.initializeRoot
    cases t.rootUuid with
    | some uuid => exact h
    | none => exact h.insert _ (hf fresh rfl)
  | getOrCreate chain fresh => exact h.getOrCreate chain (hf fresh rfl)
  | startChain initiator target fresh => exact h.getOrCreate _ (hf fresh rfl)
  | registerThread threadId initiator target => exact h.registerThread threadId initiator target
  | extendChain currentUuid nextHop fresh => exact h.getOrCreate _ (hf fresh rfl)
  | pruneForResponse threadId fresh => exact h.pruneForResponse threadId (hf fresh rfl)
  | cleanup threadId => exact h.cleanup threadId
  | clear =>
    intro chain uuid hc
    cases hc

/-- Whatever the order of the operations. -/
theorem filed_of_ops {ops : List Op} (hops : Along perform Unused .new ops) :
    Filed (ops.foldl perform .new) := by
  apply hops.invariant
  · intro t op h hf
    exact h.perform hf
  · intro chain uuid hc
    cases hc

/-! ## Every run -/

theorem sound_new : Sound .new where
  inverse := consistent_new
  root _ hu := nomatch hu

theorem rootDotted_new : RootDotted .new := by
  intro hr
  cases hr

/-- The registry is sound at every moment of a run exactly when no operation of the run sets the
root on a registered chain or cleans the root's id up. -/
theorem sound_throughout_iff (ops : List Op) (hf : Along perform Unused .new ops) :
    Throughout perform Sound .new ops ↔ Along perform Keeps .new ops :=
  throughout_iff (fun _ op hd _ => hd.perform op) (fun _ _ hd h hu => sound_perform hd h hu)
    rootDotted_new sound_new hf

/-- Every operation once or twice, the root's among them. -/
def anyOrder : List Op :=
  [.initializeRoot "org" "u1", .registerThread "t" "console" "alice", .extendChain "t" "bob" "u2",
    .pruneForResponse "u2" "u3", .cleanup "t", .initializeRoot "org" "u3", .clear,
    .startChain "console" "alice" "u3"]

theorem sound_throughout_anyOrder :
    Throughout perform Sound .new anyOrder ↔ Along perform Keeps .new anyOrder :=
  sound_throughout_iff anyOrder (by decide)

example : Along perform Keeps .new anyOrder := by decide

/-! ## The two operations that break it -/

/-- A host registers the root's chain itself and sets the root afterwards: two ids share it. -/
def lateRoot : List Op := [.getOrCreate "system.org" "u1", .initializeRoot "org" "u2"]

/-- A host cleans the root's id up: `root_uuid` keeps an id without a chain. -/
def rootCleaned : List Op := [.initializeRoot "org" "u1", .cleanup "u1"]

theorem not_sound_throughout :
    (Along perform Unused .new lateRoot ∧ ¬ Throughout perform Sound .new lateRoot) ∧
      (Along perform Unused .new rootCleaned ∧ ¬ Throughout perform Sound .new rootCleaned) := by
  constructor
  · refine ⟨by decide, ?_⟩
    intro h
    have hs : Sound (lateRoot.foldl perform .new) := h _ List.prefix_rfl
    have h1 : (lateRoot.foldl perform .new).uuidToChain "u1" = some "system.org" := by decide
    have h2 : (lateRoot.foldl perform .new).uuidToChain "u2" = some "system.org" := by decide
    exact absurd (hs.inverse.injective h1 h2) (by decide)
  · refine ⟨by decide, ?_⟩
    intro h
    have hs : Sound (rootCleaned.foldl perform .new) := h _ List.prefix_rfl
    have hl := hs.root "u1" (by decide)
    revert hl
    decide

end RustPipeline.RegistryOps
