import RustPipeline.Foundation.PartialInverse
import RustPipeline.Foundation.Separated

set_option autoImplicit false

/-!
# The thread registry

Thread ids and the dot-separated call chains they stand for. A generated UUID is an argument,
`fresh`, of the operation that asks for one.
-/
namespace RustPipeline.Thread
open PartialInverse Separated

structure ThreadRegistry where
  chainToUuid : String → Option String
  uuidToChain : String → Option String
  rootUuid : Option String
  rootChain : String

structure PruneResult where
  target : String
  threadId : String
  deriving DecidableEq

namespace ThreadRegistry

def new : ThreadRegistry := ⟨fun _ => none, fun _ => none, none, "system"⟩

def insert (t : ThreadRegistry) (chain uuid : String) : ThreadRegistry :=
  { t with
    chainToUuid := Function.update t.chainToUuid chain (some uuid)
    uuidToChain := Function.update t.uuidToChain uuid (some chain) }

def initializeRoot (t : ThreadRegistry) (organismName fresh : String) : String × ThreadRegistry :=
  match t.rootUuid with
  | some uuid => (uuid, t)
  | none =>
    let chain := "system." ++ organismName
    (fresh, { t.insert chain fresh with rootUuid := some fresh, rootChain := chain })

def lookup (t : ThreadRegistry) (threadId : String) : Option String := t.uuidToChain threadId

def getOrCreate (t : ThreadRegistry) (chain fresh : String) : String × ThreadRegistry :=
  match t.chainToUuid chain with
  | some uuid => (uuid, t)
  | none => (fresh, t.insert chain fresh)

def startChain (t : ThreadRegistry) (initiator target fresh : String) : String × ThreadRegistry :=
  t.getOrCreate (initiator ++ "." ++ target) fresh

/-- The chain `register_thread` gives a new conversation. -/
def rootedChain (t : ThreadRegistry) (initiator target : String) : String :=
  if t.rootUuid.isSome then t.rootChain ++ "." ++ (initiator ++ "." ++ target)
  else initiator ++ "." ++ target

def registerThread (t : ThreadRegistry) (threadId initiator target : String) :
    String × ThreadRegistry :=
  if (t.uuidToChain threadId).isSome then (threadId, t)
  else
    let chain := t.rootedChain initiator target
    match t.chainToUuid chain with
    | some existing => (existing, t)
    | none => (threadId, t.insert chain threadId)

def extendedChain (currentChain nextHop : String) : String :=
  if currentChain = "" then nextHop else currentChain ++ "." ++ nextHop

/-- The new chain gets its thread id the way `getOrCreate` gives one. -/
def extendChain (t : ThreadRegistry) (currentUuid nextHop fresh : String) :
    String × ThreadRegistry :=
  t.getOrCreate (extendedChain ((t.uuidToChain currentUuid).getD "") nextHop) fresh

def cleanup (t : ThreadRegistry) (threadId : String) : ThreadRegistry :=
  match t.uuidToChain threadId with
  | some chain =>
    { t with
      uuidToChain := Function.update t.uuidToChain threadId none
      chainToUuid := Function.update t.chainToUuid chain none }
  | none => t

def pruneForResponse (t : ThreadRegistry) (threadId fresh : String) :
    Option PruneResult × ThreadRegistry :=
  match t.uuidToChain threadId with
  | none => (none, t)
  | some chain =>
    let parts := split '.' chain
    if parts.length ≤ 1 then (none, t.cleanup threadId)
    else
      let (uuid, t) := t.getOrCreate (join '.' parts.dropLast) fresh
      (some ⟨parts.dropLast.getLastD "", uuid⟩, t)

def clear (t : ThreadRegistry) : ThreadRegistry :=
  { t with
    chainToUuid := fun _ => none
    uuidToChain := fun _ => none
    rootUuid := none
    rootChain := "system" }

end ThreadRegistry

open ThreadRegistry

/-! ## The two maps stay inverse -/

def Consistent (t : ThreadRegistry) : Prop := Inverse t.uuidToChain t.chainToUuid

theorem consistent_new : Consistent ThreadRegistry.new := inverse_empty

theorem Consistent.insert {t : ThreadRegistry} (h : Consistent t) {chain uuid : String}
    (hu : t.uuidToChain uuid = none) (hc : t.chainToUuid chain = none) :
    Consistent (t.insert chain uuid) := Inverse.insert h hu hc

theorem Consistent.getOrCreate {t : ThreadRegistry} (h : Consistent t) (chain : String)
    {fresh : String} (hf : t.uuidToChain fresh = none) : Consistent (t.getOrCreate chain fresh).2 := by
  unfold ThreadRegistry.getOrCreate
  cases hc : t.chainToUuid chain with
  | some uuid => exact h
  | none => exact h.insert hf hc

theorem Consistent.registerThread {t : ThreadRegistry} (h : Consistent t)
    (threadId initiator target : String) :
    Consistent (t.registerThread threadId initiator target).2 := by
  unfold ThreadRegistry.registerThread
  cases hu : t.uuidToChain threadId with
  | some chain => exact h
  | none =>
    cases hc : t.chainToUuid (t.rootedChain initiator target) with
    | some uuid => simpa [hc] using h
    | none => simpa [hc] using h.insert hu hc

theorem Consistent.extendChain {t : ThreadRegistry} (h : Consistent t) (current hop : String)
    {fresh : String} (hf : t.uuidToChain fresh = none) :
    Consistent (t.extendChain current hop fresh).2 := h.getOrCreate _ hf

theorem Consistent.cleanup {t : ThreadRegistry} (h : Consistent t) (threadId : String) :
    Consistent (t.cleanup threadId) := by
  unfold ThreadRegistry.cleanup
  cases hu : t.uuidToChain threadId with
  | none => exact h
  | some chain => exact Inverse.erase h hu

theorem Consistent.pruneForResponse {t : ThreadRegistry} (h : Consistent t) (threadId : String)
    {fresh : String} (hf : t.uuidToChain fresh = none) :
    Consistent (t.pruneForResponse threadId fresh).2 := by
  unfold ThreadRegistry.pruneForResponse
  cases t.uuidToChain threadId with
  | none => exact h
  | some chain =>
    dsimp only
    split_ifs
    · exact h.cleanup threadId
    · exact h.getOrCreate _ hf

theorem Consistent.initializeRoot {t : ThreadRegistry} (h : Consistent t) (organismName : String)
    {fresh : String} (hf : t.uuidToChain fresh = none)
    (hc : t.chainToUuid ("system." ++ organismName) = none) :
    Consistent (t.initializeRoot organismName fresh).2 := by
  unfold ThreadRegistry.initializeRoot
  cases t.rootUuid with
  | some uuid => exact h
  | none => exact h.insert hf hc

/-! ## What the operations answer -/

theorem getOrCreate_chain (t : ThreadRegistry) (chain fresh : String) :
    (t.getOrCreate chain fresh).2.chainToUuid chain = some (t.getOrCreate chain fresh).1 := by
  unfold ThreadRegistry.getOrCreate
  cases hc : t.chainToUuid chain with
  | some uuid => exact hc
  | none => exact Function.update_self chain (some fresh) t.chainToUuid

theorem getOrCreate_of_some {t : ThreadRegistry} {chain uuid : String} (fresh : String)
    (h : t.chainToUuid chain = some uuid) : t.getOrCreate chain fresh = (uuid, t) := by
  unfold ThreadRegistry.getOrCreate
  rw [h]

theorem registerThread_lookup (t : ThreadRegistry) (threadId initiator target : String) :
    ((t.registerThread threadId initiator target).2.lookup threadId).isSome ↔
      (t.lookup threadId).isSome ∨ t.chainToUuid (t.rootedChain initiator target) = none := by
  unfold ThreadRegistry.registerThread ThreadRegistry.lookup
  cases hu : t.uuidToChain threadId with
  | some chain => simp [hu]
  | none =>
    cases hc : t.chainToUuid (t.rootedChain initiator target) with
    | some uuid => simp [hc, hu]
    | none => simp [hc, ThreadRegistry.insert]

theorem registerThread_of_free {t : ThreadRegistry} {threadId initiator target : String}
    (hu : t.uuidToChain threadId = none)
    (hc : t.chainToUuid (t.rootedChain initiator target) = none) :
    (t.registerThread threadId initiator target).2.lookup threadId =
      some (t.rootedChain initiator target) := by
  unfold ThreadRegistry.registerThread ThreadRegistry.lookup
  simp [hu, hc, ThreadRegistry.insert]

theorem pruneForResponse_some {t : ThreadRegistry} {threadId chain : String} (fresh : String)
    (h : t.lookup threadId = some chain) (hd : '.' ∈ chain.toList) :
    t.pruneForResponse threadId fresh =
      (some ⟨(split '.' chain).dropLast.getLastD "",
        (t.getOrCreate (parent '.' chain) fresh).1⟩,
        (t.getOrCreate (parent '.' chain) fresh).2) := by
  have hl := mem_iff_length_split.mp hd
  unfold ThreadRegistry.lookup at h
  unfold ThreadRegistry.pruneForResponse
  rw [h]
  dsimp only
  rw [if_neg (by omega)]
  rfl

theorem pruneForResponse_isSome (t : ThreadRegistry) (threadId fresh : String) :
    (t.pruneForResponse threadId fresh).1.isSome ↔
      ∃ chain, t.lookup threadId = some chain ∧ '.' ∈ chain.toList := by
  unfold ThreadRegistry.pruneForResponse ThreadRegistry.lookup
  cases t.uuidToChain threadId with
  | none => simp
  | some chain =>
    by_cases hd : '.' ∈ chain.toList
    · have hl := mem_iff_length_split.mp hd
      simp [if_neg (show ¬ (split '.' chain).length ≤ 1 by omega), hd]
    · have hl : (split '.' chain).length ≤ 1 := by
        rw [split_of_notMem hd, List.length_singleton]
      simp [if_pos hl, hd]

/-! ## Chains with a caller are never dropped -/

theorem lookup_insert {t : ThreadRegistry} {chain uuid id c : String}
    (hu : t.uuidToChain uuid = none) (h : t.lookup id = some c) :
    (t.insert chain uuid).lookup id = some c := by
  have hne : id ≠ uuid := by
    rintro rfl
    unfold ThreadRegistry.lookup at h
    rw [hu] at h
    cases h
  exact (Function.update_of_ne hne _ _).trans h

theorem lookup_getOrCreate {t : ThreadRegistry} {chain fresh id c : String}
    (hf : t.uuidToChain fresh = none) (h : t.lookup id = some c) :
    (t.getOrCreate chain fresh).2.lookup id = some c := by
  unfold ThreadRegistry.getOrCreate
  cases t.chainToUuid chain with
  | some uuid => exact h
  | none => exact lookup_insert hf h

theorem lookup_registerThread {t : ThreadRegistry} {threadId initiator target id c : String}
    (h : t.lookup id = some c) :
    (t.registerThread threadId initiator target).2.lookup id = some c := by
  unfold ThreadRegistry.registerThread
  cases hu : t.uuidToChain threadId with
  | some chain => exact h
  | none =>
    cases hc : t.chainToUuid (t.rootedChain initiator target) with
    | some uuid => simpa [hc] using h
    | none => simpa [hc] using lookup_insert hu h

theorem lookup_cleanup {t : ThreadRegistry} {threadId id c : String} (hne : id ≠ threadId)
    (h : t.lookup id = some c) : (t.cleanup threadId).lookup id = some c := by
  unfold ThreadRegistry.cleanup
  cases t.uuidToChain threadId with
  | none => exact h
  | some chain => exact (Function.update_of_ne hne _ _).trans h

theorem lookup_pruneForResponse {t : ThreadRegistry} {threadId fresh id c : String}
    (hf : t.uuidToChain fresh = none) (h : t.lookup id = some c) (hd : '.' ∈ c.toList) :
    (t.pruneForResponse threadId fresh).2.lookup id = some c := by
  unfold ThreadRegistry.pruneForResponse
  cases hu : t.uuidToChain threadId with
  | none => exact h
  | some chain =>
    dsimp only
    split_ifs with hl
    · refine lookup_cleanup ?_ h
      rintro rfl
      unfold ThreadRegistry.lookup at h
      rw [hu, Option.some_inj] at h
      subst h
      have := mem_iff_length_split.mp hd
      omega
    · exact lookup_getOrCreate hf h

end RustPipeline.Thread
