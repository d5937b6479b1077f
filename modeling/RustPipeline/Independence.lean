import RustPipeline.Foundation.Schedules
import RustPipeline.RegistryTouches
import RustPipeline.StageFlow

set_option autoImplicit false

/-!
# Steps that commute

What a step of the pipeline touches in the thread registry: one entry, which is put in or taken out.
Two steps on different threads commute exactly when they touch different chains, or both only look
one up.
-/
namespace RustPipeline.Independence
open Text Wire Codec Handling Routing Registry Thread Federation Pipeline PipelineEffects
open Ingress PipelineRuns Separated Schedules RegistryTouches
open StageFlow (gates gates_eq_some_iff)

variable {F : Type}

/-! ## Actions -/

/-- An ingress item is routed, or a message is handled, with whatever its handler has left. -/
inductive Action (F : Type) where
  | ingress (raw : Bytes)
  | handle (msg : RoutedMsg F) (result : Option (Except PipelineError (HandlerResponse F)))
      (fresh : String)

/-- What the stages make of an item, and what handling a message puts on the ingress or tells the
    observer. -/
inductive Visible (F : Type) where
  | outcome (o : IngressOutcome F)
  | effect (e : Effect F)

section
variable (P : Platform F) (registry : ListenerRegistry F) (federation : Option PeerDirectory)

def perform (t : ThreadRegistry) : Action F → ThreadRegistry
  | .ingress raw => (ingress P registry federation t raw).1
  | .handle msg result fresh => (processResult P registry t fresh msg result).1

def shown (t : ThreadRegistry) : Action F → List (Visible F)
  | .ingress raw => [.outcome (ingress P registry federation t raw).2]
  | .handle msg result fresh => (processResult P registry t fresh msg result).2.map .effect

/-- The thread of the message that the action is about. -/
def thread : Action F → Option String
  | .ingress raw => (gates P registry federation raw).map fun m => m.envelope.header.thread
  | .handle msg _ _ => some msg.envelope.header.thread

end

def generated : Action F → Option String
  | .ingress _ => none
  | .handle _ _ fresh => some fresh

/-! ## What an action touches -/

def pruneTouch (t : ThreadRegistry) (threadId fresh : String) : Touch :=
  match t.lookup threadId with
  | none => .none
  | some chain => if '.' ∈ chain.toList then .put (parent '.' chain) fresh else .drop chain threadId

def extendTouch (t : ThreadRegistry) (threadId hop fresh : String) : Touch :=
  .put (ThreadRegistry.extendedChain ((t.lookup threadId).getD "") hop) fresh

def registerTouch (t : ThreadRegistry) (threadId initiator target : String) : Touch :=
  match t.lookup threadId with
  | none => .put (t.rootedChain initiator target) threadId
  | some _ => .none

def callTouch (registry : ListenerRegistry F) (t : ThreadRegistry) (fresh : String)
    (msg : RoutedMsg F) (toAddr : Address) : Touch :=
  match registry.routing.enforcePeers msg.targetName toAddr.organismName with
  | .ok () => extendTouch t msg.envelope.header.thread toAddr.organismName fresh
  | .error _ => .none

def respondTouch (registry : ListenerRegistry F) (t : ThreadRegistry) (fresh : String)
    (msg : RoutedMsg F) : HandlerResponse F → Touch
  | .none => pruneTouch t msg.envelope.header.thread fresh
  | .reply _ => pruneTouch t msg.envelope.header.thread fresh
  | .spawn toAddr _ => callTouch registry t fresh msg toAddr
  | .send toAddr _ => callTouch registry t fresh msg toAddr

def handlingTouch (registry : ListenerRegistry F) (t : ThreadRegistry) (fresh : String)
    (msg : RoutedMsg F) : Option (Except PipelineError (HandlerResponse F)) → Touch
  | some (.ok response) => respondTouch registry t fresh msg response
  | some (.error _) => .none
  | none => .none

def arrivalTouch (t : ThreadRegistry) : Option (RoutedMsg F) → Touch
  | some m => registerTouch t m.envelope.header.thread m.envelope.header.fromAddr.organismName
      m.targetName
  | none => .none

theorem pruneTouch_apply (t : ThreadRegistry) (threadId fresh : String) :
    (t.pruneForResponse threadId fresh).2 = (pruneTouch t threadId fresh).apply t := by
  unfold pruneTouch
  cases hl : t.lookup threadId with
  | none =>
    unfold ThreadRegistry.lookup at hl
    unfold ThreadRegistry.pruneForResponse
    rw [hl]
    rfl
  | some chain =>
    dsimp only
    by_cases hd : '.' ∈ chain.toList
    · rw [if_pos hd, pruneForResponse_some fresh hl hd]
      rfl
    · rw [if_neg hd]
      unfold ThreadRegistry.lookup at hl
      unfold ThreadRegistry.pruneForResponse
      rw [hl]
      dsimp only
      rw [split_of_notMem hd, if_pos (by simp)]
      rfl

theorem registerTouch_apply (t : ThreadRegistry) (threadId initiator target : String) :
    registerThread t threadId initiator target =
      (registerTouch t threadId initiator target).apply t := by
  unfold registerThread registerTouch
  cases hl : t.lookup threadId with
  | some chain => rfl
  | none =>
    unfold ThreadRegistry.lookup at hl
    dsimp only
    rw [apply_put]
    unfold ThreadRegistry.registerThread
    rw [hl]
    dsimp only
    cases t.chainToUuid (t.rootedChain initiator target) with
    | some uuid => rfl
    | none => rfl

def touch (P : Platform F) (registry : ListenerRegistry F) (federation : Option PeerDirectory)
    (t : ThreadRegistry) : Action F → Touch
  | .ingress raw => arrivalTouch t (gates P registry federation raw)
  | .handle msg result fresh => handlingTouch registry t fresh msg result

variable {P : Platform F} {registry : ListenerRegistry F} {federation : Option PeerDirectory}

theorem respondTouch_apply (t : ThreadRegistry) (fresh : String) (msg : RoutedMsg F)
    (response : HandlerResponse F) : (respond P registry t fresh msg response).1 =
      (respondTouch registry t fresh msg response).apply t := by
  cases response with
  | none => exact (answerUp_threads P _ _ _ _).trans (pruneTouch_apply _ _ _)
  | reply payload => exact (answerUp_threads P _ _ _ _).trans (pruneTouch_apply _ _ _)
  | spawn toAddr payload =>
    unfold respond respondTouch spawnCall callTouch
    dsimp only
    cases registry.routing.enforcePeers msg.targetName toAddr.organismName with
    | error e => rfl
    | ok u => rfl
  | send toAddr payload =>
    unfold respond respondTouch sendCall callTouch
    dsimp only
    cases registry.routing.enforcePeers msg.targetName toAddr.organismName with
    | error e => rfl
    | ok u => rfl

theorem perform_eq (t : ThreadRegistry) (a : Action F) :
    perform P registry federation t a = (touch P registry federation t a).apply t := by
  cases a with
  | ingress raw =>
    change (ingress P registry federation t raw).1 =
      (arrivalTouch t (gates P registry federation raw)).apply t
    cases hg : gates P registry federation raw with
    | some m =>
      rw [(ingress_forwarded P ((gates_eq_some_iff t raw m).mp hg)).2]
      exact registerTouch_apply _ _ _ _
    | none =>
      apply ingress_threads P
      intro routed hr
      rw [(gates_eq_some_iff t raw routed).mpr hr] at hg
      cases hg
  | handle msg result fresh =>
    cases result with
    | none => rfl
    | some result =>
      cases result with
      | error e => rfl
      | ok response => exact respondTouch_apply t fresh msg response

/-! ## What a touch depends on -/

/-- Two registries that agree on a thread's chain and on the root. -/
structure Alike (t s : ThreadRegistry) (threadId : String) : Prop where
  lookup : s.lookup threadId = t.lookup threadId
  rootUuid : s.rootUuid = t.rootUuid
  rootChain : s.rootChain = t.rootChain

theorem respondTouch_congr {t s : ThreadRegistry} {msg : RoutedMsg F}
    (h : Alike t s msg.envelope.header.thread) (fresh : String) (response : HandlerResponse F) :
    respondTouch registry s fresh msg response =
      respondTouch registry t fresh msg response := by
  cases response with
  | none => simp only [respondTouch, pruneTouch, h.lookup]
  | reply payload => simp only [respondTouch, pruneTouch, h.lookup]
  | spawn toAddr payload => simp only [respondTouch, callTouch, extendTouch, h.lookup]
  | send toAddr payload => simp only [respondTouch, callTouch, extendTouch, h.lookup]

theorem touch_congr {t s : ThreadRegistry} {a : Action F}
    (h : ∀ id, thread P registry federation a = some id → Alike t s id) :
    touch P registry federation s a = touch P registry federation t a := by
  cases a with
  | ingress raw =>
    change arrivalTouch s (gates P registry federation raw) =
      arrivalTouch t (gates P registry federation raw)
    cases hg : gates P registry federation raw with
    | none => rfl
    | some m =>
      have hm := h m.envelope.header.thread (by rw [thread, hg, Option.map_some])
      simp only [arrivalTouch, registerTouch, ThreadRegistry.rootedChain, hm.lookup, hm.rootUuid,
        hm.rootChain]
  | handle msg result fresh =>
    cases result with
    | none => rfl
    | some result =>
      cases result with
      | error e => rfl
      | ok response => exact respondTouch_congr (h _ rfl) fresh response

theorem pruneTouch_valid {t : ThreadRegistry} {fresh : String} (hf : t.uuidToChain fresh = none)
    (threadId : String) : (pruneTouch t threadId fresh).Valid t := by
  unfold pruneTouch
  cases hl : t.lookup threadId with
  | none => trivial
  | some chain =>
    dsimp only
    split_ifs
    · exact hf
    · exact hl

theorem callTouch_valid {registry : ListenerRegistry F} {t : ThreadRegistry} {fresh : String}
    (hf : t.uuidToChain fresh = none) (msg : RoutedMsg F) (toAddr : Address) :
    (callTouch registry t fresh msg toAddr).Valid t := by
  unfold callTouch
  cases registry.routing.enforcePeers msg.targetName toAddr.organismName with
  | error e => trivial
  | ok u => exact hf

theorem touch_valid {t : ThreadRegistry} {a : Action F}
    (hf : ∀ fresh, generated a = some fresh → t.uuidToChain fresh = none) :
    (touch P registry federation t a).Valid t := by
  cases a with
  | ingress raw =>
    change (arrivalTouch t (gates P registry federation raw)).Valid t
    cases gates P registry federation raw with
    | none => trivial
    | some m =>
      change (registerTouch t _ _ _).Valid t
      unfold registerTouch
      cases hl : t.lookup m.envelope.header.thread with
      | none => exact hl
      | some chain => trivial
  | handle msg result fresh =>
    have hfresh := hf fresh rfl
    cases result with
    | none => trivial
    | some result =>
      cases result with
      | error e => trivial
      | ok response =>
        cases response with
        | none => exact pruneTouch_valid hfresh _
        | reply payload => exact pruneTouch_valid hfresh _
        | spawn toAddr payload => exact callTouch_valid hfresh msg toAddr
        | send toAddr payload => exact callTouch_valid hfresh msg toAddr

theorem pruneTouch_uuid {t : ThreadRegistry} {threadId fresh u : String}
    (h : (pruneTouch t threadId fresh).uuid = some u) : u = threadId ∨ u = fresh := by
  unfold pruneTouch at h
  cases hl : t.lookup threadId with
  | none =>
    rw [hl] at h
    cases h
  | some chain =>
    rw [hl] at h
    dsimp only at h
    split_ifs at h
    · exact .inr (Option.some_inj.mp h).symm
    · exact .inl (Option.some_inj.mp h).symm

theorem callTouch_uuid {registry : ListenerRegistry F} {t : ThreadRegistry} {fresh u : String}
    {msg : RoutedMsg F} {toAddr : Address}
    (h : (callTouch registry t fresh msg toAddr).uuid = some u) : u = fresh := by
  unfold callTouch at h
  cases he : registry.routing.enforcePeers msg.targetName toAddr.organismName with
  | error e =>
    rw [he] at h
    cases h
  | ok v =>
    rw [he] at h
    exact (Option.some_inj.mp h).symm

/-- An action touches the entry of its own thread or of the id it generates. -/
theorem touch_uuid {t : ThreadRegistry} {a : Action F} {u : String}
    (h : (touch P registry federation t a).uuid = some u) :
    thread P registry federation a = some u ∨ generated a = some u := by
  cases a with
  | ingress raw =>
    change (arrivalTouch t (gates P registry federation raw)).uuid = some u at h
    cases hg : gates P registry federation raw with
    | none =>
      rw [hg] at h
      cases h
    | some m =>
      rw [hg] at h
      unfold arrivalTouch registerTouch at h
      cases hl : t.lookup m.envelope.header.thread with
      | none =>
        simp only [hl] at h
        refine .inl ?_
        rw [thread, hg, Option.map_some]
        exact h
      | some chain => simp [hl, Touch.uuid] at h
  | handle msg result fresh =>
    have hcases : u = msg.envelope.header.thread ∨ u = fresh := by
      cases result with
      | none => cases h
      | some result =>
        cases result with
        | error e => cases h
        | ok response =>
          cases response with
          | none => exact pruneTouch_uuid h
          | reply payload => exact pruneTouch_uuid h
          | spawn toAddr payload => exact .inr (callTouch_uuid h)
          | send toAddr payload => exact .inr (callTouch_uuid h)
    rcases hcases with rfl | rfl
    · exact .inl rfl
    · exact .inr rfl

/-! ## What is put out -/

theorem getOrCreate_fst (t : ThreadRegistry) (c fresh : String) :
    (t.getOrCreate c fresh).1 = (t.chainToUuid c).getD fresh := by
  unfold ThreadRegistry.getOrCreate
  cases t.chainToUuid c with
  | none => rfl
  | some uuid => rfl

theorem prune_congr {t s : ThreadRegistry} {threadId fresh : String} (h : Alike t s threadId)
    (hc : ∀ c, (pruneTouch t threadId fresh).chain = some c →
      s.chainToUuid c = t.chainToUuid c) :
    (s.pruneForResponse threadId fresh).1 = (t.pruneForResponse threadId fresh).1 := by
  cases hl : t.lookup threadId with
  | none =>
    have hs := h.lookup.trans hl
    unfold ThreadRegistry.lookup at hl hs
    unfold ThreadRegistry.pruneForResponse
    rw [hl, hs]
  | some chain =>
    have hs := h.lookup.trans hl
    by_cases hd : '.' ∈ chain.toList
    · have hparent := hc (parent '.' chain) (by simp [pruneTouch, hl, hd, Touch.chain])
      rw [pruneForResponse_some fresh hl hd, pruneForResponse_some fresh hs hd]
      simp only [getOrCreate_fst, hparent]
    · unfold ThreadRegistry.lookup at hl hs
      unfold ThreadRegistry.pruneForResponse
      rw [hl, hs]
      dsimp only
      rw [split_of_notMem hd, if_pos (by simp), if_pos (by simp)]

theorem extend_congr {t s : ThreadRegistry} {threadId hop fresh : String} (h : Alike t s threadId)
    (hc : ∀ c, (extendTouch t threadId hop fresh).chain = some c →
      s.chainToUuid c = t.chainToUuid c) :
    (s.extendChain threadId hop fresh).1 = (t.extendChain threadId hop fresh).1 := by
  have hl : s.uuidToChain threadId = t.uuidToChain threadId := h.lookup
  have hchain := hc _ rfl
  unfold ThreadRegistry.extendChain
  rw [getOrCreate_fst, getOrCreate_fst, hl]
  exact congrArg (Option.getD · fresh) hchain

theorem answerUp_congr {t s : ThreadRegistry} {fresh : String} {msg : RoutedMsg F}
    (h : (s.pruneForResponse msg.envelope.header.thread fresh).1 =
      (t.pruneForResponse msg.envelope.header.thread fresh).1) (payload : Payload F) :
    (answerUp P s fresh msg payload).2 = (answerUp P t fresh msg payload).2 := by
  unfold answerUp
  dsimp only
  rcases hs : s.pruneForResponse msg.envelope.header.thread fresh with ⟨ps, s'⟩
  rcases ht : t.pruneForResponse msg.envelope.header.thread fresh with ⟨pt, t'⟩
  rw [hs, ht] at h
  dsimp only at h
  subst h
  cases ps with
  | none => rfl
  | some prune => rfl

theorem respond_congr {t s : ThreadRegistry} {fresh : String} {msg : RoutedMsg F}
    (h : Alike t s msg.envelope.header.thread) (response : HandlerResponse F)
    (hc : ∀ c, (respondTouch registry t fresh msg response).chain = some c →
      s.chainToUuid c = t.chainToUuid c) :
    (respond P registry s fresh msg response).2 =
      (respond P registry t fresh msg response).2 := by
  cases response with
  | none => exact answerUp_congr (prune_congr h hc) _
  | reply payload => exact answerUp_congr (prune_congr h hc) _
  | spawn toAddr payload =>
    unfold respond spawnCall
    dsimp only
    unfold respondTouch callTouch at hc
    cases he : registry.routing.enforcePeers msg.targetName toAddr.organismName with
    | error e => rfl
    | ok u =>
      simp only [he] at hc
      simp only [extend_congr h hc]
  | send toAddr payload =>
    unfold respond sendCall
    dsimp only
    unfold respondTouch callTouch at hc
    cases he : registry.routing.enforcePeers msg.targetName toAddr.organismName with
    | error e => rfl
    | ok u =>
      simp only [he] at hc
      simp only [extend_congr h hc]

/-- What the stages make of an item does not depend on the registry. -/
theorem ingress_outcome (t s : ThreadRegistry) (raw : Bytes) :
    (ingress P registry federation s raw).2 = (ingress P registry federation t raw).2 := by
  unfold ingress
  cases decodeEnvelope P raw with
  | error fault => rfl
  | ok env =>
    dsimp only
    cases validateStage registry env with
    | error e => rfl
    | ok msg =>
      dsimp only
      unfold routeStage
      dsimp only
      cases isRemote federation msg.envelope.header.toAddr with
      | true => rfl
      | false =>
        cases routeTarget P registry msg.envelope.header msg.envelope.payload.tag with
        | error e => rfl
        | ok target => rfl

theorem shown_congr {t s : ThreadRegistry} {a : Action F}
    (h : ∀ id, thread P registry federation a = some id → Alike t s id)
    (hc : ∀ c, (touch P registry federation t a).chain = some c →
      s.chainToUuid c = t.chainToUuid c) :
    shown P registry federation s a = shown P registry federation t a := by
  cases a with
  | ingress raw =>
    change [Visible.outcome _] = [Visible.outcome _]
    rw [ingress_outcome t s raw]
  | handle msg result fresh =>
    cases result with
    | none => rfl
    | some result =>
      cases result with
      | error e => rfl
      | ok response =>
        have hrespond := respond_congr (P := P) (h _ rfl) response hc
        exact congrArg (List.map Visible.effect) hrespond

/-! ## Two actions -/

/-- The generated ids are unused, and no thread or generated id of one action is one of the
    other's. -/
structure Apart (P : Platform F) (registry : ListenerRegistry F)
    (federation : Option PeerDirectory) (t : ThreadRegistry) (a b : Action F) : Prop where
  unusedFirst : ∀ fresh, generated a = some fresh → t.uuidToChain fresh = none
  unusedSecond : ∀ fresh, generated b = some fresh → t.uuidToChain fresh = none
  ids : ∀ u, thread P registry federation a = some u ∨ generated a = some u →
    thread P registry federation b ≠ some u ∧ generated b ≠ some u

theorem Apart.symm {t : ThreadRegistry} {a b : Action F} (h : Apart P registry federation t a b) :
    Apart P registry federation t b a where
  unusedFirst := h.unusedSecond
  unusedSecond := h.unusedFirst
  ids u hu := by
    constructor
    · intro ha
      rcases hu with hb | hb
      · exact (h.ids u (.inl ha)).1 hb
      · exact (h.ids u (.inl ha)).2 hb
    · intro ha
      rcases hu with hb | hb
      · exact (h.ids u (.inr ha)).1 hb
      · exact (h.ids u (.inr ha)).2 hb

theorem Apart.uuids {t : ThreadRegistry} {a b : Action F} (h : Apart P registry federation t a b)
    (u : String) (ha : (touch P registry federation t a).uuid = some u) :
    (touch P registry federation t b).uuid ≠ some u := by
  intro hb
  have hids := h.ids u (touch_uuid ha)
  rcases touch_uuid hb with hb | hb
  · exact hids.1 hb
  · exact hids.2 hb

/-- One action leaves the other's thread alone. -/
theorem Apart.alike {t : ThreadRegistry} {a b : Action F} (h : Apart P registry federation t a b)
    (id : String) (hb : thread P registry federation b = some id) :
    Alike t ((touch P registry federation t a).apply t) id := by
  have hvalid : (touch P registry federation t a).Valid t := touch_valid h.unusedFirst
  obtain ⟨hroot, hchain⟩ := root_apply hvalid
  refine ⟨lookup_apply hvalid ?_, hroot, hchain⟩
  intro ha
  exact (h.ids id (touch_uuid ha)).1 hb

theorem Apart.second {t : ThreadRegistry} {a b : Action F} (h : Apart P registry federation t a b)
    (hc : Compatible t (touch P registry federation t a) (touch P registry federation t b)) :
    shown P registry federation (perform P registry federation t a) b =
      shown P registry federation t b := by
  rw [perform_eq]
  apply shown_congr h.alike
  intro c hb
  exact hc.chainToUuid (touch_valid h.unusedFirst) hb

/-- Of two actions on different threads either may come first, without a difference to the registry
    or to what they put out, exactly when they do not touch one chain, or both only look it up. -/
theorem commutes_iff {t : ThreadRegistry} (ht : Consistent t) {a b : Action F}
    (h : Apart P registry federation t a b) :
    Commutes (perform P registry federation) (shown P registry federation) t a b ↔
      Compatible t (touch P registry federation t a) (touch P registry federation t b) := by
  have hx : (touch P registry federation t a).Valid t := touch_valid h.unusedFirst
  have hy : (touch P registry federation t b).Valid t := touch_valid h.unusedSecond
  have hab : perform P registry federation (perform P registry federation t a) b =
      (touch P registry federation t b).apply ((touch P registry federation t a).apply t) := by
    rw [perform_eq, perform_eq, touch_congr h.alike]
  have hba : perform P registry federation (perform P registry federation t b) a =
      (touch P registry federation t a).apply ((touch P registry federation t b).apply t) := by
    rw [perform_eq, perform_eq, touch_congr h.symm.alike]
  rw [← apply_comm_iff ht hx hy h.uuids]
  constructor
  · intro hcomm
    rw [← hab, ← hba, hcomm.state]
  · intro hcomm
    have hc := (apply_comm_iff ht hx hy h.uuids).mp hcomm
    exact ⟨by rw [hab, hba, hcomm], h.second hc, h.symm.second hc.symm⟩

end RustPipeline.Independence
