import RustPipeline.CodecTotality
import RustPipeline.Foundation.TransitionSystem
import RustPipeline.Ingress
import RustPipeline.PipelineEffects

set_option autoImplicit false

/-!
# Runs of the pipeline

The thread registry under any interleaving of routed ingress and handled messages, what each step
does to it, and what every reachable registry satisfies.
-/
namespace RustPipeline.PipelineRuns
open Text Wire Codec Handling Routing Registry Thread Federation Pipeline PipelineEffects
open Ingress TransitionSystem Relation Separated

variable {F : Type} (P : Platform F)

/-! ## Steps -/

/-- A generated UUID: not in use, and without white space around it. -/
structure FreshUuid (threads : ThreadRegistry) (uuid : String) : Prop where
  unused : threads.uuidToChain uuid = none
  trimmed : trim uuid = uuid

inductive Boot : ThreadRegistry → Prop where
  | new : Boot .new
  | root (organismName fresh : String) (h : trim fresh = fresh) :
      Boot (ThreadRegistry.new.initializeRoot organismName fresh).2

inductive Step (ctx : DispatchCtx F) (federation : Option PeerDirectory) :
    ThreadRegistry → ThreadRegistry → Prop where
  | ingress (threads : ThreadRegistry) (raw : Bytes) :
      Step ctx federation threads (ingress P ctx.registry federation threads raw).1
  | process (threads : ThreadRegistry) (msg : RoutedMsg F) (fresh : String)
      (h : FreshUuid threads fresh) :
      Step ctx federation threads (processMessage P ctx threads fresh msg).1

def pipeline (ctx : DispatchCtx F) (federation : Option PeerDirectory) :
    System ThreadRegistry where
  init := Boot
  step := Step P ctx federation

/-- Everything a step can do to the registry. -/
inductive Change (threads : ThreadRegistry) : ThreadRegistry → Prop where
  | stay : Change threads threads
  | register (threadId initiator target : String) (h : trim threadId = threadId) :
      Change threads (threads.registerThread threadId initiator target).2
  | prune (threadId fresh : String) (h : FreshUuid threads fresh) :
      Change threads (threads.pruneForResponse threadId fresh).2
  | extend (threadId hop fresh : String) (h : FreshUuid threads fresh) :
      Change threads (threads.extendChain threadId hop fresh).2

theorem ingress_change (registry : ListenerRegistry F) (federation : Option PeerDirectory)
    (threads : ThreadRegistry) (raw : Bytes) :
    Change threads (ingress P registry federation threads raw).1 := by
  by_cases h : ∃ routed, (ingress P registry federation threads raw).2 = .routed (.forwarded routed)
  · obtain ⟨routed, h⟩ := h
    obtain ⟨hd, ht⟩ := ingress_forwarded P h
    rw [ht]
    unfold registerThread
    cases threads.lookup routed.envelope.header.thread with
    | some chain => exact .stay
    | none => exact .register _ _ _ (CodecTotality.decodeEnvelope_thread P hd)
  · rw [ingress_threads P (fun routed hr => h ⟨routed, hr⟩)]
    exact .stay

/-- Everything that handling a message can do to the registry. -/
inductive Handled (threads : ThreadRegistry) (fresh : String) : ThreadRegistry → Prop where
  | stay : Handled threads fresh threads
  | prune (threadId : String) : Handled threads fresh (threads.pruneForResponse threadId fresh).2
  | extend (threadId hop : String) :
      Handled threads fresh (threads.extendChain threadId hop fresh).2

theorem answerUp_handled (threads : ThreadRegistry) (fresh : String) (msg : RoutedMsg F)
    (payload : Payload F) : Handled threads fresh (answerUp P threads fresh msg payload).1 := by
  rw [answerUp_threads]
  exact .prune _

theorem respond_handled (registry : ListenerRegistry F) (threads : ThreadRegistry) (fresh : String)
    (msg : RoutedMsg F) (response : HandlerResponse F) :
    Handled threads fresh (respond P registry threads fresh msg response).1 := by
  cases response with
  | none => exact answerUp_handled P threads fresh msg _
  | reply payload => exact answerUp_handled P threads fresh msg payload
  | spawn toAddr payload =>
    unfold respond spawnCall
    dsimp only
    cases registry.routing.enforcePeers msg.targetName toAddr.organismName with
    | error e => exact .stay
    | ok u => exact .extend _ _
  | send toAddr payload =>
    unfold respond sendCall
    dsimp only
    cases registry.routing.enforcePeers msg.targetName toAddr.organismName with
    | error e => exact .stay
    | ok u => exact .extend _ _

theorem processResult_handled (registry : ListenerRegistry F) (threads : ThreadRegistry)
    (fresh : String) (msg : RoutedMsg F)
    (result : Option (Except PipelineError (HandlerResponse F))) :
    Handled threads fresh (processResult P registry threads fresh msg result).1 := by
  cases result with
  | none => exact .stay
  | some result =>
    cases result with
    | error e => exact .stay
    | ok response => exact respond_handled P registry threads fresh msg response

theorem processMessage_handled (ctx : DispatchCtx F) (threads : ThreadRegistry) (fresh : String)
    (msg : RoutedMsg F) : Handled threads fresh (processMessage P ctx threads fresh msg).1 := by
  rw [processMessage_eq]
  exact processResult_handled P ctx.registry threads fresh msg _

theorem Handled.change {threads threads' : ThreadRegistry} {fresh : String}
    (h : Handled threads fresh threads') (hf : FreshUuid threads fresh) :
    Change threads threads' := by
  cases h with
  | stay => exact .stay
  | prune threadId => exact .prune threadId fresh hf
  | extend threadId hop => exact .extend threadId hop fresh hf

/-- Handling a message gives no thread but the generated one a chain. -/
theorem Handled.lookup_of_ne {threads threads' : ThreadRegistry} {fresh : String}
    (h : Handled threads fresh threads') {threadId chain : String} (hne : threadId ≠ fresh)
    (hl : threads'.lookup threadId = some chain) : threads.lookup threadId = some chain := by
  have hcreate : ∀ c, (threads.getOrCreate c fresh).2.lookup threadId = some chain →
      threads.lookup threadId = some chain := by
    intro c hc
    unfold ThreadRegistry.getOrCreate at hc
    cases hcu : threads.chainToUuid c with
    | some uuid =>
      rw [hcu] at hc
      exact hc
    | none =>
      rw [hcu] at hc
      exact (Function.update_of_ne hne _ _).symm.trans hc
  cases h with
  | stay => exact hl
  | prune pruned =>
    unfold ThreadRegistry.pruneForResponse at hl
    cases hu : threads.uuidToChain pruned with
    | none =>
      rw [hu] at hl
      exact hl
    | some c =>
      simp only [hu] at hl
      split_ifs at hl
      · unfold ThreadRegistry.cleanup at hl
        simp only [hu] at hl
        by_cases he : threadId = pruned
        · subst he
          have hnone : Function.update threads.uuidToChain threadId none threadId = none :=
            Function.update_self _ _ _
          cases hnone.symm.trans hl
        · exact (Function.update_of_ne he _ _).symm.trans hl
      · exact hcreate _ hl
  | extend extended hop => exact hcreate _ hl

/-- It takes no chain with a caller in it away. -/
theorem Handled.lookup_of_dotted {threads threads' : ThreadRegistry} {fresh : String}
    (h : Handled threads fresh threads') {threadId chain : String} (hne : threadId ≠ fresh)
    (hl : threads.lookup threadId = some chain) (hd : '.' ∈ chain.toList) :
    threads'.lookup threadId = some chain := by
  have hcreate : ∀ c, (threads.getOrCreate c fresh).2.lookup threadId = some chain := by
    intro c
    unfold ThreadRegistry.getOrCreate
    cases threads.chainToUuid c with
    | some uuid => exact hl
    | none => exact (Function.update_of_ne hne _ _).trans hl
  cases h with
  | stay => exact hl
  | prune pruned =>
    unfold ThreadRegistry.pruneForResponse
    cases hu : threads.uuidToChain pruned with
    | none => exact hl
    | some c =>
      dsimp only
      split_ifs with hshort
      · refine lookup_cleanup ?_ hl
        rintro rfl
        obtain rfl := Option.some_inj.mp (hl.symm.trans hu)
        have := mem_iff_length_split.mp hd
        omega
      · exact hcreate _
  | extend extended hop => exact hcreate _

theorem Step.change {ctx : DispatchCtx F} {federation : Option PeerDirectory}
    {threads threads' : ThreadRegistry} (h : Step P ctx federation threads threads') :
    Change threads threads' := by
  cases h with
  | ingress raw => exact ingress_change P _ _ _ _
  | process msg fresh h => exact (processMessage_handled P ctx threads fresh msg).change h

/-! ## What every reachable registry satisfies -/

/-- The two maps are inverse and the thread ids in use have no white space around them. -/
structure Sound (threads : ThreadRegistry) : Prop where
  consistent : Consistent threads
  trimmed : ∀ id chain, threads.lookup id = some chain → trim id = id

theorem Sound.insert {threads : ThreadRegistry} (h : Sound threads) {chain uuid : String}
    (hu : threads.uuidToChain uuid = none) (hc : threads.chainToUuid chain = none)
    (ht : trim uuid = uuid) : Sound (threads.insert chain uuid) := by
  refine ⟨h.consistent.insert hu hc, ?_⟩
  intro id c hid
  by_cases he : id = uuid
  · rw [he]
    exact ht
  · exact h.trimmed id c ((Function.update_of_ne he _ _).symm.trans hid)

theorem Sound.cleanup {threads : ThreadRegistry} (h : Sound threads) (threadId : String) :
    Sound (threads.cleanup threadId) := by
  refine ⟨h.consistent.cleanup threadId, ?_⟩
  intro id c hid
  unfold ThreadRegistry.cleanup ThreadRegistry.lookup at hid
  cases hu : threads.uuidToChain threadId with
  | none =>
    rw [hu] at hid
    exact h.trimmed id c hid
  | some chain =>
    rw [hu] at hid
    by_cases he : id = threadId
    · rw [he] at hid
      simp at hid
    · exact h.trimmed id c ((Function.update_of_ne he _ _).symm.trans hid)

theorem Sound.getOrCreate {threads : ThreadRegistry} (h : Sound threads) (chain : String)
    {fresh : String} (hf : FreshUuid threads fresh) :
    Sound (threads.getOrCreate chain fresh).2 := by
  unfold ThreadRegistry.getOrCreate
  cases hc : threads.chainToUuid chain with
  | some uuid => exact h
  | none => exact h.insert hf.unused hc hf.trimmed

theorem Sound.change {threads threads' : ThreadRegistry} (h : Sound threads)
    (hc : Change threads threads') : Sound threads' := by
  cases hc with
  | stay => exact h
  | register threadId initiator target ht =>
    unfold ThreadRegistry.registerThread
    cases hu : threads.uuidToChain threadId with
    | some chain => exact h
    | none =>
      cases hc : threads.chainToUuid (threads.rootedChain initiator target) with
      | some uuid => simpa [hc] using h
      | none => simpa [hc] using h.insert hu hc ht
  | prune threadId fresh hf =>
    unfold ThreadRegistry.pruneForResponse
    cases threads.uuidToChain threadId with
    | none => exact h
    | some chain =>
      dsimp only
      split_ifs
      · exact h.cleanup threadId
      · exact h.getOrCreate _ hf
  | extend threadId hop fresh hf => exact h.getOrCreate _ hf

theorem Boot.sound {threads : ThreadRegistry} (h : Boot threads) : Sound threads := by
  have hnew : Sound ThreadRegistry.new := by
    refine ⟨consistent_new, ?_⟩
    intro id chain hid
    cases hid
  cases h with
  | new => exact hnew
  | root organismName fresh ht =>
    have hi : Sound (ThreadRegistry.new.insert ("system." ++ organismName) fresh) :=
      hnew.insert rfl rfl ht
    exact ⟨hi.consistent, hi.trimmed⟩

theorem sound_of_reachable {ctx : DispatchCtx F} {federation : Option PeerDirectory}
    {threads : ThreadRegistry} (h : Reachable (pipeline P ctx federation) threads) :
    Sound threads :=
  h.invariant (fun _ hb => Boot.sound hb) fun threads threads' hs
    (hstep : Step P ctx federation threads threads') => hs.change hstep.change

/-- A thread with a caller in its chain stays registered. -/
theorem Change.lookup {threads threads' : ThreadRegistry} (hc : Change threads threads')
    {id chain : String} (h : threads.lookup id = some chain) (hd : '.' ∈ chain.toList) :
    threads'.lookup id = some chain := by
  cases hc with
  | stay => exact h
  | register threadId initiator target ht => exact lookup_registerThread h
  | prune threadId fresh hf => exact lookup_pruneForResponse hf.unused h hd
  | extend threadId hop fresh hf => exact lookup_getOrCreate hf.unused h

theorem lookup_of_run {ctx : DispatchCtx F} {federation : Option PeerDirectory}
    {threads threads' : ThreadRegistry}
    (hr : ReflTransGen (Step P ctx federation) threads threads') {id chain : String}
    (h : threads.lookup id = some chain) (hd : '.' ∈ chain.toList) :
    threads'.lookup id = some chain := by
  induction hr with
  | refl => exact h
  | tail _ hs ih => exact (Step.change P hs).lookup ih hd

end RustPipeline.PipelineRuns
