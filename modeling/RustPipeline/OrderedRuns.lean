import RustPipeline.ReturnHops
import RustPipeline.Foundation.Runs

set_option autoImplicit false

/-!
# Runs in order

Messages that arrive for the last listener of their thread's chain, and what such runs keep: a chain
with a caller in it is opened by a call of that caller, and whoever waits on the thread is its last
listener.
-/
namespace RustPipeline.OrderedRuns
open Text Wire Codec Handling Routing Registry Thread Federation Pipeline PipelineEffects
open Ingress PipelineRuns Conversations FederatedReply ReturnHops Separated

variable {F : Type} (P : Platform F)

/-! ## Arrivals and answers in order -/

/-- Routing looks names up in lower case. -/
def SameName (f g : String) : Prop := P.lowercase f = P.lowercase g

/-- A generated UUID is no thread id in use, by the registry or by a waiting message. -/
structure FreshFor (s : Traffic F) (fresh : String) : Prop where
  unused : s.threads.uuidToChain fresh = none
  unseen : ∀ w ∈ s.waiting, thread w.msg ≠ fresh

def FreshAt (s : Traffic F) : Event F → Prop
  | .handle _ _ fresh => FreshFor s fresh
  | .route _ => True
  | .deliver _ _ => True
  | .inject _ => True

/-- The last listener of a chain. -/
def lastPart (chain : String) : String := (split '.' chain).getLastD ""

/-- The chain is the root's, or has one listener behind it. -/
def UnderRoot (threads : ThreadRegistry) (chain : String) : Prop :=
  threads.rootUuid.isSome = true ∧
    (chain = threads.rootChain ∨ parent '.' chain = threads.rootChain)

/-- On a thread with a chain the message is for the chain's last listener. A thread is opened by a
    message that is no answer, for a listener whose name has no dot, and all that waits on the
    thread is for that listener. -/
structure Fitting (s : Traffic F) (source : Source) (msg : RoutedMsg F) : Prop where
  last : ∀ chain, s.threads.lookup (thread msg) = some chain →
    SameName P (lastPart chain) msg.targetName
  opening : s.threads.lookup (thread msg) = none →
    s.threads.chainToUuid (s.threads.rootedChain (sender msg) msg.targetName) = none →
      source ≠ .answer ∧ '.' ∉ msg.targetName.toList ∧
        ∀ w ∈ s.waiting, thread w.msg = thread msg → SameName P msg.targetName w.msg.targetName

/-- What is called has no dot in its name, and what is answered has a caller behind the root. -/
def Plainly (registry : ListenerRegistry F) (threads : ThreadRegistry) (msg : RoutedMsg F) :
    HandlerResponse F → Prop
  | .none => ∀ chain, threads.lookup (thread msg) = some chain → ¬ UnderRoot threads chain
  | .reply _ => ∀ chain, threads.lookup (thread msg) = some chain → ¬ UnderRoot threads chain
  | .send toAddr _ =>
    registry.routing.enforcePeers msg.targetName toAddr.organismName = .ok () →
      '.' ∉ toAddr.organismName.toList
  | .spawn toAddr _ =>
    registry.routing.enforcePeers msg.targetName toAddr.organismName = .ok () →
      '.' ∉ toAddr.organismName.toList

def InOrder (registry : ListenerRegistry F) (federation : Option PeerDirectory) (s : Traffic F) :
    Event F → Prop
  | .route i => ∀ item msg, s.queue[i]? = some item →
      (ingress P registry federation s.threads item.raw).2 = .routed (.forwarded msg) →
        Fitting P s item.source msg
  | .handle i result _ => ∀ w response, s.waiting[i]? = some w → result = some (.ok response) →
      Plainly registry s.threads w.msg response
  | .deliver _ _ => True
  | .inject _ => True

/-! ## The invariant -/

def Short (threads : ThreadRegistry) (chain : String) : Prop :=
  '.' ∉ chain.toList ∨ UnderRoot threads chain

/-- The part before the last of the chain has called the last on the thread. -/
def Opened (calls : List Call) (id chain : String) : Prop :=
  ∃ call ∈ calls, call.thread = id ∧ SameName P call.caller (returnHop chain) ∧
    SameName P call.callee (lastPart chain)

/-- A chain with a caller is opened by a call, and the caller's own chain is registered or short; a
    waiting message is for the last listener of its thread's chain. -/
structure Inv (s : Traffic F) : Prop where
  consistent : Consistent s.threads
  opened : ∀ id chain, s.threads.lookup id = some chain →
    Short s.threads chain ∨ Opened P s.calls id chain
  parents : ∀ id chain, s.threads.lookup id = some chain → ¬ Short s.threads chain →
    Short s.threads (parent '.' chain) ∨ (s.threads.chainToUuid (parent '.' chain)).isSome
  targets : ∀ w ∈ s.waiting, ∀ chain, s.threads.lookup (thread w.msg) = some chain →
    SameName P (lastPart chain) w.msg.targetName

variable {P} {registry : ListenerRegistry F} {federation : Option PeerDirectory}

theorem Opened.mono {calls later : List Call} {id chain : String} (h : Opened P calls id chain)
    (hcalls : ∀ call ∈ calls, call ∈ later) : Opened P later id chain := by
  obtain ⟨call, hmem, hcall⟩ := h
  exact ⟨call, hcalls call hmem, hcall⟩

/-! ### Chains -/

theorem lastPart_append (s : String) {t : String} (h : '.' ∉ t.toList) :
    lastPart (s ++ "." ++ t) = t := by
  have hsplit : split '.' (s ++ "." ++ t) = split '.' s ++ [t] := split_append_part h
  rw [lastPart, hsplit, List.getLastD_concat]

theorem returnHop_append_part (s : String) {t : String} (h : '.' ∉ t.toList) :
    returnHop (s ++ "." ++ t) = lastPart s := by
  have hsplit : split '.' (s ++ "." ++ t) = split '.' s ++ [t] := split_append_part h
  rw [returnHop, hsplit, List.dropLast_concat, lastPart]

theorem lastPart_of_plain {t : String} (h : '.' ∉ t.toList) : lastPart t = t := by
  rw [lastPart, split_of_notMem h]
  rfl

/-- A rooted chain ends in its target, with a short chain before it. -/
theorem rootedChain_split (threads : ThreadRegistry) {f : String} (hf : '.' ∉ f.toList)
    (g : String) : ∃ s, threads.rootedChain f g = s ++ "." ++ g ∧ lastPart s = f ∧
      Short threads s := by
  unfold ThreadRegistry.rootedChain
  split_ifs with hroot
  · have hparent : parent '.' (threads.rootChain ++ "." ++ f) = threads.rootChain :=
      parent_append_part threads.rootChain hf
    refine ⟨threads.rootChain ++ "." ++ f, ?_, lastPart_append _ hf, .inr ⟨hroot, .inr hparent⟩⟩
    simp only [String.append_assoc]
  · exact ⟨f, rfl, lastPart_of_plain hf, .inl hf⟩

/-! ### What each change of the registry keeps -/

/-- The registry stays as it is. -/
theorem Inv.stay {s t : Traffic F} (h : Inv P s) (hthreads : t.threads = s.threads)
    (hcalls : ∀ call ∈ s.calls, call ∈ t.calls)
    (hwaiting : ∀ w ∈ t.waiting, w ∈ s.waiting ∨ ∀ chain,
      s.threads.lookup (thread w.msg) = some chain → SameName P (lastPart chain) w.msg.targetName) :
    Inv P t where
  consistent := by
    rw [hthreads]
    exact h.consistent
  opened id chain hl := by
    rw [hthreads] at hl ⊢
    exact (h.opened id chain hl).imp_right fun ho => ho.mono hcalls
  parents id chain hl hn := by
    rw [hthreads] at hl hn ⊢
    exact h.parents id chain hl hn
  targets w hw chain hl := by
    rw [hthreads] at hl
    rcases hwaiting w hw with hw | hfit
    · exact h.targets w hw chain hl
    · exact hfit chain hl

theorem lookup_insert_cases {threads : ThreadRegistry} {chain id id' chain' : String}
    (h : (threads.insert chain id).lookup id' = some chain') :
    (id' = id ∧ chain' = chain) ∨ (id' ≠ id ∧ threads.lookup id' = some chain') := by
  by_cases hid : id' = id
  · subst hid
    have hself : (threads.insert chain id').lookup id' = some chain := Function.update_self _ _ _
    exact .inl ⟨rfl, Option.some_inj.mp (h.symm.trans hself)⟩
  · exact .inr ⟨hid, (Function.update_of_ne hid _ _).symm.trans h⟩

/-- A free thread id is given a free chain. -/
theorem Inv.insert {s t : Traffic F} (h : Inv P s) {chain id : String}
    (hthreads : t.threads = s.threads.insert chain id) (hu : s.threads.uuidToChain id = none)
    (hc : s.threads.chainToUuid chain = none) (hcalls : ∀ call ∈ s.calls, call ∈ t.calls)
    (hopened : Short s.threads chain ∨ Opened P t.calls id chain)
    (hparent : ¬ Short s.threads chain → Short s.threads (parent '.' chain) ∨
      (s.threads.chainToUuid (parent '.' chain)).isSome)
    (hwaiting : ∀ w ∈ t.waiting, w ∈ s.waiting ∧ thread w.msg ≠ id ∨
      thread w.msg = id ∧ SameName P (lastPart chain) w.msg.targetName) : Inv P t where
  consistent := by
    rw [hthreads]
    exact h.consistent.insert hu hc
  opened id' chain' hl := by
    rw [hthreads] at hl ⊢
    rcases lookup_insert_cases hl with ⟨rfl, rfl⟩ | ⟨_, hold⟩
    · exact hopened
    · exact (h.opened id' chain' hold).imp_right fun ho => ho.mono hcalls
  parents id' chain' hl hn := by
    have hkeep : ∀ c, (s.threads.chainToUuid c).isSome →
        ((s.threads.insert chain id).chainToUuid c).isSome := by
      intro c hsome
      by_cases hcc : c = chain
      · subst hcc
        rw [hc] at hsome
        cases hsome
      · exact (congrArg Option.isSome (Function.update_of_ne hcc _ _)).trans hsome
    rw [hthreads] at hl hn ⊢
    rcases lookup_insert_cases hl with ⟨rfl, rfl⟩ | ⟨_, hold⟩
    · exact (hparent hn).imp_right (hkeep _)
    · exact (h.parents id' chain' hold hn).imp_right (hkeep _)
  targets w hw chain' hl := by
    rw [hthreads] at hl
    rcases hwaiting w hw with ⟨hmem, hne⟩ | ⟨hid, hfit⟩
    · rcases lookup_insert_cases hl with ⟨hid, _⟩ | ⟨_, hold⟩
      · exact absurd hid hne
      · exact h.targets w hmem chain' hold
    · rcases lookup_insert_cases hl with ⟨_, rfl⟩ | ⟨hne, _⟩
      · exact hfit
      · exact absurd hid hne

theorem lookup_of_cleanup {threads : ThreadRegistry} {id id' chain : String}
    (h : (threads.cleanup id).lookup id' = some chain) : threads.lookup id' = some chain := by
  unfold ThreadRegistry.cleanup at h
  cases hu : threads.uuidToChain id with
  | none =>
    rw [hu] at h
    exact h
  | some c =>
    rw [hu] at h
    by_cases hid : id' = id
    · subst hid
      have hnone : Function.update threads.uuidToChain id' none id' = none :=
        Function.update_self _ _ _
      cases hnone.symm.trans h
    · exact (Function.update_of_ne hid _ _).symm.trans h

/-- A chain of one part is dropped. -/
theorem Inv.cleanup {s t : Traffic F} (h : Inv P s) {id chain : String}
    (hl : s.threads.lookup id = some chain) (hd : '.' ∉ chain.toList)
    (hthreads : t.threads = s.threads.cleanup id) (hcalls : ∀ call ∈ s.calls, call ∈ t.calls)
    (hwaiting : ∀ w ∈ t.waiting, w ∈ s.waiting) : Inv P t := by
  have hdrop : s.threads.cleanup id = { s.threads with
      uuidToChain := Function.update s.threads.uuidToChain id none
      chainToUuid := Function.update s.threads.chainToUuid chain none } := by
    unfold ThreadRegistry.cleanup
    unfold ThreadRegistry.lookup at hl
    rw [hl]
  constructor
  · rw [hthreads]
    exact h.consistent.cleanup id
  · intro id' chain' hl'
    rw [hthreads] at hl'
    have hshort : Short t.threads chain' ↔ Short s.threads chain' := by
      rw [hthreads, hdrop]
      rfl
    rw [hshort]
    exact (h.opened id' chain' (lookup_of_cleanup hl')).imp_right fun ho => ho.mono hcalls
  · intro id' chain' hl' hn
    rw [hthreads] at hl' hn ⊢
    have hold := lookup_of_cleanup hl'
    rw [hdrop] at hn ⊢
    rcases h.parents id' chain' hold hn with hshort | hsome
    · exact .inl hshort
    · by_cases hp : parent '.' chain' = chain
      · rw [hp]
        exact .inl (.inl hd)
      · refine .inr ?_
        dsimp only
        rw [Function.update_of_ne hp]
        exact hsome
  · intro w hw chain' hl'
    rw [hthreads] at hl'
    exact h.targets w (hwaiting w hw) chain' (lookup_of_cleanup hl')

/-! ### The steps -/

/-- A call extends the chain of the caller's thread, and `on_open` tells of it. -/
structure Extends (threads : ThreadRegistry) (fresh : String) (msg : RoutedMsg F)
    (toName : String) (ran : ThreadRegistry × List (Effect F)) : Prop where
  extended : ran.1 = (threads.extendChain (thread msg) toName fresh).2
  recorded : ⟨msg.targetName, toName, (threads.extendChain (thread msg) toName fresh).1⟩ ∈
    ran.2.flatMap made

theorem sendCall_cases (registry : ListenerRegistry F) (threads : ThreadRegistry) (fresh : String)
    (msg : RoutedMsg F) (toAddr : Address) (payload : Payload F) :
    (sendCall P registry threads fresh msg toAddr payload).1 = threads ∨
      registry.routing.enforcePeers msg.targetName toAddr.organismName = .ok () ∧
        Extends threads fresh msg toAddr.organismName
          (sendCall P registry threads fresh msg toAddr payload) := by
  unfold sendCall
  cases registry.routing.enforcePeers msg.targetName toAddr.organismName with
  | error e => exact .inl rfl
  | ok u => exact .inr ⟨rfl, rfl, List.mem_cons_self⟩

theorem spawnCall_cases (registry : ListenerRegistry F) (threads : ThreadRegistry)
    (fresh : String) (msg : RoutedMsg F) (toAddr : Address) (payload : Payload F) :
    (spawnCall P registry threads fresh msg toAddr payload).1 = threads ∨
      registry.routing.enforcePeers msg.targetName toAddr.organismName = .ok () ∧
        Extends threads fresh msg toAddr.organismName
          (spawnCall P registry threads fresh msg toAddr payload) := by
  unfold spawnCall
  dsimp only
  cases registry.routing.enforcePeers msg.targetName toAddr.organismName with
  | error e => exact .inl rfl
  | ok u => exact .inr ⟨rfl, rfl, List.mem_cons_self⟩

theorem calls_leave (s : Traffic F) (waiting : List (Waiting F))
    (ran : ThreadRegistry × List (Effect F)) :
    ∀ call ∈ s.calls, call ∈ (s.leave waiting ran).calls :=
  fun _ hcall => List.mem_append_left _ hcall

theorem Inv.call {s : Traffic F} (h : Inv P s) {w : Waiting F} (hw : w ∈ s.waiting)
    {fresh toName : String} (hfresh : FreshFor s fresh) (hdot : '.' ∉ toName.toList)
    {ran : ThreadRegistry × List (Effect F)} (hx : Extends s.threads fresh w.msg toName ran)
    {waiting : List (Waiting F)} (hwaiting : ∀ v ∈ waiting, v ∈ s.waiting) :
    Inv P (s.leave waiting ran) := by
  have hcalls := calls_leave s waiting ran
  have hrecorded := hx.recorded
  have hran := hx.extended
  unfold ThreadRegistry.extendChain ThreadRegistry.getOrCreate at hrecorded hran
  cases hc : s.threads.chainToUuid (ThreadRegistry.extendedChain
      ((s.threads.uuidToChain (thread w.msg)).getD "") toName) with
  | some id =>
    rw [hc] at hran
    exact h.stay hran hcalls fun v hv => .inl (hwaiting v hv)
  | none =>
    rw [hc] at hran hrecorded
    have hunseen : ∀ v ∈ waiting, v ∈ s.waiting ∧ thread v.msg ≠ fresh ∨ thread v.msg = fresh ∧
        SameName P (lastPart (ThreadRegistry.extendedChain
          ((s.threads.uuidToChain (thread w.msg)).getD "") toName)) v.msg.targetName :=
      fun v hv => .inl ⟨hwaiting v hv, hfresh.unseen v (hwaiting v hv)⟩
    cases hl : s.threads.uuidToChain (thread w.msg) with
    | none =>
      rw [hl] at hran hc hunseen
      have hshort : Short s.threads (ThreadRegistry.extendedChain ((none : Option String).getD "")
          toName) := .inl hdot
      exact h.insert hran hfresh.unused hc hcalls (.inl hshort) (fun hn => absurd hshort hn) hunseen
    | some chain =>
      rw [hl] at hran hc hunseen hrecorded
      by_cases hempty : chain = ""
      · have hplain : ThreadRegistry.extendedChain ((some chain).getD "") toName = toName := by
          rw [hempty]
          rfl
        have hshort : Short s.threads
            (ThreadRegistry.extendedChain ((some chain).getD "") toName) := by
          rw [hplain]
          exact .inl hdot
        exact h.insert hran hfresh.unused hc hcalls (.inl hshort) (fun hn => absurd hshort hn)
          hunseen
      · have happend : ThreadRegistry.extendedChain ((some chain).getD "") toName =
            chain ++ "." ++ toName := if_neg hempty
        have hparent : parent '.' (chain ++ "." ++ toName) = chain := parent_append_part chain hdot
        rw [happend] at hran hc hunseen
        refine h.insert hran hfresh.unused hc hcalls (.inr ?_) (fun _ => .inr ?_) hunseen
        · refine ⟨_, List.mem_append_right _ hrecorded, rfl, ?_, ?_⟩
          · rw [returnHop_append_part chain hdot]
            exact (h.targets w hw chain hl).symm
          · rw [lastPart_append chain hdot]
            rfl
        · rw [hparent, (h.consistent _ _).mp hl]
          rfl

/-- An answer goes up a chain with a caller behind the root, or drops one of a single part. -/
theorem Inv.answer {s : Traffic F} (h : Inv P s) {msg : RoutedMsg F} {fresh : String}
    (hfresh : FreshFor s fresh)
    (hroot : ∀ chain, s.threads.lookup (thread msg) = some chain → ¬ UnderRoot s.threads chain)
    {ran : ThreadRegistry × List (Effect F)}
    (hran : ran.1 = (s.threads.pruneForResponse (thread msg) fresh).2)
    {waiting : List (Waiting F)} (hwaiting : ∀ v ∈ waiting, v ∈ s.waiting) :
    Inv P (s.leave waiting ran) := by
  have hcalls := calls_leave s waiting ran
  cases hl : s.threads.lookup (thread msg) with
  | none =>
    have hsame : (s.threads.pruneForResponse (thread msg) fresh).2 = s.threads := by
      unfold ThreadRegistry.pruneForResponse
      unfold ThreadRegistry.lookup at hl
      rw [hl]
    exact h.stay (hran.trans hsame) hcalls fun v hv => .inl (hwaiting v hv)
  | some chain =>
    by_cases hd : '.' ∈ chain.toList
    · have hnot : ¬ Short s.threads chain := not_or.mpr ⟨not_not.mpr hd, hroot chain hl⟩
      rw [pruneForResponse_some fresh hl hd] at hran
      unfold ThreadRegistry.getOrCreate at hran
      cases hc : s.threads.chainToUuid (parent '.' chain) with
      | some id =>
        rw [hc] at hran
        exact h.stay hran hcalls fun v hv => .inl (hwaiting v hv)
      | none =>
        rw [hc] at hran
        have hshort : Short s.threads (parent '.' chain) := by
          refine (h.parents _ chain hl hnot).resolve_right ?_
          rw [hc]
          simp
        exact h.insert hran hfresh.unused hc hcalls (.inl hshort) (fun hn => absurd hshort hn)
          fun v hv => .inl ⟨hwaiting v hv, hfresh.unseen v (hwaiting v hv)⟩
    · have hdrop : (s.threads.pruneForResponse (thread msg) fresh).2 =
          s.threads.cleanup (thread msg) := by
        unfold ThreadRegistry.pruneForResponse
        unfold ThreadRegistry.lookup at hl
        have hone : (split '.' chain).length ≤ 1 := by
          rw [split_of_notMem hd]
          exact Nat.le_refl 1
        rw [hl]
        dsimp only
        rw [if_pos hone]
      exact h.cleanup hl hd (hran.trans hdrop) hcalls hwaiting

/-- A message that is routed. -/
theorem Inv.join {s : Traffic F} (h : Inv P s) {source : Source} {msg : RoutedMsg F}
    (hfit : Fitting P s source msg) (hs : '.' ∉ (sender msg).toList) (queue : List Item) :
    Inv P (s.join (registerThread s.threads (thread msg) (sender msg) msg.targetName) queue msg
      source) := by
  have hcalls : ∀ call ∈ s.calls, call ∈ s.calls ++ arriving msg source :=
    fun _ hcall => List.mem_append_left _ hcall
  have hold : ∀ chain, s.threads.lookup (thread msg) = some chain →
      ∀ w ∈ s.waiting ++ [⟨msg, source⟩], w ∈ s.waiting ∨ ∀ chain,
        s.threads.lookup (thread w.msg) = some chain →
          SameName P (lastPart chain) w.msg.targetName := by
    intro chain _ w hw
    rcases List.mem_append.mp hw with hw | hw
    · exact .inl hw
    · rw [List.mem_singleton.mp hw]
      exact .inr hfit.last
  cases hl : s.threads.lookup (thread msg) with
  | some chain =>
    exact h.stay (registerThread_of_some hl) hcalls (hold chain hl)
  | none =>
    have hregister : registerThread s.threads (thread msg) (sender msg) msg.targetName =
        (s.threads.registerThread (thread msg) (sender msg) msg.targetName).2 := by
      unfold registerThread
      rw [hl]
    have hu : s.threads.uuidToChain (thread msg) = none := hl
    cases hc : s.threads.chainToUuid (s.threads.rootedChain (sender msg) msg.targetName) with
    | some id =>
      have hsame : (s.threads.registerThread (thread msg) (sender msg) msg.targetName).2 =
          s.threads := by
        unfold ThreadRegistry.registerThread
        simp [hu, hc]
      refine h.stay (hregister.trans hsame) hcalls ?_
      intro w hw
      rcases List.mem_append.mp hw with hw | hw
      · exact .inl hw
      · rw [List.mem_singleton.mp hw]
        exact .inr hfit.last
    | none =>
      have hinsert : (s.threads.registerThread (thread msg) (sender msg) msg.targetName).2 =
          s.threads.insert (s.threads.rootedChain (sender msg) msg.targetName) (thread msg) := by
        unfold ThreadRegistry.registerThread
        simp [hu, hc]
      obtain ⟨hsource, hdot, hother⟩ := hfit.opening hl hc
      obtain ⟨before, hchain, hlast, hshort⟩ := rootedChain_split s.threads hs msg.targetName
      have hparent : parent '.' (before ++ "." ++ msg.targetName) = before :=
        parent_append_part before hdot
      have hrecorded : (⟨sender msg, msg.targetName, thread msg⟩ : Call) ∈
          s.calls ++ arriving msg source := by
        cases source with
        | delivered => exact List.mem_append_right _ (List.mem_singleton_self _)
        | injected => exact List.mem_append_right _ (List.mem_singleton_self _)
        | call => exact List.mem_append_right _ (List.mem_singleton_self _)
        | answer => exact absurd rfl hsource
      rw [hchain] at hinsert hc
      refine h.insert (hregister.trans hinsert) hu hc hcalls (.inr ?_) (fun _ => .inl ?_) ?_
      · refine ⟨_, hrecorded, rfl, ?_, ?_⟩
        · rw [returnHop_append_part before hdot, hlast]
          rfl
        · rw [lastPart_append before hdot]
          rfl
      · rw [hparent]
        exact hshort
      · intro w hw
        rw [lastPart_append before hdot]
        rcases List.mem_append.mp hw with hw | hw
        · by_cases hid : thread w.msg = thread msg
          · exact .inr ⟨hid, hother w hw hid⟩
          · exact .inl ⟨hw, hid⟩
        · rw [List.mem_singleton.mp hw]
          exact .inr ⟨rfl, rfl⟩

theorem Inv.respond {s : Traffic F} (h : Inv P s) {w : Waiting F} (hw : w ∈ s.waiting)
    {fresh : String} (hfresh : FreshFor s fresh) {response : HandlerResponse F}
    (hplain : Plainly registry s.threads w.msg response) {waiting : List (Waiting F)}
    (hwaiting : ∀ v ∈ waiting, v ∈ s.waiting) :
    Inv P (s.leave waiting (Pipeline.respond P registry s.threads fresh w.msg response)) := by
  cases response with
  | none =>
    exact h.answer hfresh hplain (answerUp_threads P s.threads fresh w.msg toolAck) hwaiting
  | reply payload =>
    exact h.answer hfresh hplain (answerUp_threads P s.threads fresh w.msg payload) hwaiting
  | send toAddr payload =>
    rcases sendCall_cases (P := P) registry s.threads fresh w.msg toAddr payload with hran | ⟨ha, hx⟩
    · exact h.stay hran (calls_leave s _ _) fun v hv => .inl (hwaiting v hv)
    · exact h.call hw hfresh (hplain ha) hx hwaiting
  | spawn toAddr payload =>
    rcases spawnCall_cases (P := P) registry s.threads fresh w.msg toAddr payload with
      hran | ⟨ha, hx⟩
    · exact h.stay hran (calls_leave s _ _) fun v hv => .inl (hwaiting v hv)
    · exact h.call hw hfresh (hplain ha) hx hwaiting

theorem Inv.perform {s : Traffic F} (h : Inv P s) {e : Event F} (hfresh : FreshAt s e)
    (horder : InOrder P registry federation s e) : Inv P (s.perform P registry federation e) := by
  cases e with
  | deliver resolve env =>
    obtain ⟨queue, hqueue⟩ := deliver_eq (P := P) s resolve env
    rw [perform_deliver, hqueue]
    exact h.stay rfl (fun _ hcall => hcall) fun _ hw => .inl hw
  | inject raw => exact h.stay rfl (fun _ hcall => hcall) fun _ hw => .inl hw
  | route i =>
    rw [perform_route]
    rcases route_cases P registry federation s i with
      hr | ⟨item, msg, hitem, hf, hr⟩ | hr
    · rw [hr]
      exact h
    · rw [hr]
      exact h.join (horder item msg hitem hf) (sender_plain (ingress_forwarded P hf).1) _
    · rw [hr]
      exact h.stay rfl (fun _ hcall => hcall) fun _ hw => .inl hw
  | handle i result fresh =>
    rw [perform_handle]
    rcases handle_cases P registry s i result fresh with hr | ⟨w, hw, hr⟩
    · rw [hr]
      exact h
    · have hrest : ∀ v ∈ s.waiting.eraseIdx i, v ∈ s.waiting :=
        fun v hv => List.mem_of_mem_eraseIdx hv
      rw [hr]
      cases result with
      | none => exact h.stay rfl (calls_leave s _ _) fun v hv => .inl (hrest v hv)
      | some result =>
        cases result with
        | error e => exact h.stay rfl (calls_leave s _ _) fun v hv => .inl (hrest v hv)
        | ok response =>
          exact h.respond (List.mem_of_getElem? hw) hfresh (horder w response hw rfl) hrest

theorem inv_of_boot {threads : ThreadRegistry} (hb : Boot threads) :
    Inv P (Traffic.boot (F := F) threads) := by
  refine ⟨hb.sound.consistent, ?_, ?_, fun _ hw => nomatch hw⟩
  · intro id chain hl
    cases hb with
    | new => cases hl
    | root organismName fresh _ =>
      have hinsert : (ThreadRegistry.new.insert ("system." ++ organismName) fresh).lookup id =
          some chain := hl
      rcases lookup_insert_cases hinsert with ⟨_, rfl⟩ | ⟨_, hold⟩
      · exact .inl (.inr ⟨rfl, .inl rfl⟩)
      · cases hold
  · intro id chain hl hn
    cases hb with
    | new => cases hl
    | root organismName fresh _ =>
      have hinsert : (ThreadRegistry.new.insert ("system." ++ organismName) fresh).lookup id =
          some chain := hl
      rcases lookup_insert_cases hinsert with ⟨_, rfl⟩ | ⟨_, hold⟩
      · exact absurd (.inr ⟨rfl, .inl rfl⟩) hn
      · cases hold

/-! ## Steps that are in order -/

theorem inOrder_route {s : Traffic F} {i : ℕ} {raw : Bytes} {source : Source} {msg : RoutedMsg F}
    (hitem : s.queue[i]? = some ⟨raw, source⟩)
    (hf : (ingress P registry federation s.threads raw).2 = .routed (.forwarded msg))
    (hfit : Fitting P s source msg) : InOrder P registry federation s (.route i) := by
  intro item other hother hf'
  obtain rfl := Option.some_inj.mp (hitem.symm.trans hother)
  obtain rfl := RouteOutcome.forwarded.inj (IngressOutcome.routed.inj (hf.symm.trans hf'))
  exact hfit

theorem inOrder_handle {s : Traffic F} {i : ℕ} {w : Waiting F} {response : HandlerResponse F}
    (hw : s.waiting[i]? = some w) (hplain : Plainly registry s.threads w.msg response)
    (fresh : String) :
    InOrder P registry federation s (.handle i (some (.ok response)) fresh) := by
  intro other response' hother hresult
  obtain rfl := Option.some_inj.mp (hw.symm.trans hother)
  obtain rfl := Except.ok.inj (Option.some_inj.mp hresult)
  exact hplain

theorem fitting_of_known {s : Traffic F} {source : Source} {msg : RoutedMsg F} {chain : String}
    (hl : s.threads.lookup (thread msg) = some chain)
    (hlast : SameName P (lastPart chain) msg.targetName) : Fitting P s source msg := by
  constructor
  · intro other hother
    obtain rfl := Option.some_inj.mp (hl.symm.trans hother)
    exact hlast
  · intro hnone
    cases hl.symm.trans hnone

/-- A message between plain listeners opens a thread on which nothing waits. -/
theorem fitting_of_new {s : Traffic F} {source : Source} {msg : RoutedMsg F}
    (hl : s.threads.lookup (thread msg) = none) (hsource : source ≠ .answer)
    (hdot : '.' ∉ msg.targetName.toList) (halone : ∀ w ∈ s.waiting, thread w.msg ≠ thread msg) :
    Fitting P s source msg := by
  constructor
  · intro chain hchain
    cases hl.symm.trans hchain
  · intro _ _
    exact ⟨hsource, hdot, fun w hw hid => absurd hid (halone w hw)⟩

theorem not_underRoot {threads : ThreadRegistry} (h : threads.rootUuid = none) (chain : String) :
    ¬ UnderRoot threads chain := by
  intro hroot
  have hsome := hroot.1
  rw [h] at hsome
  cases hsome

theorem freshFor_one {threads : ThreadRegistry} {queue : List Item} {w : Waiting F}
    {called : List Call} {fresh : String} (hunused : threads.uuidToChain fresh = none)
    (hunseen : thread w.msg ≠ fresh) : FreshFor ⟨threads, queue, [w], called⟩ fresh := by
  refine ⟨hunused, ?_⟩
  intro v hv
  rw [List.mem_singleton.mp hv]
  exact hunseen

end RustPipeline.OrderedRuns
