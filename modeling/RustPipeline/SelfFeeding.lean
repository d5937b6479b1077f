import RustPipeline.Foundation.Tokens
import RustPipeline.Interleaving
import RustPipeline.RegistryOps
import RustPipeline.ThreadProvenance

set_option autoImplicit false

/-!
# The self-feeding loop dies out

Once nothing comes from outside and the handlers only answer, every message in flight is a token on
its thread id, ranked by the chain of the id. An answer goes to a shorter chain, or the id is new to
the registry, or the message is the last of its chain; so only finitely many are dispatched.
-/
namespace RustPipeline.SelfFeeding
open Text Wire Codec CodecImage Handling Routing Registry Thread Federation Pipeline PipelineRuns
open Ingress Lanes TransitionSystem Interleaving Tokens RegistryOps Separated CallReturn
open ThreadProvenance PlainPlatform

variable {F : Type}

/-! ## The registry -/

/-- Off the wire the id reads back as itself, if at all. -/
def Legible (id : String) : Prop := ∀ text, headerText id = some text → text = id

theorem legible_of_trimmed {id : String} (h : trim id = id) : Legible id :=
  fun _ ht => (headerText_of_trimmed h ht).symm

structure Clean (t : ThreadRegistry) : Prop where
  filed : Filed t
  legible : ∀ id chain, t.lookup id = some chain → Legible id

namespace Clean

variable {t : ThreadRegistry}

theorem insert (h : Clean t) (chain : String) {uuid : String} (hu : t.uuidToChain uuid = none)
    (hl : Legible uuid) : Clean (t.insert chain uuid) where
  filed := h.filed.insert chain hu
  legible id c hc := by
    change Function.update t.uuidToChain uuid (some chain) id = some c at hc
    by_cases hid : id = uuid
    · rw [hid]
      exact hl
    · rw [Function.update_of_ne hid] at hc
      exact h.legible id c hc

theorem getOrCreate (h : Clean t) (chain : String) {fresh : String} (hf : FreshUuid t fresh) :
    Clean (t.getOrCreate chain fresh).2 := by
  unfold ThreadRegistry.getOrCreate
  cases t.chainToUuid chain with
  | some uuid => exact h
  | none => exact h.insert chain hf.unused (legible_of_trimmed hf.trimmed)

theorem cleanup (h : Clean t) (threadId : String) : Clean (t.cleanup threadId) where
  filed := h.filed.cleanup threadId
  legible id c hc := by
    unfold ThreadRegistry.cleanup at hc
    cases hu : t.uuidToChain threadId with
    | none =>
      rw [hu] at hc
      exact h.legible id c hc
    | some chain =>
      rw [hu] at hc
      change Function.update t.uuidToChain threadId none id = some c at hc
      by_cases hid : id = threadId
      · rw [hid, Function.update_self] at hc
        cases hc
      · rw [Function.update_of_ne hid] at hc
        exact h.legible id c hc

theorem pruneForResponse (h : Clean t) (threadId : String) {fresh : String}
    (hf : FreshUuid t fresh) : Clean (t.pruneForResponse threadId fresh).2 := by
  unfold ThreadRegistry.pruneForResponse
  cases t.uuidToChain threadId with
  | none => exact h
  | some chain =>
    dsimp only
    split_ifs
    · exact h.cleanup threadId
    · exact h.getOrCreate _ hf

theorem registerThread (h : Clean t) {threadId : String} (hl : Legible threadId)
    (fromName targetName : String) :
    Clean (Pipeline.registerThread t threadId fromName targetName) := by
  unfold Pipeline.registerThread ThreadRegistry.lookup ThreadRegistry.registerThread
  cases hu : t.uuidToChain threadId with
  | some chain => exact h
  | none =>
    cases hc : t.chainToUuid (t.rootedChain fromName targetName) with
    | some uuid => simpa [hc] using h
    | none => simpa [hc] using h.insert _ hu hl

end Clean

/-- The rank of a thread id is the length of its chain. -/
def rank (t : ThreadRegistry) (id : String) : Option ℕ := (t.lookup id).map String.length

theorem extends_of_lookup {t t' : ThreadRegistry}
    (h : ∀ id chain, t.lookup id = some chain → t'.lookup id = some chain) :
    Extends (rank t) (rank t') := by
  intro id n hr
  obtain ⟨chain, hc, rfl⟩ := Option.map_eq_some_iff.mp hr
  exact Option.map_eq_some_iff.mpr ⟨chain, h id chain hc, rfl⟩

theorem extends_registerThread (t : ThreadRegistry) (threadId fromName targetName : String) :
    Extends (rank t) (rank (Pipeline.registerThread t threadId fromName targetName)) := by
  apply extends_of_lookup
  intro id chain h
  unfold Pipeline.registerThread
  cases t.lookup threadId with
  | some c => exact h
  | none => exact lookup_registerThread h

theorem length_parent_lt {chain : String} (hd : '.' ∈ chain.toList) :
    (parent '.' chain).length < chain.length := by
  obtain ⟨a, b, rfl, hb⟩ := exists_last_part hd
  rw [parent_append_part a hb]
  simp only [String.length_append, String.length_singleton]
  omega

/-- An answer that has somewhere to go goes to a shorter chain. -/
theorem pruned_lower {t t' : ThreadRegistry} (h : Clean t) {id fresh : String}
    (hf : FreshUuid t fresh) {prune : PruneResult}
    (hp : t.pruneForResponse id fresh = (some prune, t')) :
    Extends (rank t) (rank t') ∧ ∃ m n, rank t id = some m ∧ rank t' prune.threadId = some n ∧
      n < m := by
  have hsome : (t.pruneForResponse id fresh).1.isSome := by
    rw [hp]
    rfl
  obtain ⟨chain, hc, hd⟩ := (pruneForResponse_isSome t id fresh).mp hsome
  have heq := hp.symm.trans (pruneForResponse_some fresh hc hd)
  rw [Prod.mk.injEq, Option.some_inj] at heq
  obtain ⟨rfl, rfl⟩ := heq
  refine ⟨extends_of_lookup fun _ _ hl => lookup_getOrCreate hf.unused hl, chain.length,
    (parent '.' chain).length, ?_, ?_, length_parent_lt hd⟩
  · rw [rank, hc]
    rfl
  · have hfiled := (h.filed.getOrCreate (parent '.' chain) hf.unused) _ _
      (getOrCreate_chain t (parent '.' chain) fresh)
    exact Option.map_eq_some_iff.mpr ⟨_, hfiled, rfl⟩

/-! ## The messages in flight -/

section
variable (P : Platform F)

def itemTokens (raw : Bytes) : Multiset (Token String) :=
  match decodeEnvelope P raw with
  | .ok env => {(env.header.thread, 1)}
  | .error _ => 0

def effectTokens : Effect F → Multiset (Token String)
  | .onClose _ => 0
  | .onOpen _ _ _ _ => 0
  | .answer _ raw => itemTokens P raw
  | .call _ raw => itemTokens P raw

/-- A worker that is calling counts for more than the two messages that it may put on the
    ingress. -/
def progressTokens (k : String) : Progress F → Multiset (Token String)
  | .idle => 0
  | .handling => {(k, 0)}
  | .answering _ => {(k, 0)}
  | .calling _ _ _ => Multiset.replicate 3 (k, 0)
  | .emitting _ effects => (effects.map (effectTokens P)).sum

def workerTokens (s : State F) (k : String) : Multiset (Token String) :=
  Multiset.replicate (s.lanes.lane k).waiting.length (k, 1) + progressTokens P k (s.progress k)

def keys (s : State F) : Finset String := (s.lanes.accepted.map Job.thread).toFinset

def queueTokens (queue : List (Item F)) : Multiset (Token String) :=
  (queue.map fun item => itemTokens P item.raw).sum

def routedTokens (routed : List (Job F)) : Multiset (Token String) :=
  routed.map fun job => (job.thread, 1)

/-- One token for each message in flight; it takes one step on its thread id, its dispatch. -/
def live (s : State F) : Multiset (Token String) :=
  queueTokens P s.queue + routedTokens s.routed + ∑ k ∈ keys s, workerTokens P s k

end

variable {P : Platform F} {registry : ListenerRegistry F} {federation : Option PeerDirectory}

theorem itemTokens_card (raw : Bytes) : (itemTokens P raw).card ≤ 1 := by
  unfold itemTokens
  cases decodeEnvelope P raw with
  | ok env => exact le_rfl
  | error e => exact Nat.zero_le 1

theorem queueTokens_append (queue rest : List (Item F)) :
    queueTokens P (queue ++ rest) = queueTokens P queue + queueTokens P rest := by
  simp [queueTokens]

theorem queueTokens_injected (job : Job F) (call : Option (CallEdge F)) (effect : Effect F) :
    queueTokens P (injected job call effect) = effectTokens P effect := by
  cases effect with
  | onClose thread => rfl
  | onOpen caller callee thread kind => rfl
  | answer env raw => exact add_zero _
  | call env raw => exact add_zero _

/-- The lanes hold what was accepted, and a worker without a message is idle. -/
structure Orderly (s : State F) : Prop where
  lanes : Accounted Job.thread s.lanes
  idle : ∀ k, s.running k = none → s.progress k = .idle

namespace Orderly

variable {s : State F}

theorem accepted (h : Orderly s) {k : String} {job : Job F}
    (hj : job ∈ (s.lanes.lane k).contents) : job.thread = k ∧ k ∈ keys s := by
  rw [← h.lanes k, List.mem_filter, decide_eq_true_eq] at hj
  refine ⟨hj.2, ?_⟩
  rw [keys, List.mem_toFinset, ← hj.2]
  exact List.mem_map_of_mem hj.1

theorem running (h : Orderly s) {k : String} {job : Job F} (hr : s.running k = some job) :
    job.thread = k ∧ k ∈ keys s := by
  apply h.accepted
  have hr' : (s.lanes.lane k).running = some job := hr
  simp [Lane.contents, hr']

/-- A lane that nothing was accepted for has no tokens. -/
theorem workerTokens_eq_zero (h : Orderly s) {k : String} (hk : k ∉ keys s) :
    workerTokens P s k = 0 := by
  have hempty : (s.lanes.lane k).contents = [] := by
    apply List.eq_nil_iff_forall_not_mem.mpr
    intro job hj
    exact hk (h.accepted hj).2
  simp only [Lane.contents, List.append_eq_nil_iff, Option.toList_eq_nil_iff] at hempty
  obtain ⟨⟨_, hr⟩, hw⟩ := hempty
  unfold workerTokens
  rw [hw, h.idle k hr]
  rfl

theorem sum_keys (h : Orderly s) {K : Finset String} (hK : keys s ⊆ K) :
    ∑ k ∈ K, workerTokens P s k = ∑ k ∈ keys s, workerTokens P s k := by
  refine (Finset.sum_subset hK ?_).symm
  intro k _ hk
  exact h.workerTokens_eq_zero hk

/-- A worker with a message moves on. -/
theorem setProgress {t : State F} (h : Orderly s) {k : String} {job : Job F} {p : Progress F}
    (hr : s.running k = some job) (hlanes : t.lanes = s.lanes)
    (hprogress : t.progress = Function.update s.progress k p) : Orderly t where
  lanes := by
    rw [hlanes]
    exact h.lanes
  idle i hi := by
    unfold State.running at hi
    rw [hlanes] at hi
    have hik : i ≠ k := by
      intro he
      rw [he, show (s.lanes.lane k).running = some job from hr] at hi
      cases hi
    rw [hprogress, Function.update_of_ne hik]
    exact h.idle i hi

theorem step {t : State F} {e : Event F} (h : Orderly s)
    (hs : Step P registry federation s e t) : Orderly t := by
  have hlanes : Accounted Job.thread t.lanes := by
    rcases step_lanes hs with heq | hl
    · rw [heq]
      exact h.lanes
    · exact h.lanes.step hl
  cases hs with
  | inject raw => exact ⟨hlanes, h.idle⟩
  | route item rest hq =>
    refine ⟨hlanes, ?_⟩
    intro k hk
    unfold State.running at hk
    rw [s.take_lanes] at hk
    rw [s.take_progress]
    exact h.idle k hk
  | accept job rest hq =>
    refine ⟨hlanes, ?_⟩
    intro k hk
    exact h.idle k ((accepted_running job s.lanes k).symm.trans hk)
  | start k job fin rest hl hp =>
    refine ⟨hlanes, ?_⟩
    intro i hi
    change (Function.update s.lanes.lane k _ i).running = none at hi
    by_cases hik : i = k
    · rw [hik, Function.update_self] at hi
      cases hi
    · rw [Function.update_of_ne hik] at hi
      exact (Function.update_of_ne hik _ _).trans (h.idle i hi)
  | handled k job result hr hp hh => exact h.setProgress hr rfl rfl
  | prune k fresh job payload hr hp => exact h.setProgress hr rfl rfl
  | extend k fresh job kind toAddr payload hr hp => exact h.setProgress hr rfl rfl
  | emit k job call effect rest hr hp => exact h.setProgress hr rfl rfl
  | finish k job call fin rest hl hp =>
    refine ⟨hlanes, ?_⟩
    intro i hi
    change (Function.update s.lanes.lane k _ i).running = none at hi
    change Function.update s.progress k .idle i = .idle
    by_cases hik : i = k
    · rw [hik, Function.update_self]
    · rw [Function.update_of_ne hik] at hi ⊢
      exact h.idle i hi

end Orderly

theorem orderly_of_reachable {condition : State F → Event F → Prop} {s : State F}
    (hs : Reachable (guarded P registry federation condition) s) : Orderly s := by
  apply hs.invariant
  · intro s h
    obtain ⟨threads, rfl⟩ := h
    refine ⟨?_, fun _ _ => rfl⟩
    intro k
    rfl
  · intro s t h hst
    obtain ⟨e, _, he⟩ := hst
    exact h.step he

/-! ## One quiet step -/

/-- Nothing is injected, handling ends in a reply, in nothing or in an error, and a generated UUID
    is new. -/
def Quiet (s : State F) : Event F → Prop
  | .inject _ => False
  | .handled _ result => ∀ response, result = some (.ok response) →
      response = .none ∨ ∃ payload, response = .reply payload
  | .prune _ fresh => FreshUuid s.threads fresh
  | .extend _ fresh => FreshUuid s.threads fresh
  | _ => True

variable (P) in
def State.size (s : State F) : ℕ ×ₗ ℕ ×ₗ ℕ := Tokens.size (rank s.threads) (live P s)

/-- The tokens of the other workers and of what is routed stay as they are. -/
theorem live_worker {s t : State F} {k : String} (hk : k ∈ keys s)
    (haccepted : t.lanes.accepted = s.lanes.accepted) (hrouted : t.routed = s.routed)
    (hother : ∀ i, i ≠ k → workerTokens P t i = workerTokens P s i) :
    ∃ rest, live P s = workerTokens P s k + (queueTokens P s.queue + rest) ∧
      live P t = workerTokens P t k + (queueTokens P t.queue + rest) := by
  have hkeys : keys t = keys s := by
    rw [keys, keys, haccepted]
  refine ⟨routedTokens s.routed + ∑ i ∈ (keys s).erase k, workerTokens P s i, ?_, ?_⟩
  · unfold live
    rw [← Finset.add_sum_erase _ _ hk]
    abel
  · have hsum : ∑ i ∈ (keys s).erase k, workerTokens P t i =
        ∑ i ∈ (keys s).erase k, workerTokens P s i := by
      apply Finset.sum_congr rfl
      intro i hi
      exact hother i (Finset.ne_of_mem_erase hi)
    unfold live
    rw [hkeys, hrouted, ← Finset.add_sum_erase _ _ hk, hsum]
    abel

/-- A worker moves on with its message. -/
theorem live_progress {s t : State F} (h : Orderly s) {k : String} {job : Job F} {p q : Progress F}
    (hr : s.running k = some job) (hp : s.progress k = p) (hlanes : t.lanes = s.lanes)
    (hrouted : t.routed = s.routed) (hprogress : t.progress = Function.update s.progress k q) :
    ∃ rest, live P s = progressTokens P k p + (queueTokens P s.queue + rest) ∧
      live P t = progressTokens P k q + (queueTokens P t.queue + rest) := by
  have hother : ∀ i, i ≠ k → workerTokens P t i = workerTokens P s i := by
    intro i hi
    rw [workerTokens, workerTokens, hlanes, hprogress, Function.update_of_ne hi]
  obtain ⟨rest, hs, ht⟩ := live_worker (h.running hr).2 (by rw [hlanes]) hrouted hother
  refine ⟨Multiset.replicate (s.lanes.lane k).waiting.length (k, 1) + rest, ?_, ?_⟩
  · rw [hs, workerTokens, hp]
    abel
  · rw [ht, workerTokens, hlanes, hprogress, Function.update_self]
    abel

theorem size_handled {s : State F} (h : Orderly s) {k : String} {job : Job F}
    {result : Option (Except PipelineError (HandlerResponse F))} (hr : s.running k = some job)
    (hp : s.progress k = .handling) (hq : Quiet s (.handled k result)) :
    State.size P (s.handled P registry k job result) ≤ State.size P s := by
  have hle : progressTokens P k (afterHandler P registry job.msg result) ≤ {(k, 0)} := by
    cases result with
    | none => exact Multiset.zero_le _
    | some r =>
      cases r with
      | error e => exact Multiset.zero_le _
      | ok response =>
        rcases hq response rfl with rfl | ⟨payload, rfl⟩
        · exact le_rfl
        · exact le_rfl
  obtain ⟨rest, hs, ht⟩ := live_progress (P := P)
    (t := s.handled P registry k job result) h hr hp rfl rfl rfl
  apply size_le_of_le
  rw [hs, ht]
  exact add_le_add_left hle _

/-- The token of an answer stands on the thread id of the answer. -/
theorem itemTokens_answer (lawful : Lawful P) (msg : RoutedMsg F) (payload : Payload F)
    {prune : PruneResult} (hl : Legible prune.threadId) :
    itemTokens P (encodeEnvelope P (answerEnvelope msg prune payload)) = 0 ∨
      itemTokens P (encodeEnvelope P (answerEnvelope msg prune payload)) =
        {(prune.threadId, 1)} := by
  unfold itemTokens
  cases hd : decodeEnvelope P (encodeEnvelope P (answerEnvelope msg prune payload)) with
  | error e => exact .inl rfl
  | ok env =>
    rw [decode_encode lawful, RoundTrip.wireImage_eq_ok] at hd
    have hthread : headerText prune.threadId = some env.header.thread := hd.2.2.1
    change {(env.header.thread, 1)} = (0 : Multiset (Token String)) ∨
      {(env.header.thread, 1)} = ({(prune.threadId, 1)} : Multiset (Token String))
    rw [hl _ hthread]
    exact .inr rfl

theorem size_pruned (lawful : Lawful P) {s : State F} (h : Orderly s) (hc : Clean s.threads)
    {k fresh : String} {job : Job F} {payload : Payload F} (hr : s.running k = some job)
    (hp : s.progress k = .answering payload) (hf : FreshUuid s.threads fresh) :
    State.size P (s.pruned P k fresh job payload) ≤ State.size P s := by
  obtain ⟨hjob, _⟩ := h.running hr
  obtain ⟨prune, threads, hx⟩ : ∃ prune threads,
      s.threads.pruneForResponse k fresh = (prune, threads) := ⟨_, _, rfl⟩
  have heq : s.pruned P k fresh job payload =
      { s.setProgress k (.emitting none (answerEffects P job.msg payload prune)) with
        threads := threads } := by
    unfold State.pruned
    rw [hjob, hx]
  obtain ⟨rest, hs, ht⟩ := live_progress (P := P)
    (t := { s.setProgress k (.emitting none (answerEffects P job.msg payload prune)) with
      threads := threads }) h hr hp rfl rfl rfl
  rw [heq]
  unfold State.size
  rw [hs, ht]
  cases prune with
  | none =>
    -- The message was the last of its chain, or its id is not registered.
    apply le_of_lt
    apply size_lt_of_card
    simp [progressTokens, answerEffects, State.setProgress]
  | some prune =>
    obtain ⟨hext, m, n, hm, hn, hlt⟩ := pruned_lower hc hf hx
    obtain ⟨chain, hchain, _⟩ := Option.map_eq_some_iff.mp hn
    have hlegible : Legible prune.threadId := by
      have hclean := hc.pruneForResponse k hf
      rw [hx] at hclean
      exact hclean.legible _ chain hchain
    have htokens : progressTokens P k (.emitting none (answerEffects P job.msg payload
        (some prune))) = itemTokens P (encodeEnvelope P (answerEnvelope job.msg prune payload)) :=
      add_zero _
    rw [htokens]
    rcases itemTokens_answer lawful job.msg payload hlegible with h0 | h1
    · apply le_of_lt
      apply size_lt_of_card
      rw [h0]
      simp [progressTokens, State.setProgress]
    · rw [h1]
      have hk := hext k m hm
      calc Tokens.size (rank threads) ({(prune.threadId, 1)} + (queueTokens P s.queue + rest))
          ≤ Tokens.size (rank threads) ({(k, 0)} + (queueTokens P s.queue + rest)) :=
            (size_lt_of_rank hk hn hlt).le
        _ ≤ Tokens.size (rank s.threads) ({(k, 0)} + (queueTokens P s.queue + rest)) :=
            size_le_of_extends hext _

theorem callEffects_card (k : String) (call : Option (CallEdge F)) (msg : RoutedMsg F)
    (kind : CallKind) (toAddr : Address) (payload : Payload F) (id : String) :
    (progressTokens P k (.emitting call (callEffects P msg kind toAddr payload id))).card ≤ 2 := by
  have hcall := itemTokens_card (P := P) (encodeEnvelope P (callEnvelope msg toAddr id payload))
  have hack := itemTokens_card (P := P)
    (encodeEnvelope P (spawnAckEnvelope msg toAddr.organismName true))
  cases kind with
  | sync =>
    change (itemTokens P (encodeEnvelope P (callEnvelope msg toAddr id payload)) + (0 + 0)).card ≤ 2
    rw [add_zero, add_zero]
    omega
  | async =>
    change (itemTokens P (encodeEnvelope P (callEnvelope msg toAddr id payload)) + (0 +
      (itemTokens P (encodeEnvelope P (spawnAckEnvelope msg toAddr.organismName true)) +
        0))).card ≤ 2
    rw [zero_add, add_zero, Multiset.card_add]
    omega

/-- Two messages at most take the place of a call, which counts for three. -/
theorem size_extended {s : State F} (h : Orderly s) {k fresh : String} {job : Job F}
    {kind : CallKind} {toAddr : Address} {payload : Payload F} (hr : s.running k = some job)
    (hp : s.progress k = .calling kind toAddr payload) :
    State.size P (s.extended P k fresh job kind toAddr payload) ≤ State.size P s := by
  obtain ⟨id, threads, hx⟩ : ∃ id threads,
      s.threads.extendChain job.thread toAddr.organismName fresh = (id, threads) := ⟨_, _, rfl⟩
  have hcard := callEffects_card (P := P) k (some ⟨s.calls.length, job.msg, toAddr, kind, id⟩)
    job.msg kind toAddr payload id
  rw [State.extended_eq hx]
  obtain ⟨rest, hs, ht⟩ := live_progress (P := P)
    (t := { s.setProgress k (.emitting (some ⟨s.calls.length, job.msg, toAddr, kind, id⟩)
        (callEffects P job.msg kind toAddr payload id)) with
      threads := threads
      calls := s.calls ++ [⟨s.calls.length, job.msg, toAddr, kind, id⟩] }) h hr hp rfl rfl rfl
  apply le_of_lt
  apply size_lt_of_card
  rw [hs, ht]
  have hthree : (progressTokens P k (.calling kind toAddr payload)).card = 3 :=
    Multiset.card_replicate 3 (k, 0)
  simp only [State.setProgress, Multiset.card_add]
  omega

theorem size_emitted {s : State F} (h : Orderly s) {k : String} {job : Job F}
    {call : Option (CallEdge F)} {effect : Effect F} {rest : List (Effect F)}
    (hr : s.running k = some job) (hp : s.progress k = .emitting call (effect :: rest)) :
    State.size P (s.emitted k job call effect rest) ≤ State.size P s := by
  obtain ⟨others, hs, ht⟩ := live_progress (P := P)
    (t := s.emitted k job call effect rest) h hr hp rfl rfl rfl
  have hqueue : (s.emitted k job call effect rest).queue =
      s.queue ++ injected job call effect := rfl
  have hlive : live P (s.emitted k job call effect rest) = live P s := by
    rw [hs, ht, hqueue, queueTokens_append, queueTokens_injected]
    simp only [progressTokens, List.map_cons, List.sum_cons]
    abel
  exact (congrArg (Tokens.size (rank s.threads)) hlive).le

/-- A message is dispatched: its token takes its step. -/
theorem size_started {s : State F} (h : Orderly s) {k : String} {job : Job F}
    {fin rest : List (Job F)} (hl : s.lanes.lane k = ⟨fin, none, job :: rest⟩)
    (hp : s.progress k = .idle) :
    State.size P { s.setProgress k .handling with lanes := s.lanes.set k ⟨fin, some job, rest⟩ } <
      State.size P s := by
  have hmem : job ∈ (s.lanes.lane k).contents := by
    simp [Lane.contents, hl]
  obtain ⟨others, hs, ht⟩ := live_worker (P := P) (s := s)
    (t := { s.setProgress k .handling with lanes := s.lanes.set k ⟨fin, some job, rest⟩ })
    (h.accepted hmem).2 rfl rfl (by
      intro i hi
      unfold workerTokens
      simp only [State.setProgress, Lanes.State.set, Function.update_of_ne hi])
  unfold State.size
  rw [hs, ht]
  have h1 : workerTokens P s k = (k, 1) ::ₘ Multiset.replicate rest.length (k, 1) := by
    simp [workerTokens, hl, hp, progressTokens, Multiset.replicate_succ]
  have h2 : workerTokens P { s.setProgress k .handling with
      lanes := s.lanes.set k ⟨fin, some job, rest⟩ } k =
        (k, 0) ::ₘ Multiset.replicate rest.length (k, 1) := by
    simp only [workerTokens, Lanes.State.set, State.setProgress, Function.update_self,
      progressTokens]
    rw [add_comm, Multiset.singleton_add]
  rw [h1, h2, Multiset.cons_add, Multiset.cons_add]
  exact size_lt_of_step k 0

theorem size_finished {s : State F} (h : Orderly s) {k : String} {job : Job F}
    {call : Option (CallEdge F)} {fin rest : List (Job F)}
    (hl : s.lanes.lane k = ⟨fin, some job, rest⟩) (hp : s.progress k = .emitting call []) :
    State.size P { s.setProgress k .idle with lanes := s.lanes.set k ⟨fin ++ [job], none, rest⟩ } ≤
      State.size P s := by
  have hmem : job ∈ (s.lanes.lane k).contents := by
    simp [Lane.contents, hl]
  obtain ⟨others, hs, ht⟩ := live_worker (P := P) (s := s)
    (t := { s.setProgress k .idle with lanes := s.lanes.set k ⟨fin ++ [job], none, rest⟩ })
    (h.accepted hmem).2 rfl rfl (by
      intro i hi
      unfold workerTokens
      simp only [State.setProgress, Lanes.State.set, Function.update_of_ne hi])
  have hworker : workerTokens P { s.setProgress k .idle with
      lanes := s.lanes.set k ⟨fin ++ [job], none, rest⟩ } k = workerTokens P s k := by
    simp [workerTokens, hl, hp, progressTokens, Lanes.State.set, State.setProgress]
  unfold State.size
  rw [hs, ht, hworker]
  exact le_rfl

/-- A message is handed to its lane, which may be a new one. -/
theorem size_accepted {s : State F} (h : Orderly s) {job : Job F} {rest : List (Job F)}
    (hq : s.routed = job :: rest) :
    State.size P { s with routed := rest, lanes := accepted job s.lanes } = State.size P s := by
  have hkeys : keys { s with routed := rest, lanes := accepted job s.lanes } =
      insert job.thread (keys s) := by
    ext k
    simp only [keys, accepted, List.map_append, List.map_cons, List.map_nil, List.mem_toFinset,
      List.mem_append, List.mem_singleton, Finset.mem_insert]
    exact or_comm
  have hnew : workerTokens P { s with routed := rest, lanes := accepted job s.lanes } job.thread =
      (job.thread, 1) ::ₘ workerTokens P s job.thread := by
    simp only [workerTokens, accepted, Function.update_self, Lane.accept, List.length_append,
      List.length_singleton, Multiset.replicate_succ, Multiset.cons_add]
  have hold : ∀ k, k ≠ job.thread →
      workerTokens P { s with routed := rest, lanes := accepted job s.lanes } k =
        workerTokens P s k := by
    intro k hk
    simp only [workerTokens, accepted, Function.update_of_ne hk]
  have hsum : ∑ k ∈ insert job.thread (keys s),
      workerTokens P { s with routed := rest, lanes := accepted job s.lanes } k =
        (job.thread, 1) ::ₘ ∑ k ∈ keys s, workerTokens P s k := by
    have hmem := Finset.mem_insert_self job.thread (keys s)
    rw [← h.sum_keys (Finset.subset_insert job.thread (keys s)), ← Finset.add_sum_erase _ _ hmem,
      ← Finset.add_sum_erase _ _ hmem, hnew, Multiset.cons_add]
    congr 2
    apply Finset.sum_congr rfl
    intro k hk
    exact hold k (Finset.ne_of_mem_erase hk)
  have hlive : live P { s with routed := rest, lanes := accepted job s.lanes } = live P s := by
    unfold live
    rw [hkeys, hsum, hq]
    simp only [routedTokens, List.map_cons, ← Multiset.cons_coe, ← Multiset.singleton_add]
    abel
  exact congrArg (Tokens.size (rank s.threads)) hlive

/-- What the route stage forwards stays on its thread, and what it drops goes. -/
theorem size_taken {s : State F} {item : Item F} {rest : List (Item F)}
    (hq : s.queue = item :: rest) :
    State.size P (s.take P registry federation item rest) ≤ State.size P s := by
  have hlive : live P s = itemTokens P item.raw +
      (queueTokens P rest + routedTokens s.routed + ∑ k ∈ keys s, workerTokens P s k) := by
    unfold live queueTokens
    rw [hq, List.map_cons, List.sum_cons]
    abel
  rcases s.take_cases (P := P) item rest with ⟨msg, hd, ht⟩ | ht
  · have htokens : itemTokens P item.raw = {(msg.envelope.header.thread, 1)} := by
      unfold itemTokens
      rw [hd]
    have hrouted : routedTokens (s.routed ++ [⟨msg, item.origin⟩]) =
        routedTokens s.routed + {(msg.envelope.header.thread, 1)} := by
      simp [routedTokens, Job.thread, Dispatch.key, ← Multiset.coe_add]
    have hsame : live P (s.take P registry federation item rest) = live P s := by
      rw [hlive, htokens, ht]
      change queueTokens P rest + routedTokens (s.routed ++ [⟨msg, item.origin⟩]) +
        ∑ k ∈ keys s, workerTokens P s k = _
      rw [hrouted]
      abel
    unfold State.size
    rw [hsame, ht]
    exact size_le_of_extends (extends_registerThread _ _ _ _) _
  · rw [ht]
    apply size_le_of_le
    rw [hlive]
    exact Multiset.le_add_left _ _

/-! ## A quiet run -/

theorem Clean.step {s t : State F} {e : Event F} (h : Clean s.threads) (hq : Quiet s e)
    (hs : Step P registry federation s e t) : Clean t.threads := by
  cases hs with
  | inject raw => exact h
  | route item rest hqueue =>
    rcases s.take_cases (P := P) item rest with ⟨msg, hd, ht⟩ | ht
    · have hlegible : Legible msg.envelope.header.thread :=
        legible_of_trimmed (CodecTotality.decodeEnvelope_thread P hd)
      rw [ht]
      exact h.registerThread hlegible msg.envelope.header.fromAddr.organismName msg.targetName
    · rw [ht]
      exact h
  | accept job rest hr => exact h
  | start k job fin rest hl hp => exact h
  | handled k job result hr hp hh => exact h
  | prune k fresh job payload hr hp => exact h.pruneForResponse job.thread hq
  | extend k fresh job kind toAddr payload hr hp => exact h.getOrCreate _ hq
  | emit k job call effect rest hr hp => exact h
  | finish k job call fin rest hl hp => exact h

theorem size_step (lawful : Lawful P) {s t : State F} {e : Event F} (h : Orderly s)
    (hc : Clean s.threads) (hq : Quiet s e) (hs : Step P registry federation s e t) :
    State.size P t ≤ State.size P s := by
  cases hs with
  | inject raw => cases hq
  | route item rest hqueue => exact size_taken hqueue
  | accept job rest hr => exact (size_accepted h hr).le
  | start k job fin rest hl hp => exact (size_started h hl hp).le
  | handled k job result hr hp hh => exact size_handled h hr hp hq
  | prune k fresh job payload hr hp => exact size_pruned lawful h hc hr hp hq
  | extend k fresh job kind toAddr payload hr hp => exact size_extended h hr hp
  | emit k job call effect rest hr hp => exact size_emitted h hr hp
  | finish k job call fin rest hl hp => exact size_finished h hl hp

theorem size_start {s t : State F} {k : String} (h : Orderly s)
    (hs : Step P registry federation s (.start k) t) : State.size P t < State.size P s := by
  cases hs with
  | start k job fin rest hl hp => exact size_started h hl hp

variable (P registry federation) in
/-- A run that goes on for ever or rests for ever in its last state, all of whose steps are
    quiet. -/
structure QuietRun (run : ℕ → State F) (event : ℕ → Option (Event F)) : Prop where
  rest : ∀ i, event i = none → run (i + 1) = run i
  step : ∀ i e, event i = some e →
    Quiet (run i) e ∧ Step P registry federation (run i) e (run (i + 1))

def Dispatches (event : ℕ → Option (Event F)) : Set ℕ := {i | ∃ k, event i = some (.start k)}

theorem QuietRun.kept {run : ℕ → State F} {event : ℕ → Option (Event F)}
    (h : QuietRun P registry federation run event) (ho : Orderly (run 0))
    (hc : Clean (run 0).threads) (i : ℕ) : Orderly (run i) ∧ Clean (run i).threads := by
  induction i with
  | zero => exact ⟨ho, hc⟩
  | succ i ih =>
    obtain ⟨ho, hc⟩ := ih
    cases he : event i with
    | none =>
      rw [h.rest i he]
      exact ⟨ho, hc⟩
    | some e =>
      obtain ⟨hq, hs⟩ := h.step i e he
      exact ⟨ho.step hs, hc.step hq hs⟩

theorem Orderly.setThreads {s : State F} (h : Orderly s) (threads : ThreadRegistry) :
    Orderly { s with threads := threads } := ⟨h.lanes, h.idle⟩

/-- Any messages are in flight and the registry is any that the operations make, in which no id
    reads back as another one: only finitely many more are dispatched. -/
theorem finite_dispatches (lawful : Lawful P) {s : State F}
    (hs : Reachable (guarded P registry federation fun _ _ => True) s) {ops : List Op}
    (hops : Runs.Along perform Unused .new ops)
    (hlegible : ∀ id chain, (ops.foldl perform .new).lookup id = some chain → Legible id)
    {run : ℕ → State F} {event : ℕ → Option (Event F)}
    (hstart : run 0 = { s with threads := ops.foldl perform .new })
    (hrun : QuietRun P registry federation run event) : (Dispatches event).Finite := by
  have ho : Orderly (run 0) := by
    rw [hstart]
    exact (orderly_of_reachable hs).setThreads _
  have hc : Clean (run 0).threads := by
    rw [hstart]
    exact ⟨filed_of_ops hops, hlegible⟩
  have hfall : ∀ i, State.size P (run (i + 1)) ≤ State.size P (run i) := by
    intro i
    obtain ⟨ho, hc⟩ := hrun.kept ho hc i
    cases he : event i with
    | none => rw [hrun.rest i he]
    | some e =>
      obtain ⟨hq, hstep⟩ := hrun.step i e he
      exact size_step lawful ho hc hq hstep
  apply (finite_falls (f := fun i => State.size P (run i)) hfall).subset
  intro i hi
  obtain ⟨k, he⟩ := hi
  exact size_start (hrun.kept ho hc i).1 (hrun.step i _ he).2

/-! ## An answer that is dispatched -/

variable (P registry federation) in
/-- Finitely many quiet steps. -/
inductive QuietTrace : State F → List (Event F) → Prop where
  | done (s : State F) : QuietTrace s []
  | step {s t : State F} {e : Event F} {events : List (Event F)} (hq : Quiet s e)
      (hs : Step P registry federation s e t) (h : QuietTrace t events) :
      QuietTrace s (e :: events)

/-- They are a run that rests in its last state. -/
theorem QuietTrace.run {s : State F} {events : List (Event F)}
    (h : QuietTrace P registry federation s events) :
    ∃ run : ℕ → State F, run 0 = s ∧
      QuietRun P registry federation run fun i => events[i]? := by
  induction h with
  | done s =>
    refine ⟨fun _ => s, rfl, fun _ _ => rfl, ?_⟩
    intro i e he
    nomatch he
  | @step s t e events hq hs _ ih =>
    obtain ⟨run, h0, hrun⟩ := ih
    refine ⟨fun i => i.casesOn s run, rfl, ?_, ?_⟩
    · intro i he
      cases i with
      | zero => nomatch he
      | succ i => exact hrun.rest i he
    · intro i e' he
      cases i with
      | zero =>
        obtain rfl : e = e' := Option.some_inj.mp he
        change Quiet s e ∧ Step P registry federation s e (run 0)
        rw [h0]
        exact ⟨hq, hs⟩
      | succ i => exact hrun.step i e' he

def bookedOps : List Op := [.registerThread "t1" "bob" "alice"]

theorem bookedOps_legible (id chain : String)
    (h : (bookedOps.foldl perform .new).lookup id = some chain) : Legible id := by
  have hid : id = "t1" := by
    by_contra hne
    have hgone : Function.update (fun _ => none) "t1" (some ("bob" ++ "." ++ "alice")) id =
        some chain := h
    rw [Function.update_of_ne hne] at hgone
    cases hgone
  rw [hid]
  exact legible_of_trimmed (by decide)

def errand : Envelope UInt32 :=
  ⟨⟨.flat "bob", some (.flat "alice"), "t1", .empty⟩, ⟨"Greeting", .nil⟩⟩

def errandJob : Job UInt32 := ⟨⟨errand, ⟨"Greeting", .nil⟩, "alice"⟩, .outside⟩

/-- Bob's message to alice is on the ingress. -/
def visiting : State UInt32 :=
  { State.boot .new with queue := [⟨encodeEnvelope plain errand, .outside⟩] }

/-- Alice's answer has a new thread id. -/
def answeredOps : List Op := bookedOps ++ [.getOrCreate "bob" "u1"]

def answerJob : Job UInt32 := ⟨askedRouted (.flat "bob"), .outside⟩

/-- Bob's message is dispatched to alice, and her answer to bob, who never answers it. -/
def errandEvents : List (Event UInt32) :=
  [.route, .accept, .start "t1", .handled "t1" (some (.ok (.reply ⟨"Order", .nil⟩))),
    .prune "t1" "u1", .emit "t1", .finish "t1", .route, .accept, .start "u1"]

theorem errand_forwarded : ingress plain (desk (.flat "bob")).registry none
    (bookedOps.foldl perform .new) (encodeEnvelope plain errand) =
      (bookedOps.foldl perform .new, .routed (.forwarded errandJob.msg)) := by
  have hd : decodeEnvelope plain (encodeEnvelope plain errand) = .ok errand := decode_of_image rfl
  have hroute : (desk (.flat "bob")).registry.routing.resolve plain.lowercase (some "alice")
      "Greeting" = .ok ⟨"alice", false, List.toFinset [],
        routeKey plain.lowercase "alice" "Greeting"⟩ :=
    (RoutingTable.resolve_register_of_ne false [] (by decide)).trans
      (RoutingTable.resolve_register_of_free false [] rfl)
  have hf := (ingress_forwarded_iff plain (desk (.flat "bob")).registry none
    (bookedOps.foldl perform .new) (encodeEnvelope plain errand) errandJob.msg).mpr
      ⟨errand, _, ⟨hd, rfl, rfl, hroute⟩, desk_no_agent _ _ _, rfl⟩
  have hkeep : registerThread (bookedOps.foldl perform .new) "t1" "bob" "alice" =
      bookedOps.foldl perform .new := rfl
  exact Prod.ext ((ingress_forwarded plain hf).2.trans hkeep) hf

theorem errand_pruned : (bookedOps.foldl perform .new).pruneForResponse errandJob.thread "u1" =
    (some ⟨"bob", "u1"⟩, answeredOps.foldl perform .new) := rfl

theorem answer_forwarded : ingress plain (desk (.flat "bob")).registry none
    (answeredOps.foldl perform .new) (encodeEnvelope plain (asked (.flat "bob"))) =
      (answeredOps.foldl perform .new, .routed (.forwarded answerJob.msg)) := by
  have hf := asked_forwarded decode_asked_bob rfl (answeredOps.foldl perform .new)
  have hkeep : registerThread (answeredOps.foldl perform .new) "u1" "alice" "bob" =
      answeredOps.foldl perform .new := rfl
  exact Prod.ext ((ingress_forwarded plain hf).2.trans hkeep) hf

theorem errand_quiet : QuietTrace plain (desk (.flat "bob")).registry none
    { visiting with threads := bookedOps.foldl perform .new } errandEvents := by
  have hanswer : answerEnvelope errandJob.msg ⟨"bob", "u1"⟩ (⟨"Order", .nil⟩ : Payload UInt32) =
      asked (.flat "bob") := rfl
  refine .step trivial (.forwarded rfl errand_forwarded) ?_
  refine .step trivial (.accept _ errandJob [] rfl) ?_
  refine .step trivial (.start _ "t1" errandJob [] [] rfl rfl) ?_
  refine .step ?_ (.handled _ "t1" errandJob _ rfl rfl rfl) ?_
  · intro response hr
    rw [Option.some_inj, Except.ok.injEq] at hr
    exact .inr ⟨_, hr.symm⟩
  refine .step ⟨rfl, by decide⟩ (.prune _ "t1" "u1" errandJob ⟨"Order", .nil⟩ rfl rfl) ?_
  rw [State.pruned_eq errand_pruned, hanswer]
  refine .step trivial (.emit _ "t1" errandJob none _ [] rfl rfl) ?_
  refine .step trivial (.finish _ "t1" errandJob none [] [] rfl rfl) ?_
  refine .step trivial (.forwarded rfl answer_forwarded) ?_
  refine .step trivial (.accept _ answerJob [] rfl) ?_
  exact .step trivial (.start _ "u1" answerJob [] [] rfl rfl) (.done _)

theorem finite_dispatches_errand : ∃ run : ℕ → State UInt32,
    run 0 = { visiting with threads := bookedOps.foldl perform .new } ∧
      QuietRun plain (desk (.flat "bob")).registry none run (fun i => errandEvents[i]?) ∧
      (Dispatches fun i => errandEvents[i]?).Finite := by
  have hboot : Reachable (guarded plain (desk (.flat "bob")).registry none fun _ _ => True)
      (State.boot .new) := .start ⟨.new, rfl⟩
  have hvisiting : Reachable (guarded plain (desk (.flat "bob")).registry none fun _ _ => True)
      visiting := hboot.next ⟨_, trivial, .inject (State.boot .new) (encodeEnvelope plain errand)⟩
  have hops : Runs.Along perform Unused .new bookedOps := by decide
  obtain ⟨run, h0, hrun⟩ := errand_quiet.run
  exact ⟨run, h0, hrun, finite_dispatches plain_lawful hvisiting hops bookedOps_legible h0 hrun⟩

/-! ## An id with a space in front -/

/-- A host registers two ids that differ by a space, one of them on the other's chain and a hop. -/
def spaced : List Op := [.registerThread " x" "q" "alice", .registerThread "x" "q.alice" "bob"]

def looped (thread : String) : Envelope UInt32 :=
  ⟨⟨.flat "alice", some (.flat "alice"), thread, .empty⟩, ⟨"Greeting", .nil⟩⟩

def loopedItem : Item UInt32 := ⟨encodeEnvelope plain (looped " x"), .outside⟩

def loopedJob : Job UInt32 := ⟨⟨looped "x", ⟨"Greeting", .nil⟩, "alice"⟩, .outside⟩

theorem decode_looped : decodeEnvelope plain (encodeEnvelope plain (looped " x")) =
    .ok (looped "x") := by
  have hname : RoundTrip.Solid "alice" := ⟨by decide, by decide⟩
  have hthread : headerText " x" = some "x" := by decide
  exact decode_of_image
    (RoundTrip.wireImage_named hname hname hthread .empty ⟨"Greeting", .nil⟩)

theorem looped_forwarded : ingress plain (desk (.flat "bob")).registry none
    (spaced.foldl perform .new) loopedItem.raw =
      (spaced.foldl perform .new, .routed (.forwarded loopedJob.msg)) := by
  have hroute : (desk (.flat "bob")).registry.routing.resolve plain.lowercase (some "alice")
      "Greeting" = .ok ⟨"alice", false, List.toFinset [],
        routeKey plain.lowercase "alice" "Greeting"⟩ :=
    (RoutingTable.resolve_register_of_ne false [] (by decide)).trans
      (RoutingTable.resolve_register_of_free false [] rfl)
  have hf := (ingress_forwarded_iff plain (desk (.flat "bob")).registry none
    (spaced.foldl perform .new) (encodeEnvelope plain (looped " x")) loopedJob.msg).mpr
      ⟨looped "x", _, ⟨decode_looped, rfl, rfl, hroute⟩, desk_no_agent _ _ _, rfl⟩
  have hkeep : registerThread (spaced.foldl perform .new) "x" "alice" "alice" =
      spaced.foldl perform .new := rfl
  rw [loopedItem]
  dsimp only
  exact Prod.ext ((ingress_forwarded plain hf).2.trans hkeep) hf

/-- Where the one message is. -/
structure Moment where
  queue : List (Item UInt32)
  routed : List (Job UInt32)
  running : Option (Job UInt32)
  waiting : List (Job UInt32)
  progress : Progress UInt32

/-- The message goes round in seven steps. -/
def moment : ℕ → Moment
  | 0 => ⟨[loopedItem], [], none, [], .idle⟩
  | 1 => ⟨[], [loopedJob], none, [], .idle⟩
  | 2 => ⟨[], [], none, [loopedJob], .idle⟩
  | 3 => ⟨[], [], some loopedJob, [], .handling⟩
  | 4 => ⟨[], [], some loopedJob, [], .answering ⟨"Greeting", .nil⟩⟩
  | 5 => ⟨[], [], some loopedJob, [], .emitting none [emitAnswer plain (looped " x")]⟩
  | 6 => ⟨[loopedItem], [], some loopedJob, [], .emitting none []⟩
  | i + 7 => moment i

def turn : ℕ → Event UInt32
  | 0 => .route
  | 1 => .accept
  | 2 => .start "x"
  | 3 => .handled "x" (some (.ok (.reply ⟨"Greeting", .nil⟩)))
  | 4 => .prune "x" "u"
  | 5 => .emit "x"
  | 6 => .finish "x"
  | i + 7 => turn i

structure Stands (m : Moment) (s : State UInt32) : Prop where
  threads : s.threads = spaced.foldl perform .new
  queue : s.queue = m.queue
  routed : s.routed = m.routed
  lane : ∃ fin, s.lanes.lane "x" = ⟨fin, m.running, m.waiting⟩
  progress : s.progress "x" = m.progress

theorem looped_pruned : (spaced.foldl perform .new).pruneForResponse "x" "u" =
    (some ⟨"alice", " x"⟩, spaced.foldl perform .new) := rfl

abbrev loopStep (s : State UInt32) (e : Event UInt32) (t : State UInt32) : Prop :=
  Quiet s e ∧ Step plain (desk (.flat "bob")).registry none s e t

theorem Stands.route {s : State UInt32} (h : Stands (moment 0) s) :
    ∃ t, loopStep s .route t ∧ Stands (moment 1) t := by
  refine ⟨_, ⟨trivial, .route s loopedItem [] h.queue⟩, ?_⟩
  have htake : s.take plain (desk (.flat "bob")).registry none loopedItem [] =
      { s with
        threads := spaced.foldl perform .new, queue := [], routed := s.routed ++ [loopedJob] } := by
    have hf : ingress plain (desk (.flat "bob")).registry none s.threads loopedItem.raw =
        (spaced.foldl perform .new, .routed (.forwarded loopedJob.msg)) := by
      rw [h.threads, looped_forwarded]
    exact State.take_of_forwarded hf
  rw [htake]
  exact ⟨rfl, rfl, by rw [h.routed]; rfl, h.lane, h.progress⟩

theorem Stands.accept {s : State UInt32} (h : Stands (moment 1) s) :
    ∃ t, loopStep s .accept t ∧ Stands (moment 2) t := by
  obtain ⟨fin, hl⟩ := h.lane
  refine ⟨_, ⟨trivial, .accept s loopedJob [] h.routed⟩, h.threads, h.queue, rfl, ⟨fin, ?_⟩,
    h.progress⟩
  change Function.update s.lanes.lane "x" ((s.lanes.lane "x").accept loopedJob) "x" = _
  rw [Function.update_self, hl]
  rfl

theorem Stands.start {s : State UInt32} (h : Stands (moment 2) s) :
    ∃ t, loopStep s (.start "x") t ∧ Stands (moment 3) t := by
  obtain ⟨fin, hl⟩ := h.lane
  exact ⟨_, ⟨trivial, .start s "x" loopedJob fin [] hl h.progress⟩, h.threads, h.queue, h.routed,
    ⟨fin, Function.update_self "x" _ s.lanes.lane⟩, Function.update_self "x" _ s.progress⟩

theorem Stands.running {m : Moment} {s : State UInt32} (h : Stands m s) :
    s.running "x" = m.running := by
  obtain ⟨fin, hl⟩ := h.lane
  unfold State.running
  rw [hl]

theorem Stands.reply {s : State UInt32} (h : Stands (moment 3) s) :
    ∃ t, loopStep s (.handled "x" (some (.ok (.reply ⟨"Greeting", .nil⟩)))) t ∧
      Stands (moment 4) t := by
  refine ⟨_, ⟨?_, .handled s "x" loopedJob _ h.running h.progress rfl⟩, h.threads, h.queue,
    h.routed, h.lane, Function.update_self "x" _ s.progress⟩
  intro response hr
  rw [Option.some_inj, Except.ok.injEq] at hr
  exact .inr ⟨_, hr.symm⟩

theorem Stands.prune {s : State UInt32} (h : Stands (moment 4) s) :
    ∃ t, loopStep s (.prune "x" "u") t ∧ Stands (moment 5) t := by
  have hf : FreshUuid s.threads "u" := by
    rw [h.threads]
    exact ⟨rfl, by decide⟩
  refine ⟨_, ⟨hf, .prune s "x" "u" loopedJob _ h.running h.progress⟩, ?_⟩
  have hx : s.threads.pruneForResponse loopedJob.thread "u" =
      (some ⟨"alice", " x"⟩, spaced.foldl perform .new) := by
    rw [h.threads]
    exact looped_pruned
  rw [State.pruned_eq hx]
  exact ⟨rfl, h.queue, h.routed, h.lane, Function.update_self "x" _ s.progress⟩

theorem Stands.emit {s : State UInt32} (h : Stands (moment 5) s) :
    ∃ t, loopStep s (.emit "x") t ∧ Stands (moment 6) t := by
  refine ⟨_, ⟨trivial, .emit s "x" loopedJob none _ [] h.running h.progress⟩, h.threads, ?_,
    h.routed, h.lane, Function.update_self "x" _ s.progress⟩
  change s.queue ++ [loopedItem] = [loopedItem]
  rw [h.queue]
  rfl

theorem Stands.finish {s : State UInt32} (h : Stands (moment 6) s) :
    ∃ t, loopStep s (.finish "x") t ∧ Stands (moment 7) t := by
  obtain ⟨fin, hl⟩ := h.lane
  exact ⟨_, ⟨trivial, .finish s "x" loopedJob none fin [] hl h.progress⟩, h.threads, h.queue,
    h.routed, ⟨fin ++ [loopedJob], Function.update_self "x" _ s.lanes.lane⟩,
    Function.update_self "x" _ s.progress⟩

theorem stands_next : ∀ (i : ℕ) (s : State UInt32), Stands (moment i) s →
    ∃ t, loopStep s (turn i) t ∧ Stands (moment (i + 1)) t
  | 0, _, h => h.route
  | 1, _, h => h.accept
  | 2, _, h => h.start
  | 3, _, h => h.reply
  | 4, _, h => h.prune
  | 5, _, h => h.emit
  | 6, _, h => h.finish
  | i + 7, s, h => stands_next i s h

theorem turn_start (n : ℕ) : turn (7 * n + 2) = .start "x" := by
  induction n with
  | zero => rfl
  | succ n ih => exact ih

/-- Alice answers herself on the same thread for ever. -/
theorem infinite_dispatches : ∃ (s : State UInt32) (run : ℕ → State UInt32)
    (event : ℕ → Option (Event UInt32)),
    Reachable (guarded plain (desk (.flat "bob")).registry none fun _ _ => True) s ∧
      Runs.Along perform Unused .new spaced ∧
      run 0 = { s with threads := spaced.foldl perform .new } ∧
      QuietRun plain (desk (.flat "bob")).registry none run event ∧
      ¬ (Dispatches event).Finite := by
  have hboot : Reachable (guarded plain (desk (.flat "bob")).registry none fun _ _ => True)
      (State.boot .new) := .start ⟨.new, rfl⟩
  have hreachable : Reachable (guarded plain (desk (.flat "bob")).registry none fun _ _ => True)
      { State.boot .new with queue := [loopedItem] } :=
    hboot.next ⟨_, trivial, .inject (State.boot .new) (encodeEnvelope plain (looped " x"))⟩
  have hfirst : Stands (moment 0)
      { State.boot .new with queue := [loopedItem], threads := spaced.foldl perform .new } :=
    ⟨rfl, rfl, rfl, ⟨[], rfl⟩, rfl⟩
  obtain ⟨run, h0, hrun⟩ := exists_run hfirst stands_next
  refine ⟨_, run, fun i => some (turn i), hreachable, by decide, h0, ?_, ?_⟩
  · constructor
    · intro i he
      cases he
    · intro i e he
      obtain rfl : turn i = e := Option.some_inj.mp he
      exact hrun i
  · have hinj : Function.Injective fun n : ℕ => 7 * n + 2 := by
      intro a b h
      have hab : 7 * a + 2 = 7 * b + 2 := h
      omega
    exact Set.infinite_of_injective_forall_mem hinj fun n => ⟨"x", congrArg some (turn_start n)⟩

end RustPipeline.SelfFeeding
