import RustPipeline.ConversationPartner
import RustPipeline.Independence

set_option autoImplicit false

/-!
# Conversations of different initiators

A thread that an initiator opens has a chain that begins with the initiator's name, and so have all
chains that are touched from there, but for the root's. Conversations of different initiators do not
see each other, however they are interleaved.
-/
namespace RustPipeline.SeparateConversations
open Text Wire Codec Handling Routing Registry Thread Federation Pipeline PipelineEffects
open Ingress PipelineRuns Separated Schedules Runs RegistryTouches Independence PlainPlatform
open Conversations (bobOnly hello helloRouted decode_hello_first hello_forwarded)
open ConversationPartner (greetingReply stamped greeted greet_forwarded decode_carol)
open StageFlow (gates gates_eq_some_iff)

variable {F : Type}

/-! ## Chains of an initiator -/

/-- The parts of the chain go on from those of the base. -/
def Under (base chain : String) : Prop := split '.' base <+: split '.' chain

/-- The initiator's name, behind the root's chain if there is one. -/
def home (boot : ThreadRegistry) (initiator : String) : String :=
  if boot.rootUuid.isSome then boot.rootChain ++ "." ++ initiator else initiator

/-- An initiator and the thread ids that its conversation uses. -/
structure Conversation where
  initiator : String
  named : initiator ≠ ""
  dotless : '.' ∉ initiator.toList
  ids : Set String

theorem split_concat (s t : String) : split '.' (s ++ "." ++ t) = split '.' s ++ split '.' t :=
  split_append s t

theorem split_concat_part (s : String) {t : String} (h : '.' ∉ t.toList) :
    split '.' (s ++ "." ++ t) = split '.' s ++ [t] := split_append_part h

theorem under_self (base : String) : Under base base := List.prefix_rfl

theorem Under.extend {base chain : String} (h : Under base chain) (s : String) :
    Under base (chain ++ "." ++ s) := by
  unfold Under
  rw [split_concat]
  exact h.trans (List.prefix_append _ _)

/-- The parent of a chain below the base is not above it. -/
theorem Under.parent {base chain : String} (h : Under base chain) (hne : chain ≠ base) :
    Under base (parent '.' chain) := by
  have hdot : '.' ∈ chain.toList := by
    by_contra hn
    unfold Under at h
    rw [split_of_notMem hn] at h
    have hpos := List.length_pos_iff.mpr (split_ne_nil '.' base)
    have heq : split '.' base = [chain] := h.eq_of_length_le hpos
    rw [← join_split '.' base, heq] at hne
    rw [← split_of_notMem hn, join_split] at hne
    exact hne rfl
  obtain ⟨a, b, rfl, hb⟩ := exists_last_part hdot
  unfold Under at h ⊢
  rw [split_append_part hb, List.prefix_concat_iff] at h
  rw [parent_append_part a hb]
  refine h.resolve_left ?_
  intro heq
  apply hne
  rw [← join_split '.' base, heq, ← split_append_part hb, join_split]

theorem split_home (boot : ThreadRegistry) (c : Conversation) : split '.' (home boot c.initiator) =
    (if boot.rootUuid.isSome then split '.' boot.rootChain else []) ++ [c.initiator] := by
  unfold home
  split_ifs
  · exact split_concat_part boot.rootChain c.dotless
  · exact split_of_notMem c.dotless

/-- No chain is below two initiators. -/
theorem initiator_of_under {boot : ThreadRegistry} {c d : Conversation} {chain : String}
    (hc : Under (home boot c.initiator) chain) (hd : Under (home boot d.initiator) chain) :
    c.initiator = d.initiator := by
  unfold Under at hc hd
  rw [split_home] at hc hd
  have hpre := List.prefix_of_prefix_length_le hc hd (by simp)
  have heq := hpre.eq_of_length (by simp)
  exact (List.cons.inj (List.append_cancel_left heq)).1

theorem not_under_root {boot : ThreadRegistry} (hroot : boot.rootUuid.isSome = true)
    (c : Conversation) : ¬ Under (home boot c.initiator) boot.rootChain := by
  intro h
  unfold Under at h
  rw [split_home, if_pos hroot] at h
  have hlen := h.length_le
  simp at hlen

theorem under_ne_empty {boot : ThreadRegistry} {c : Conversation} {chain : String}
    (h : Under (home boot c.initiator) chain) : chain ≠ "" := by
  rintro rfl
  unfold Under at h
  rw [split_home, split_of_notMem (show '.' ∉ "".toList by decide)] at h
  have hmem : c.initiator ∈ [""] := h.subset (by simp)
  exact c.named (List.mem_singleton.mp hmem)

/-- A conversation that is opened is below its initiator. -/
theorem under_rootedChain {boot t : ThreadRegistry} (huuid : t.rootUuid = boot.rootUuid)
    (hchain : t.rootChain = boot.rootChain) (initiator target : String) :
    Under (home boot initiator) (t.rootedChain initiator target) := by
  have heq : t.rootedChain initiator target = home boot initiator ++ "." ++ target := by
    unfold ThreadRegistry.rootedChain home
    rw [huuid, hchain]
    split_ifs
    · simp only [String.append_assoc]
    · rfl
  rw [heq]
  exact (under_self _).extend target

/-! ## What a conversation does -/

/-- The handler sends or spawns. -/
def Calls : Option (Except PipelineError (HandlerResponse F)) → Prop
  | some (.ok (.send _ _)) => True
  | some (.ok (.spawn _ _)) => True
  | some (.ok (.reply _)) => False
  | some (.ok .none) => False
  | some (.error _) => False
  | none => False

/-- The message is on a thread of the conversation, and a thread without a chain is opened by the
    initiator. A handled message generates an unused id of the conversation, and its handler calls
    on a live thread only. -/
def Own (P : Platform F) (registry : ListenerRegistry F) (federation : Option PeerDirectory)
    (c : Conversation) (t : ThreadRegistry) : Action F → Prop
  | .ingress raw => ∀ m, gates P registry federation raw = some m →
      m.envelope.header.thread ∈ c.ids ∧ (t.lookup m.envelope.header.thread = none →
        m.envelope.header.fromAddr.organismName = c.initiator)
  | .handle msg result fresh => msg.envelope.header.thread ∈ c.ids ∧ fresh ∈ c.ids ∧
      t.lookup fresh = none ∧ (Calls result → (t.lookup msg.envelope.header.thread).isSome)

/-- The threads of the conversation are below its initiator, and the root is as it was at boot. -/
structure Homed (boot : ThreadRegistry) (c : Conversation) (t : ThreadRegistry) : Prop where
  consistent : Consistent t
  rootUuid : t.rootUuid = boot.rootUuid
  rootChain : t.rootChain = boot.rootChain
  root : boot.rootUuid.isSome = true → (t.chainToUuid boot.rootChain).isSome
  chains : ∀ id ∈ c.ids, ∀ chain, t.lookup id = some chain → Under (home boot c.initiator) chain

/-- The root's chain, which is there, is looked up. -/
def LooksUpRoot (boot : ThreadRegistry) (x : Touch) : Prop :=
  boot.rootUuid.isSome = true ∧ ∃ u, x = .put boot.rootChain u

variable {P : Platform F} {registry : ListenerRegistry F} {federation : Option PeerDirectory}
  {boot : ThreadRegistry} {c d : Conversation} {t : ThreadRegistry}

theorem pruneTouch_below {id chain : String} (fresh : String) (hl : t.lookup id = some chain)
    (h : Under (home boot c.initiator) chain) :
    (∀ k, (pruneTouch t id fresh).chain = some k → Under (home boot c.initiator) k) ∨
      LooksUpRoot boot (pruneTouch t id fresh) := by
  unfold pruneTouch
  rw [hl]
  dsimp only
  by_cases hdot : '.' ∈ chain.toList
  · rw [if_pos hdot]
    by_cases hne : chain = home boot c.initiator
    · rw [hne] at hdot ⊢
      unfold home at hdot ⊢
      split_ifs at hdot ⊢ with hroot
      · have hparent : parent '.' (boot.rootChain ++ "." ++ c.initiator) = boot.rootChain :=
          parent_append_part boot.rootChain c.dotless
        rw [hparent]
        exact .inr ⟨hroot, fresh, rfl⟩
      · exact absurd hdot c.dotless
    · refine .inl ?_
      intro k hk
      obtain rfl := Option.some_inj.mp hk
      exact h.parent hne
  · rw [if_neg hdot]
    refine .inl ?_
    intro k hk
    obtain rfl := Option.some_inj.mp hk
    exact h

theorem extendTouch_below {id chain : String} (hop fresh : String) (hl : t.lookup id = some chain)
    (h : Under (home boot c.initiator) chain) (k : String)
    (hk : (extendTouch t id hop fresh).chain = some k) : Under (home boot c.initiator) k := by
  unfold extendTouch at hk
  rw [hl] at hk
  obtain rfl := Option.some_inj.mp hk
  have heq : ThreadRegistry.extendedChain ((some chain).getD "") hop = chain ++ "." ++ hop :=
    if_neg (under_ne_empty h)
  rw [heq]
  exact h.extend hop

theorem callTouch_below {msg : RoutedMsg F} (toAddr : Address) (fresh : String)
    (hlive : (t.lookup msg.envelope.header.thread).isSome)
    (h : ∀ chain, t.lookup msg.envelope.header.thread = some chain →
      Under (home boot c.initiator) chain) (k : String)
    (hk : (callTouch registry t fresh msg toAddr).chain = some k) :
    Under (home boot c.initiator) k := by
  obtain ⟨chain, hl⟩ := Option.isSome_iff_exists.mp hlive
  unfold callTouch at hk
  cases he : registry.routing.enforcePeers msg.targetName toAddr.organismName with
  | error e =>
    rw [he] at hk
    cases hk
  | ok u =>
    rw [he] at hk
    exact extendTouch_below _ _ hl (h chain hl) k hk

/-- A conversation touches chains below its initiator, or looks up the root's. -/
theorem touch_below {a : Action F} (h : Homed boot c t) (ho : Own P registry federation c t a) :
    (∀ k, (touch P registry federation t a).chain = some k → Under (home boot c.initiator) k) ∨
      LooksUpRoot boot (touch P registry federation t a) := by
  cases a with
  | ingress raw =>
    refine .inl ?_
    intro k hk
    change (arrivalTouch t (gates P registry federation raw)).chain = some k at hk
    cases hg : gates P registry federation raw with
    | none =>
      rw [hg] at hk
      cases hk
    | some m =>
      obtain ⟨_, hopens⟩ := ho m hg
      rw [hg] at hk
      change (registerTouch t _ _ _).chain = some k at hk
      unfold registerTouch at hk
      cases hl : t.lookup m.envelope.header.thread with
      | some chain =>
        rw [hl] at hk
        cases hk
      | none =>
        rw [hl, hopens hl] at hk
        obtain rfl := Option.some_inj.mp hk
        exact under_rootedChain h.rootUuid h.rootChain _ _
  | handle msg result fresh =>
    obtain ⟨hid, _, _, hlive⟩ := ho
    have hbelow := h.chains _ hid
    have hprune : (∀ k, (pruneTouch t msg.envelope.header.thread fresh).chain = some k →
        Under (home boot c.initiator) k) ∨
          LooksUpRoot boot (pruneTouch t msg.envelope.header.thread fresh) := by
      cases hl : t.lookup msg.envelope.header.thread with
      | none =>
        refine .inl ?_
        intro k hk
        unfold pruneTouch at hk
        rw [hl] at hk
        cases hk
      | some chain => exact pruneTouch_below fresh hl (hbelow chain hl)
    cases result with
    | none => exact .inl fun k hk => absurd hk (by simp [touch, handlingTouch, Touch.chain])
    | some result =>
      cases result with
      | error e => exact .inl fun k hk => absurd hk (by simp [touch, handlingTouch, Touch.chain])
      | ok response =>
        cases response with
        | none => exact hprune
        | reply payload => exact hprune
        | spawn toAddr payload =>
          exact .inl fun k hk => callTouch_below toAddr fresh (hlive trivial) hbelow k hk
        | send toAddr payload =>
          exact .inl fun k hk => callTouch_below toAddr fresh (hlive trivial) hbelow k hk

theorem own_thread {a : Action F} (ho : Own P registry federation c t a) {id : String}
    (hid : Independence.thread P registry federation a = some id) : id ∈ c.ids := by
  cases a with
  | ingress raw =>
    obtain ⟨m, hg, rfl⟩ := Option.map_eq_some_iff.mp hid
    exact (ho m hg).1
  | handle msg result fresh =>
    obtain rfl := Option.some_inj.mp hid
    exact ho.1

theorem own_generated {a : Action F} (ho : Own P registry federation c t a) {fresh : String}
    (hf : generated a = some fresh) : fresh ∈ c.ids ∧ t.uuidToChain fresh = none := by
  cases a with
  | ingress raw => cases hf
  | handle msg result id =>
    obtain rfl := Option.some_inj.mp hf
    exact ⟨ho.2.1, ho.2.2.1⟩

theorem own_uuid {a : Action F} (ho : Own P registry federation c t a) {u : String}
    (hu : (touch P registry federation t a).uuid = some u) : u ∈ c.ids := by
  rcases touch_uuid hu with hu | hu
  · exact own_thread ho hu
  · exact (own_generated ho hu).1

theorem own_valid {a : Action F} (ho : Own P registry federation c t a) :
    (touch P registry federation t a).Valid t :=
  touch_valid fun _ hf => (own_generated ho hf).2

/-! ## Two conversations -/

theorem touch_ne_drop_root {a : Action F} (h : Homed boot c t)
    (ho : Own P registry federation c t a) (hroot : boot.rootUuid.isSome = true) (u : String) :
    touch P registry federation t a ≠ .drop boot.rootChain u := by
  intro hdrop
  rcases touch_below h ho with hbelow | ⟨_, v, hput⟩
  · exact not_under_root hroot c (hbelow boot.rootChain (by rw [hdrop]; rfl))
  · cases hdrop.symm.trans hput

/-- A touch keeps a conversation at home when it does not drop the root's chain and gives the
    conversation's ids no other chains. -/
theorem Homed.apply {x : Touch} (h : Homed boot c t) (hx : x.Valid t)
    (hroot : boot.rootUuid.isSome = true → ∀ u, x ≠ .drop boot.rootChain u)
    (hchains : ∀ id ∈ c.ids, x.uuid = some id →
      (∀ k, x.chain = some k → Under (home boot c.initiator) k) ∨ LooksUpRoot boot x) :
    Homed boot c (x.apply t) := by
  obtain ⟨huuid, hchain⟩ := root_apply hx
  constructor
  · exact consistent_apply h.consistent hx
  · exact huuid.trans h.rootUuid
  · exact hchain.trans h.rootChain
  · intro hr
    have hold := h.root hr
    rw [chainToUuid_apply hx]
    by_cases hk : x.chain = some boot.rootChain
    · cases x with
      | none => cases hk
      | put k u =>
        obtain rfl := Option.some_inj.mp hk
        rw [onChain_put]
        rfl
      | drop k u =>
        obtain rfl := Option.some_inj.mp hk
        exact absurd rfl (hroot hr u)
    · rw [onChain_of_ne hk]
      exact hold
  · intro id hid chain hl
    by_cases hu : x.uuid = some id
    · have hk := hchains id hid hu
      cases x with
      | none => cases hu
      | put k u =>
        obtain rfl := Option.some_inj.mp hu
        rw [apply_put] at hl
        split_ifs at hl with hsome
        · exact h.chains u hid chain hl
        · have hself : (t.insert k u).lookup u = some k := Function.update_self _ _ _
          obtain rfl := Option.some_inj.mp (hself.symm.trans hl)
          rcases hk with hk | ⟨hr, v, hput⟩
          · exact hk k rfl
          · cases hput
            exact absurd (h.root hr) hsome
      | drop k u =>
        obtain rfl := Option.some_inj.mp hu
        rw [apply_drop hx] at hl
        have hself : Function.update t.uuidToChain u none u = none := Function.update_self _ _ _
        cases hself.symm.trans hl
    · rw [lookup_apply hx hu] at hl
      exact h.chains id hid chain hl

theorem Own.of_lookup {s : ThreadRegistry} {a : Action F} (ho : Own P registry federation c t a)
    (h : ∀ id ∈ c.ids, s.lookup id = t.lookup id) : Own P registry federation c s a := by
  cases a with
  | ingress raw =>
    intro m hg
    obtain ⟨hid, hopens⟩ := ho m hg
    refine ⟨hid, ?_⟩
    rw [h _ hid]
    exact hopens
  | handle msg result fresh =>
    obtain ⟨hid, hfresh, hunused, hlive⟩ := ho
    refine ⟨hid, hfresh, (h _ hfresh).trans hunused, ?_⟩
    rw [h _ hid]
    exact hlive

/-- A conversation stays at home at its own steps. -/
theorem Homed.own {a : Action F} (h : Homed boot c t) (ho : Own P registry federation c t a) :
    Homed boot c (perform P registry federation t a) := by
  rw [perform_eq]
  exact h.apply (own_valid ho) (touch_ne_drop_root h ho) fun _ _ _ => touch_below h ho

/-- And at the steps of another one, which leaves its ids alone. -/
theorem Homed.other {a : Action F} (h : Homed boot c t) (hd : Homed boot d t)
    (ho : Own P registry federation d t a) (hids : Disjoint c.ids d.ids) :
    Homed boot c (perform P registry federation t a) := by
  rw [perform_eq]
  refine h.apply (own_valid ho) (touch_ne_drop_root hd ho) ?_
  intro id hid hu
  exact absurd (own_uuid ho hu) (Set.disjoint_left.mp hids hid)

theorem lookup_other {a : Action F} (ho : Own P registry federation d t a)
    (hids : Disjoint c.ids d.ids) {id : String} (hid : id ∈ c.ids) :
    (perform P registry federation t a).lookup id = t.lookup id := by
  rw [perform_eq]
  refine lookup_apply (own_valid ho) ?_
  intro hu
  exact Set.disjoint_left.mp hids hid (own_uuid ho hu)

theorem apart_of_own {a b : Action F} (ha : Own P registry federation c t a)
    (hb : Own P registry federation d t b) (hids : Disjoint c.ids d.ids) :
    Apart P registry federation t a b := by
  have hnot := Set.disjoint_left.mp hids
  constructor
  · exact fun _ hf => (own_generated ha hf).2
  · exact fun _ hf => (own_generated hb hf).2
  · intro u hu
    have hc : u ∈ c.ids := by
      rcases hu with hu | hu
      · exact own_thread ha hu
      · exact (own_generated ha hu).1
    exact ⟨fun h => hnot hc (own_thread hb h), fun h => hnot hc (own_generated hb h).1⟩

/-- What two conversations both touch is the root's chain, which both look up. -/
theorem compatible_of_own {a b : Action F} (hc : Homed boot c t) (hd : Homed boot d t)
    (ha : Own P registry federation c t a) (hb : Own P registry federation d t b)
    (hne : c.initiator ≠ d.initiator) :
    Compatible t (touch P registry federation t a) (touch P registry federation t b) := by
  intro k hka hkb
  rcases touch_below hc ha with hbelow | ⟨hroot, u, hu⟩
  · have hk := hbelow k hka
    rcases touch_below hd hb with hbelow' | ⟨hroot, v, hv⟩
    · exact absurd (initiator_of_under hk (hbelow' k hkb)) hne
    · rw [hv] at hkb
      obtain rfl := Option.some_inj.mp hkb
      exact absurd hk (not_under_root hroot c)
  · rw [hu] at hka
    obtain rfl := Option.some_inj.mp hka
    rcases touch_below hd hb with hbelow' | ⟨_, v, hv⟩
    · exact absurd (hbelow' boot.rootChain hkb) (not_under_root hroot d)
    · exact ⟨hc.root hroot, ⟨u, hu⟩, ⟨v, hv⟩⟩

theorem independent_of_ne (boot : ThreadRegistry) (hne : c.initiator ≠ d.initiator)
    (hids : Disjoint c.ids d.ids) :
    Independent (perform P registry federation) (shown P registry federation)
      (fun t a => Homed boot c t ∧ Own P registry federation c t a)
      (fun t b => Homed boot d t ∧ Own P registry federation d t b) where
  commutes _ _ _ ha hb := (commutes_iff ha.1.consistent (apart_of_own ha.2 hb.2 hids)).mpr
    (compatible_of_own ha.1 hb.1 ha.2 hb.2 hne)
  keepsFirst _ _ _ ha hb := ⟨ha.1.other hb.1 hb.2 hids,
    ha.2.of_lookup fun _ hid => lookup_other hb.2 hids hid⟩
  keepsSecond _ _ _ ha hb := ⟨hb.1.other ha.1 ha.2 hids.symm,
    hb.2.of_lookup fun _ hid => lookup_other ha.2 hids.symm hid⟩

/-! ## Any number of conversations -/

theorem homed_of_boot (hb : Boot boot) (hunused : ∀ id ∈ c.ids, boot.lookup id = none) :
    Homed boot c boot where
  consistent := (Boot.sound hb).consistent
  rootUuid := rfl
  rootChain := rfl
  root hroot := by
    cases hb with
    | new => cases hroot
    | root organismName fresh h =>
      have hself := Function.update_self ("system." ++ organismName) (some fresh)
        ThreadRegistry.new.chainToUuid
      exact congrArg Option.isSome hself
  chains id hid chain hl := by
    rw [hunused id hid] at hl
    cases hl

/-- Conversations of different initiators, on thread ids of their own, that each keep to themselves
    when alone: however they are interleaved, each sees what it would see alone, and the registry
    ends up the same. -/
theorem conversations_undisturbed {ι : Type} [DecidableEq ι] (hb : Boot boot)
    {talk : ι → Conversation} (hnames : Function.Injective fun i => (talk i).initiator)
    (hids : Pairwise fun i j => Disjoint (talk i).ids (talk j).ids)
    (hunused : ∀ i, ∀ id ∈ (talk i).ids, boot.lookup id = none) {schedule : List (ι × Action F)}
    (hown : ∀ i, Along (perform P registry federation) (Own P registry federation (talk i)) boot
      (inputsOf i schedule)) :
    (∀ i, outputsOf (perform P registry federation) (shown P registry federation) i boot schedule =
      outputs (perform P registry federation) (shown P registry federation) boot
        (inputsOf i schedule)) ∧
      ∀ other, (∀ i, inputsOf i other = inputsOf i schedule) →
        final (perform P registry federation) boot other =
          final (perform P registry federation) boot schedule := by
  have hindependent : Pairwise fun i j =>
      Independent (perform P registry federation) (shown P registry federation)
        (fun t a => Homed boot (talk i) t ∧ Own P registry federation (talk i) t a)
        (fun t a => Homed boot (talk j) t ∧ Own P registry federation (talk j) t a) :=
    fun i j hne => independent_of_ne boot (hnames.ne hne) (hids hne)
  have hkeeping : Keeping (perform P registry federation)
      (fun i t a => Homed boot (talk i) t ∧ Own P registry federation (talk i) t a) boot
      schedule := by
    intro i
    exact Along.of_invariant (fun _ _ h ho => h.own ho) (fun _ _ h ho => ⟨h, ho⟩) (hown i)
      (homed_of_boot hb (hunused i))
  exact ⟨outputsOf_eq hindependent hkeeping, fun other => final_eq hindependent hkeeping⟩

/-! Alice and Carol greet bob, and he replies to both. -/

def aliceTalk : Conversation := ⟨"alice", by decide, by decide, {"t1", "u1"}⟩

def carolTalk : Conversation := ⟨"carol", by decide, by decide, {"d1", "u2"}⟩

/-- Alice's conversation is the first, Carol's the second. -/
def talks (first : Bool) : Conversation := if first then aliceTalk else carolTalk

def aliceActs : List (Action UInt32) :=
  [.ingress (encodeEnvelope plain (hello "t1")),
    .handle (helloRouted "t1") (some (.ok (.reply greetingReply))) "u1"]

def carolActs : List (Action UInt32) :=
  [.ingress (stamped "carol"), .handle (greeted "carol") (some (.ok (.reply greetingReply))) "u2"]

/-- Carol's message comes in between, and bob replies to her first. -/
def crossing : List (Bool × Action UInt32) :=
  [(true, .ingress (encodeEnvelope plain (hello "t1"))), (false, .ingress (stamped "carol")),
    (false, .handle (greeted "carol") (some (.ok (.reply greetingReply))) "u2"),
    (true, .handle (helloRouted "t1") (some (.ok (.reply greetingReply))) "u1")]

def oneByOne : List (Bool × Action UInt32) :=
  aliceActs.map (Prod.mk true) ++ carolActs.map (Prod.mk false)

theorem talks_injective : Function.Injective fun i => (talks i).initiator := by
  intro i j h
  cases i with
  | true =>
    cases j with
    | true => rfl
    | false => exact absurd h (by decide)
  | false =>
    cases j with
    | true => exact absurd h (by decide)
    | false => rfl

theorem talks_disjoint : Pairwise fun i j => Disjoint (talks i).ids (talks j).ids := by
  have hids : Disjoint aliceTalk.ids carolTalk.ids := by
    rw [Set.disjoint_left]
    intro id ha hc
    rcases ha with rfl | rfl
    · rcases hc with hc | hc
      · exact absurd hc (by decide)
      · exact absurd hc (by decide)
    · rcases hc with hc | hc
      · exact absurd hc (by decide)
      · exact absurd hc (by decide)
  intro i j hne
  cases i with
  | true =>
    cases j with
    | true => exact absurd rfl hne
    | false => exact hids
  | false =>
    cases j with
    | true => exact hids.symm
    | false => exact absurd rfl hne

/-- A greeting opens a thread of its own, and bob replies on it. -/
theorem greeting_own {talk : Conversation} {raw : Bytes} {m : RoutedMsg UInt32} {fresh : String}
    (hf : ∀ threads, (ingress plain bobOnly.registry none threads raw).2 =
      .routed (.forwarded m)) (hid : m.envelope.header.thread ∈ talk.ids)
    (hinitiator : m.envelope.header.fromAddr.organismName = talk.initiator)
    (hfresh : fresh ∈ talk.ids) (hne : fresh ≠ m.envelope.header.thread) :
    Along (perform plain bobOnly.registry none) (Own plain bobOnly.registry none talk) .new
      [.ingress raw, .handle m (some (.ok (.reply greetingReply))) fresh] := by
  refine .cons ?_ (ingress_forwarded plain (hf .new)).2 ⟨⟨hid, hfresh, ?_, False.elim⟩, trivial⟩
  · intro other hg
    rw [gates_eq_some_iff .new, hf] at hg
    obtain rfl := RouteOutcome.forwarded.inj (IngressOutcome.routed.inj hg)
    exact ⟨hid, fun _ => hinitiator⟩
  · exact ReturnHops.registerThread_lookup_of_ne _ _ hne

theorem crossing_own (i : Bool) : Along (perform plain bobOnly.registry none)
    (Own plain bobOnly.registry none (talks i)) .new (inputsOf i crossing) := by
  cases i with
  | true =>
    have hf := fun threads => (hello_forwarded threads decode_hello_first).1
    exact greeting_own (m := helloRouted "t1") hf (.inl rfl) rfl (.inr rfl) (by decide)
  | false =>
    have hf := fun threads => greet_forwarded decode_carol threads
    exact greeting_own (m := greeted "carol") hf (.inl rfl) rfl (.inr rfl) (by decide)

theorem conversations_undisturbed_crossing :
    (∀ i, outputsOf (perform plain bobOnly.registry none) (shown plain bobOnly.registry none) i .new
        crossing = outputs (perform plain bobOnly.registry none) (shown plain bobOnly.registry none)
          .new (inputsOf i crossing)) ∧
      final (perform plain bobOnly.registry none) .new oneByOne =
        final (perform plain bobOnly.registry none) .new crossing := by
  obtain ⟨houtputs, hfinal⟩ := conversations_undisturbed .new talks_injective talks_disjoint
    (fun _ _ _ => rfl) crossing_own
  refine ⟨houtputs, hfinal oneByOne ?_⟩
  intro i
  cases i with
  | true => rfl
  | false => rfl

end RustPipeline.SeparateConversations
