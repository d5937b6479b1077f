import RustPipeline.RegistryOps

set_option autoImplicit false

/-!
# Thread chains as a call stack

A conversation is extended hop by hop and then pruned as often, with the operations of other
conversations in between. The answers go back to the callers in reverse, each on the thread id
that its extension started from.
-/
namespace RustPipeline.CallStack
open Runs Separated Thread ThreadRegistry RegistryOps

/-! ## Runs of conversations -/

/-- The operations of conversations: all but setting the root and clearing. -/
def Conversational : Op → Prop
  | .initializeRoot _ _ => False
  | .clear => False
  | _ => True

instance : DecidablePred Conversational
  | .initializeRoot _ _ => isFalse id
  | .clear => isFalse id
  | .getOrCreate _ _ => isTrue trivial
  | .startChain _ _ _ => isTrue trivial
  | .registerThread _ _ _ => isTrue trivial
  | .extendChain _ _ _ => isTrue trivial
  | .pruneForResponse _ _ => isTrue trivial
  | .cleanup _ => isTrue trivial

/-- Operations of conversations that leave the chains of the given ids in place. -/
inductive Undisturbed (kept : List String) (s : ThreadRegistry) : ThreadRegistry → Prop where
  | run (ops : List Op) (hc : ∀ op ∈ ops, Conversational op) (hf : Along perform Unused s ops)
      (hk : ∀ id ∈ kept, (ops.foldl perform s).lookup id = s.lookup id) :
      Undisturbed kept s (ops.foldl perform s)

inductive Booted : ThreadRegistry → Prop where
  | new : Booted .new
  | root (organismName fresh : String) :
      Booted (ThreadRegistry.new.initializeRoot organismName fresh).2

def Reached (t : ThreadRegistry) : Prop := ∃ boot, Booted boot ∧ Undisturbed [] boot t

theorem consistent_perform {t : ThreadRegistry} (h : Consistent t) {op : Op}
    (hc : Conversational op) (hf : Unused t op) : Consistent (perform t op) := by
  cases op with
  | initializeRoot organismName fresh => exact hc.elim
  | getOrCreate chain fresh => exact h.getOrCreate chain (hf _ rfl)
  | startChain initiator target fresh => exact h.getOrCreate _ (hf _ rfl)
  | registerThread threadId initiator target => exact h.registerThread threadId initiator target
  | extendChain currentUuid nextHop fresh => exact h.extendChain currentUuid nextHop (hf _ rfl)
  | pruneForResponse threadId fresh => exact h.pruneForResponse threadId (hf _ rfl)
  | cleanup threadId => exact h.cleanup threadId
  | clear => exact hc.elim

theorem consistent_run {t : ThreadRegistry} (h : Consistent t) {ops : List Op}
    (hc : ∀ op ∈ ops, Conversational op) (hf : Along perform Unused t ops) :
    Consistent (ops.foldl perform t) := by
  induction ops generalizing t with
  | nil => exact h
  | cons op ops ih =>
    have hstep := consistent_perform h (hc op List.mem_cons_self) hf.1
    exact ih hstep (fun o ho => hc o (List.mem_cons_of_mem op ho)) hf.2

theorem Undisturbed.consistent {kept : List String} {s t : ThreadRegistry}
    (hu : Undisturbed kept s t) (h : Consistent s) : Consistent t := by
  cases hu with
  | run ops hc hf hk => exact consistent_run h hc hf

theorem Undisturbed.lookup {kept : List String} {s t : ThreadRegistry}
    (hu : Undisturbed kept s t) {id : String} (hid : id ∈ kept) : t.lookup id = s.lookup id := by
  cases hu with
  | run ops hc hf hk => exact hk id hid

theorem consistent_of_booted {t : ThreadRegistry} (h : Booted t) : Consistent t := by
  cases h with
  | new => exact consistent_new
  | root organismName fresh => exact consistent_new.initializeRoot organismName rfl rfl

theorem consistent_of_reached {t : ThreadRegistry} (h : Reached t) : Consistent t := by
  obtain ⟨boot, hb, hu⟩ := h
  exact hu.consistent (consistent_of_booted hb)

/-! ## Extending and pruning -/

/-- The conversation on the latest id is extended hop by hop, with other operations after each
extension that keep the ids gathered so far, the latest first. -/
inductive Extends : ThreadRegistry → List String → List String → ThreadRegistry →
    List String → Prop where
  | done (t : ThreadRegistry) (ids : List String) : Extends t ids [] t ids
  | hop {t s r : ThreadRegistry} {id h fresh : String} {ids hops ids' : List String}
      (hf : Unused t (.extendChain id h fresh))
      (hu : Undisturbed ((t.extendChain id h fresh).1 :: id :: ids) (t.extendChain id h fresh).2 s)
      (hr : Extends s ((t.extendChain id h fresh).1 :: id :: ids) hops r ids') :
      Extends t (id :: ids) (h :: hops) r ids'

/-- The id is pruned, then the id that this returned, and so on, with other operations after each
prune that keep the ids still to come. -/
inductive Prunes : ThreadRegistry → String → List String → List (Option PruneResult) → Prop where
  | done (t : ThreadRegistry) (id : String) : Prunes t id [] []
  | back {t s : ThreadRegistry} {id next fresh below : String} {ids : List String}
      {results : List (Option PruneResult)} (hf : Unused t (.pruneForResponse id fresh))
      (hu : Undisturbed (below :: ids) (t.pruneForResponse id fresh).2 s)
      (hn : ∀ result, (t.pruneForResponse id fresh).1 = some result → result.threadId = next)
      (hr : Prunes s next ids results) :
      Prunes t id (below :: ids) ((t.pruneForResponse id fresh).1 :: results)

def lastSegment (chain : String) : String := (split '.' chain).getLastD ""

/-- The chain after the hops, the latest first. -/
def callChain (c : String) : List String → String
  | [] => c
  | h :: hops => callChain c hops ++ "." ++ h

/-- The ids, the latest first, stand for the chains of the hops taken so far. -/
inductive Stacked (t : ThreadRegistry) (c : String) : List String → List String → Prop where
  | bottom {u : String} (hl : t.lookup u = some c) : Stacked t c [u] []
  | call {id h : String} {ids hops : List String} (hs : Stacked t c ids hops)
      (hl : t.lookup id = some (callChain c (h :: hops))) : Stacked t c (id :: ids) (h :: hops)

theorem callChain_ne_empty {c : String} (hc : c ≠ "") (hops : List String) :
    callChain c hops ≠ "" := by
  cases hops with
  | nil => exact hc
  | cons h hops =>
    intro he
    have hl := congrArg String.length he
    simp [callChain] at hl

theorem Stacked.head {t : ThreadRegistry} {c id : String} {ids hops : List String}
    (h : Stacked t c (id :: ids) hops) : t.lookup id = some (callChain c hops) := by
  cases h with
  | bottom hl => exact hl
  | call hs hl => exact hl

/-- The chains are read in the registry only at the stacked ids. -/
theorem Stacked.mono {t s : ThreadRegistry} {c : String} {ids hops : List String}
    (h : Stacked t c ids hops)
    (hl : ∀ id ∈ ids, ∀ chain, t.lookup id = some chain → s.lookup id = some chain) :
    Stacked s c ids hops := by
  induction h with
  | bottom hu =>
    apply Stacked.bottom
    exact hl _ List.mem_cons_self _ hu
  | call hs hid ih =>
    apply Stacked.call
    · exact ih (fun i hi => hl i (List.mem_cons_of_mem _ hi))
    · exact hl _ List.mem_cons_self _ hid

theorem Stacked.undisturbed {t s : ThreadRegistry} {c : String} {ids hops kept : List String}
    (h : Stacked t c ids hops) (hu : Undisturbed kept t s) (hk : ∀ id ∈ ids, id ∈ kept) :
    Stacked s c ids hops := by
  apply h.mono
  intro id hid chain hl
  rw [hu.lookup (hk id hid)]
  exact hl

/-- An extension puts its new id on the stack. -/
theorem Stacked.extendChain {t : ThreadRegistry} (ht : Consistent t) {c : String} (hc : c ≠ "")
    {id h fresh : String} {ids hops : List String} (hs : Stacked t c (id :: ids) hops)
    (hf : t.uuidToChain fresh = none) :
    Stacked (t.extendChain id h fresh).2 c ((t.extendChain id h fresh).1 :: id :: ids)
      (h :: hops) := by
  have hchain : extendedChain ((t.uuidToChain id).getD "") h = callChain c (h :: hops) := by
    have hid : t.uuidToChain id = some (callChain c hops) := hs.head
    rw [hid, Option.getD_some, extendedChain, if_neg (callChain_ne_empty hc hops)]
    rfl
  have hmap := getOrCreate_chain t (extendedChain ((t.uuidToChain id).getD "") h) fresh
  have hnew : (t.extendChain id h fresh).2.lookup (t.extendChain id h fresh).1 =
      some (callChain c (h :: hops)) := by
    rw [← hchain]
    exact ((ht.extendChain id h hf) _ _).mpr hmap
  apply Stacked.call _ hnew
  apply hs.mono
  intro i _ chain hl
  exact lookup_getOrCreate hf hl

theorem Extends.stacked {t s : ThreadRegistry} {c : String} (hc : c ≠ "")
    {ids hops ids' : List String} (he : Extends t ids hops s ids') {taken : List String}
    (ht : Consistent t) (hs : Stacked t c ids taken) :
    Consistent s ∧ Stacked s c ids' (hops.reverse ++ taken) := by
  induction he generalizing taken with
  | done t ids => exact ⟨ht, hs⟩
  | @hop t s r id h fresh ids hops ids' hf hu hr ih =>
    have hfresh : t.uuidToChain fresh = none := hf fresh rfl
    have hpushed := hs.extendChain ht hc (h := h) hfresh
    have hrest := ih (hu.consistent (ht.extendChain id h hfresh))
      (hpushed.undisturbed hu fun _ hid => hid)
    rw [List.reverse_cons, List.append_assoc]
    exact hrest

/-- Where the answers go: the last segments of the chains below the latest one. -/
def callers (c : String) : List String → List String
  | [] => []
  | _ :: hops => lastSegment (callChain c hops) :: callers c hops

/-- A prune takes the latest id off the stack and leaves the registry alone. -/
theorem Stacked.pruneForResponse {t : ThreadRegistry} (ht : Consistent t) {c id h below : String}
    {ids hops : List String} (hs : Stacked t c (id :: below :: ids) (h :: hops))
    (hh : '.' ∉ h.toList) (fresh : String) :
    t.pruneForResponse id fresh = (some ⟨lastSegment (callChain c hops), below⟩, t) := by
  have hid : t.lookup id = some (callChain c hops ++ "." ++ h) := hs.head
  have hdot : '.' ∈ (callChain c hops ++ "." ++ h).toList := by simp
  have hsplit : split '.' (callChain c hops ++ "." ++ h) = split '.' (callChain c hops) ++ [h] :=
    split_append_part hh
  have hparent : parent '.' (callChain c hops ++ "." ++ h) = callChain c hops :=
    parent_append_part _ hh
  have hbelow : t.chainToUuid (callChain c hops) = some below := by
    cases hs with
    | call hs hl => exact (ht below _).mp hs.head
  rw [pruneForResponse_some fresh hid hdot, hparent, getOrCreate_of_some fresh hbelow, hsplit,
    List.dropLast_concat]
  rfl

theorem Prunes.results {t : ThreadRegistry} {c id : String} {below hops : List String}
    {results : List (Option PruneResult)} (hp : Prunes t id below results) (ht : Consistent t)
    (hs : Stacked t c (id :: below) hops) (hh : ∀ h ∈ hops, '.' ∉ h.toList) :
    results = List.zipWith (fun target u => some ⟨target, u⟩) (callers c hops) below := by
  induction hp generalizing hops with
  | done t id =>
    rw [List.zipWith_nil_right]
  | @back t s id next fresh below ids results hf hu hn hr ih =>
    cases hs with
    | @call _ h _ hops hs hl =>
      have hprune := (Stacked.call hs hl).pruneForResponse ht (hh h List.mem_cons_self) fresh
      rw [hprune] at hu hn ⊢
      obtain rfl : below = next := hn _ rfl
      have hrest := ih (hu.consistent ht) (hs.undisturbed hu fun _ hid => hid)
        (fun x hx => hh x (List.mem_cons_of_mem h hx))
      rw [hrest]
      rfl

/-- Below the first hop the callers are the hops themselves. -/
theorem callers_of_dotFree (c : String) {hops : List String} (hne : hops ≠ [])
    (hh : ∀ h ∈ hops, '.' ∉ h.toList) : callers c hops = hops.tail ++ [lastSegment c] := by
  induction hops with
  | nil => exact absurd rfl hne
  | cons h hops ih =>
    cases hops with
    | nil => rfl
    | cons g hops =>
      have hg : lastSegment (callChain c (g :: hops)) = g := by
        have hsplit : split '.' (callChain c hops ++ "." ++ g) =
            split '.' (callChain c hops) ++ [g] :=
          split_append_part (hh g (List.mem_cons_of_mem h List.mem_cons_self))
        change (split '.' (callChain c hops ++ "." ++ g)).getLastD "" = g
        rw [hsplit]
        simp
      have hrest := ih (List.cons_ne_nil g hops) (fun x hx => hh x (List.mem_cons_of_mem h hx))
      change lastSegment (callChain c (g :: hops)) :: callers c (g :: hops) =
        (g :: hops) ++ [lastSegment c]
      rw [hg, hrest]
      rfl

theorem Stacked.length {t : ThreadRegistry} {c : String} {ids hops : List String}
    (h : Stacked t c ids hops) : ids.length = hops.length + 1 := by
  induction h with
  | bottom hl => rfl
  | call hs hl ih => simp [ih]

theorem Extends.getLast {t s : ThreadRegistry} {ids hops ids' : List String}
    (he : Extends t ids hops s ids') : ids'.getLast? = ids.getLast? := by
  induction he with
  | done t ids => rfl
  | hop hf hu hr ih =>
    rw [ih]
    rfl

/-! ## The call stack -/

/-- Extending a live thread by dot-free hops and pruning as often answers the callers in reverse,
each on the id that its extension started from, down to the thread itself. -/
theorem prunes_undo_extends {t s : ThreadRegistry} (ht : Reached t) {u c : String}
    (hu : t.lookup u = some c) (hc : c ≠ "") {hops : List String}
    (hh : ∀ h ∈ hops, h ≠ "" ∧ '.' ∉ h.toList) {latest : String} {below : List String}
    (he : Extends t [u] hops s (latest :: below)) {results : List (Option PruneResult)}
    (hp : Prunes s latest below results) :
    results = List.zipWith (fun target id => some ⟨target, id⟩)
        (hops.dropLast.reverse ++ [lastSegment c]) below ∧
      below.length = hops.length ∧ (latest :: below).getLast? = some u := by
  have hdot : ∀ h ∈ hops.reverse ++ [], '.' ∉ h.toList := by
    intro h hm
    rw [List.append_nil, List.mem_reverse] at hm
    exact (hh h hm).2
  obtain ⟨hcons, hs⟩ := he.stacked hc (consistent_of_reached ht) (.bottom hu)
  have hlen := hs.length
  simp only [List.append_nil, List.length_reverse, List.length_cons] at hlen
  refine ⟨?_, by omega, he.getLast⟩
  rw [hp.results hcons hs hdot]
  cases below with
  | nil => rw [List.zipWith_nil_right, List.zipWith_nil_right]
  | cons b below =>
    have hne : hops.reverse ≠ [] := by
      intro hn
      rw [List.reverse_eq_nil_iff] at hn
      rw [hn] at hlen
      simp at hlen
    rw [List.append_nil] at hdot ⊢
    rw [callers_of_dotFree c hne hdot, List.tail_reverse]

/-! Alice calls bob and bob calls carol, while dave's conversation comes and goes and alice calls
zoe on the same chain. -/

def booked : ThreadRegistry :=
  [Op.registerThread "t" "console" "alice"].foldl perform
    (ThreadRegistry.new.initializeRoot "org" "u0").2

def bobCalled : ThreadRegistry :=
  [Op.registerThread "t2" "console" "dave", .extendChain "t" "zoe" "u2"].foldl perform
    (booked.extendChain "t" "bob" "u1").2

def carolCalled : ThreadRegistry :=
  [Op.pruneForResponse "u2" "u4", .cleanup "t2"].foldl perform
    (bobCalled.extendChain "u1" "carol" "u3").2

theorem reached_booked : Reached booked :=
  ⟨_, .root "org" "u0", .run _ (by decide) (by decide) (by decide)⟩

theorem extends_booked : Extends booked ["t"] ["bob", "carol"] carolCalled ["u3", "u1", "t"] :=
  .hop (show Unused booked (.extendChain "t" "bob" "u1") by decide)
    (show Undisturbed ["u1", "t"] _ bobCalled from .run _ (by decide) (by decide) (by decide))
    (.hop (show Unused bobCalled (.extendChain "u1" "carol" "u3") by decide)
      (show Undisturbed ["u3", "u1", "t"] _ carolCalled from
        .run _ (by decide) (by decide) (by decide))
      (.done _ _))

def bobAnswered : ThreadRegistry :=
  [Op.getOrCreate "errand" "u6"].foldl perform carolCalled

theorem prunes_carolCalled : Prunes carolCalled "u3" ["u1", "t"]
    [some ⟨"bob", "u1"⟩, some ⟨"alice", "t"⟩] :=
  .back (show Unused carolCalled (.pruneForResponse "u3" "u5") by decide)
    (show Undisturbed ["u1", "t"] _ bobAnswered from .run _ (by decide) (by decide) (by decide))
    (fun _ h => congrArg PruneResult.threadId (Option.some_inj.mp h).symm)
    (.back (show Unused bobAnswered (.pruneForResponse "u1" "u5") by decide)
      (.run [] (by decide) (by decide) (by decide))
      (fun _ h => congrArg PruneResult.threadId (Option.some_inj.mp h).symm) (.done _ _))

theorem prunes_undo_extends_booked :
    [some ⟨"bob", "u1"⟩, some ⟨"alice", "t"⟩] =
        List.zipWith (fun target id => some (PruneResult.mk target id))
          (["bob", "carol"].dropLast.reverse ++ [lastSegment "system.org.console.alice"])
          ["u1", "t"] ∧
      ["u1", "t"].length = ["bob", "carol"].length ∧ ["u3", "u1", "t"].getLast? = some "t" :=
  prunes_undo_extends reached_booked (by decide) (by decide) (by decide) extends_booked
    prunes_carolCalled

end RustPipeline.CallStack
