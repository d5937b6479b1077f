import RustPipeline.AddressParts
import RustPipeline.AddressViews

set_option autoImplicit false

/-!
# Addresses on both ends of a link

Which texts the Rust and the Python reader accept alike, with the same segments and views.
-/
namespace RustPipeline.AddressAgreement
open Text Wire AddressText PythonAddress AddressParts

/-! ## The views of the mirror -/

namespace Mirror

/-- `Segment.cache_keys`; an empty key counts as none, an empty part does not. -/
def segmentCacheKeys (s : Segment) : List String :=
  match s.key with
  | some key => if key = "" then [] else Separated.split '+' key
  | none => []

/-- `_org_idx`. -/
def orgIdx (a : Address) : ℕ := (a.segments.findIdx? fun s => s.key.isSome).getD 0

def organism (a : Address) : Option String := a.segments[orgIdx a]?.map Segment.name

def namespaceName (a : Address) : Option String :=
  if 0 < orgIdx a then a.segments.head?.map Segment.name else none

def node (a : Address) : Option String := a.segments.head?.map Segment.name

def instanceKey (a : Address) : Option String := a.segments[orgIdx a]?.bind Segment.key

def buffer (a : Address) : Option Segment := a.segments[orgIdx a + 1]?

def cacheKeys (a : Address) : List String :=
  (a.segments[orgIdx a]?.map segmentCacheKeys).getD []

def instanceAddress (a : Address) : Address := ⟨a.segments.take (orgIdx a + 1)⟩

end Mirror

/-- Two addresses with the same segments that show the same to those who use them. -/
structure SameViews (a b : Address) : Prop where
  segments : a.segments = b.segments
  node : a.node = Mirror.node b
  organism : a.organism = Mirror.organism b
  namespaceName : a.namespaceName = some (Mirror.namespaceName b)
  instanceKey : a.instanceKey = Mirror.instanceKey b
  buffer : a.buffer = Mirror.buffer b
  cacheKeys : a.cacheKeys = Mirror.cacheKeys b
  instanceAddress : a.instanceAddressOrPanic = some (Mirror.instanceAddress b)

/-- Both readers take the text alike or both refuse it. -/
def Agree (s : String) : Prop :=
  match Address.parse s, PythonAddress.parse s with
  | .ok a, .ok b => SameViews a b
  | .error _, .error _ => True
  | _, _ => False

/-- What stands between the first bracket of a part and its last character. -/
def inner (part : List Char) : List Char := (part.dropWhile (· != '[')).tail.dropLast

/-- A name with at most one pair of brackets, at its end. -/
structure Shaped (part : List Char) : Prop extends Closed part where
  clean : ∀ c ∈ inner part, ¬ IsBracket c

/-- The first key is empty, or no part of it between two `+` is. -/
def KeyWhole (ps : List (List Char)) : Prop :=
  ∀ p ∈ ps.find? (fun p => decide ('[' ∈ p)), inner p = [] ∨ [] ∉ (inner p).splitOn '+'

/-- What the Python reader refuses: a bracket inside another, or a part without a name that is not
    the last of several. -/
def Unread (ps : List (List Char)) : Prop :=
  (∃ p ∈ ps, (outline p).nested = true) ∨ (∃ p ∈ ps.dropLast, (outline p).outside = []) ∨
    ∃ p, ps = [p] ∧ (outline p).outside = []

/-- The texts both readers take alike: brackets that do not pair, parts that each end with their
    only pair of brackets, or a text both find fault with. -/
inductive Common (s : String) : Prop where
  | unpaired (h : parts 0 [] s.toList = none)
  | plain (ps : List (List Char)) (h : parts 0 [] s.toList = some ps)
      (shaped : ∀ p ∈ ps, Shaped p) (key : KeyWhole ps)
  | refused (ps : List (List Char)) (h : parts 0 [] s.toList = some ps)
      (rust : ∃ p ∈ ps, ¬ Closed p) (python : Unread ps)

/-! ## What the Python reader refuses -/

theorem kept_eq_nil_iff {ps : List (List Char)} (hne : ps ≠ []) :
    kept ps = [] ↔ ∃ p, ps = [p] ∧ (outline p).outside = [] := by
  match ps with
  | [] => exact absurd rfl hne
  | [p] =>
    rw [kept]
    constructor
    · intro h
      split_ifs at h with ho
      exact ⟨p, rfl, ho⟩
    · intro h
      obtain ⟨q, hq, ho⟩ := h
      rw [List.singleton_inj] at hq
      rw [hq, if_pos ho]
  | p :: q :: ps =>
    rw [kept]
    exact iff_of_false (List.cons_ne_nil _ _) fun h => by simp at h

theorem unread_iff {ps : List (List Char)} (hne : ps ≠ []) :
    Unread ps ↔ ¬ (Readable ps ∧ kept ps ≠ []) := by
  have hr : Readable ps ↔ (∀ p ∈ ps, (outline p).nested = false) ∧
      ∀ p ∈ ps.dropLast, (outline p).outside ≠ [] :=
    ⟨fun h => ⟨h.flat, h.named⟩, fun h => ⟨h.1, h.2⟩⟩
  rw [hr, ne_eq, kept_eq_nil_iff hne, Unread]
  push Not
  constructor
  · intro h hflat
    rcases h with ⟨p, hp, hn⟩ | ⟨p, hp, hn⟩ | h
    · rw [hflat.1 p hp] at hn
      cases hn
    · exact absurd hn (hflat.2 p hp)
    · exact h
  · intro h
    by_cases hflat : ∀ p ∈ ps, (outline p).nested = false
    · by_cases hnamed : ∀ p ∈ ps.dropLast, (outline p).outside ≠ []
      · exact .inr (.inr (h ⟨hflat, hnamed⟩))
      · push Not at hnamed
        exact .inr (.inl hnamed)
    · push Not at hflat
      obtain ⟨p, hp, hn⟩ := hflat
      exact .inl ⟨p, hp, by simpa using hn⟩

/-! ## Keys -/

theorem segmentOf_key (part : List Char) :
    (segmentOf part).key = if '[' ∈ part then some (.ofList (inner part)) else none := by
  unfold segmentOf inner
  cases hd : part.dropWhile (· != '[') with
  | nil =>
    rw [if_neg]
    intro hm
    simpa using List.dropWhile_eq_nil_iff.mp hd '[' hm
  | cons c rest =>
    rw [if_pos, List.tail_cons]
    by_contra hn
    have hall : part.dropWhile (· != '[') = [] := by
      rw [List.dropWhile_eq_nil_iff]
      intro d hm
      simpa using fun he : d = '[' => hn (he ▸ hm)
    rw [hd] at hall
    cases hall

theorem keyClean_segmentOf_iff {part : List Char} :
    KeyClean (segmentOf part) ↔ ∀ c ∈ inner part, ¬ IsBracket c := by
  unfold KeyClean
  rw [segmentOf_key]
  split_ifs with h
  · simp
  · have hi : inner part = [] := by
      have hd : part.dropWhile (· != '[') = [] := by
        rw [List.dropWhile_eq_nil_iff]
        intro d hm
        simpa using fun he : d = '[' => h (he ▸ hm)
      rw [inner, hd]
      rfl
    simp [hi]

/-- The key of the organism is the first there is. -/
theorem instanceKey_eq (a : Address) :
    a.instanceKey = (a.segments.find? fun s => s.key.isSome).bind Segment.key := by
  unfold Address.instanceKey Address.organismIndex
  rw [List.find?_eq_getElem?_findIdx]
  cases hi : a.segments.findIdx? fun s => s.key.isSome with
  | none =>
    rw [List.findIdx?_eq_none_iff_findIdx_eq.mp hi, List.getElem?_length, Option.getD_none]
    rw [List.findIdx?_eq_none_iff] at hi
    cases hs : a.segments with
    | nil => rfl
    | cons s rest =>
      have := hi s (by rw [hs]; exact List.mem_cons_self)
      simpa using this
  | some i =>
    rw [(List.findIdx?_eq_some_iff_findIdx_eq.mp hi).2, Option.getD_some]

theorem cacheKeys_eq (a : Address) : a.cacheKeys =
    (a.instanceKey.map fun k => (Separated.split '+' k).filter fun part => part ≠ "").getD [] := by
  unfold Address.cacheKeys Address.instanceKey
  cases a.segments[a.organismIndex]? with
  | none => rfl
  | some s =>
    rw [Option.map_some, Option.getD_some, Option.bind_some, Segment.cacheKeys]
    cases s.key with
    | none => rfl
    | some k => rfl

theorem mirror_cacheKeys_eq (a : Address) : Mirror.cacheKeys a =
    (a.instanceKey.map fun k => if k = "" then [] else Separated.split '+' k).getD [] := by
  unfold Mirror.cacheKeys Address.instanceKey
  change (a.segments[a.organismIndex]?.map Mirror.segmentCacheKeys).getD [] = _
  cases a.segments[a.organismIndex]? with
  | none => rfl
  | some s =>
    rw [Option.map_some, Option.getD_some, Option.bind_some, Mirror.segmentCacheKeys]
    cases s.key with
    | none => rfl
    | some k => rfl

theorem cacheKeys_agree_iff (a : Address) : a.cacheKeys = Mirror.cacheKeys a ↔
    ∀ k ∈ a.instanceKey, k = "" ∨ "" ∉ Separated.split '+' k := by
  rw [cacheKeys_eq, mirror_cacheKeys_eq]
  cases a.instanceKey with
  | none => simp
  | some k =>
    simp only [Option.map_some, Option.getD_some, Option.mem_def, Option.some_inj, forall_eq']
    by_cases hk : k = ""
    · subst hk
      exact iff_of_true (by decide) (.inl rfl)
    · rw [if_neg hk, List.filter_eq_self]
      constructor
      · intro h
        exact .inr fun hm => by simpa using h "" hm
      · intro h part hm
        rcases h with h | h
        · exact absurd h hk
        · simpa using fun he : part = "" => h (he ▸ hm)

theorem instanceKey_map_segmentOf (ps : List (List Char)) :
    (⟨ps.map segmentOf⟩ : Address).instanceKey =
      (ps.find? fun p => decide ('[' ∈ p)).map fun p => .ofList (inner p) := by
  rw [instanceKey_eq, List.find?_map]
  have hf : ((fun s : Segment => s.key.isSome) ∘ segmentOf) = fun p => decide ('[' ∈ p) := by
    funext p
    rw [Function.comp_apply, segmentOf_key]
    split_ifs with h
    · simp [h]
    · simp [h]
  rw [hf]
  cases hp : ps.find? fun p => decide ('[' ∈ p) with
  | none => rfl
  | some p =>
    have hm : '[' ∈ p := by simpa using List.find?_some hp
    rw [Option.map_some, Option.bind_some, segmentOf_key, if_pos hm, Option.map_some]

theorem keyWhole_iff (ps : List (List Char)) : KeyWhole ps ↔
    (⟨ps.map segmentOf⟩ : Address).cacheKeys = Mirror.cacheKeys ⟨ps.map segmentOf⟩ := by
  rw [cacheKeys_agree_iff, instanceKey_map_segmentOf, KeyWhole]
  cases ps.find? fun p => decide ('[' ∈ p) with
  | none => simp
  | some p =>
    have hnil : String.ofList (inner p) = "" ↔ inner p = [] := by
      rw [← String.toList_inj, String.toList_ofList]
      rfl
    have hsplit : "" ∈ Separated.split '+' (.ofList (inner p)) ↔
        [] ∈ (inner p).splitOn '+' := by
      rw [Separated.split, String.toList_ofList, List.mem_map]
      constructor
      · intro h
        obtain ⟨x, hx, he⟩ := h
        rw [← String.toList_inj, String.toList_ofList] at he
        change x = [] at he
        rwa [← he]
      · intro h
        exact ⟨[], h, rfl⟩
    simp only [Option.map_some, Option.mem_def, Option.some_inj, forall_eq', hnil, hsplit]

/-! ## Agreement -/

theorem sameViews_iff {a b : Address} (hne : a.segments ≠ []) :
    SameViews a b ↔ a = b ∧ a.cacheKeys = Mirror.cacheKeys a := by
  constructor
  · intro h
    have hab : a = b := congrArg Address.mk h.segments
    exact ⟨hab, by rw [h.cacheKeys, hab]⟩
  · intro h
    obtain ⟨rfl, hk⟩ := h
    refine ⟨rfl, rfl, rfl, ?_, rfl, rfl, hk, ?_⟩
    · unfold Address.namespaceName Mirror.namespaceName
      change (if 0 < a.organismIndex then _ else _) = some (if 0 < a.organismIndex then _ else _)
      split_ifs
      · cases hs : a.segments with
        | nil => exact absurd hs hne
        | cons s rest => rfl
      · rfl
    · exact if_pos ((AddressViews.organismIndex_lt_iff a).mpr hne)

theorem shaped_iff {ps : List (List Char)} (hcl : ∀ p ∈ ps, Closed p) :
    (∀ p ∈ ps, Shaped p) ↔ ∀ seg ∈ ps.map segmentOf, KeyClean seg := by
  rw [List.forall_mem_map]
  constructor
  · intro h p hp
    exact keyClean_segmentOf_iff.mpr (h p hp).clean
  · intro h p hp
    exact ⟨hcl p hp, keyClean_segmentOf_iff.mp (h p hp)⟩

/-- Where the Rust reader accepts, the mirror agrees on the parts that are shaped alike. -/
theorem common_iff_of_closed {s : String} {ps : List (List Char)}
    (hps : parts 0 [] s.toList = some ps) (hcl : ∀ p ∈ ps, Closed p) :
    Common s ↔ (∀ p ∈ ps, Shaped p) ∧ KeyWhole ps := by
  constructor
  · intro h
    cases h with
    | unpaired h =>
      rw [hps] at h
      cases h
    | plain qs h shaped key =>
      rw [hps, Option.some_inj] at h
      subst h
      exact ⟨shaped, key⟩
    | refused qs h rust _ =>
      rw [hps, Option.some_inj] at h
      subst h
      obtain ⟨p, hp, hn⟩ := rust
      exact absurd (hcl p hp) hn
  · intro h
    exact .plain ps hps h.1 h.2

/-- Both ends of a link read an address alike for exactly these texts. -/
theorem readers_agree_iff {s : String} (hs : s ≠ "") (ht : strip s = s) : Agree s ↔ Common s := by
  have hrust := parse_ok_iff hs
  have hpy := py_parse_ok_iff hs ht
  unfold Agree
  cases hr : Address.parse s with
  | ok a =>
    obtain ⟨ps, hps, hcl, rfl⟩ := (hrust a).mp hr
    have hne : (⟨ps.map segmentOf⟩ : Address).segments ≠ [] := by simpa using parts_ne_nil hps
    rw [common_iff_of_closed hps hcl, shaped_iff hcl, keyWhole_iff]
    have hclean := parse_iff_clean hr ht
    rw [← hclean]
    cases PythonAddress.parse s with
    | ok b =>
      rw [Except.ok.injEq, eq_comm (a := b)]
      exact sameViews_iff hne
    | error e => simp
  | error e =>
    have hno : ∀ ps, parts 0 [] s.toList = some ps → ∃ p ∈ ps, ¬ Closed p := by
      intro ps hps
      by_contra hall
      push Not at hall
      rw [(hrust _).mpr ⟨ps, hps, hall, rfl⟩] at hr
      cases hr
    cases hq : PythonAddress.parse s with
    | ok b =>
      obtain ⟨ps, hps, hread, hk, _⟩ := (hpy b).mp hq
      refine iff_of_false not_false fun h => ?_
      cases h with
      | unpaired h =>
        rw [hps] at h
        cases h
      | plain qs h shaped _ =>
        obtain ⟨p, hp, hn⟩ := hno qs h
        exact hn (shaped p hp).toClosed
      | refused qs h _ python =>
        rw [hps, Option.some_inj] at h
        subst h
        exact (unread_iff (parts_ne_nil hps)).mp python ⟨hread, hk⟩
    | error e' =>
      refine iff_of_true trivial ?_
      cases hps : parts 0 [] s.toList with
      | none => exact .unpaired hps
      | some ps =>
        refine .refused ps hps (hno ps hps) ((unread_iff (parts_ne_nil hps)).mpr fun h => ?_)
        rw [(hpy _).mpr ⟨ps, hps, h.1, h.2, rfl⟩] at hq
        cases hq

theorem agree_concierge :
    Agree "ringhub.bob[main+alice].dm" ↔ Common "ringhub.bob[main+alice].dm" :=
  readers_agree_iff (by decide) (by decide)

/-- Rust reads one key `x][y`, the mirror reads the key `y`. -/
theorem agree_not_two_brackets : ¬ ∀ s, s ≠ "" → strip s = s → Agree s := by
  intro h
  have hr : Address.parse "bob[x][y]" = .ok ⟨[⟨"bob", some "x][y"⟩]⟩ := by decide
  have hp : PythonAddress.parse "bob[x][y]" = .ok ⟨[⟨"bob", some "y"⟩]⟩ := by decide
  have ha := h "bob[x][y]" (by decide) (by decide)
  unfold Agree at ha
  rw [hr, hp] at ha
  exact absurd ha.segments (by decide)

end RustPipeline.AddressAgreement
