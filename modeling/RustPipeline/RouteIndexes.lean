import RustPipeline.RouteKeys

set_option autoImplicit false

/-!
# The two indexes of the routing table

The routes keep the entry of every `register` call, the names only the last one. Peers are
enforced by the names alone.
-/
namespace RustPipeline.RouteIndexes
open Routing RouteKeys PlainPlatform

variable {lower : String → String}

/-- Every route has the agent flag and the peers that are kept under its name, and is enforced as
    it was declared. -/
structure Agree (t : RoutingTable) : Prop where
  indexed : ∀ k, ∀ e ∈ t.routes k, ∃ b, t.byName e.name = some b ∧
    b.isAgent = e.isAgent ∧ b.peers = e.peers
  enforced : ∀ k, ∀ e ∈ t.routes k, ∀ g,
    t.enforcePeers e.name g = .ok () ↔ (e.isAgent = true → g ∈ e.peers)

/-- Two calls that declare the same restriction. -/
def SameRestriction (d c : Declared) : Prop :=
  d.isAgent = c.isAgent ∧ d.peers.toFinset = c.peers.toFinset

theorem mem_routes_iff (ds : List Declared) (k : String) (e : ListenerEntry) :
    e ∈ (table lower ds).routes k ↔ ∃ d ∈ ds, d.key lower = k ∧ e = d.entry lower := by
  rw [routes_table, List.mem_map]
  constructor
  · intro h
    obtain ⟨d, hd, rfl⟩ := h
    obtain ⟨hd, hk⟩ := List.mem_filter.mp hd
    exact ⟨d, hd, of_decide_eq_true hk, rfl⟩
  · intro h
    obtain ⟨d, hd, hk, rfl⟩ := h
    exact ⟨d, List.mem_filter.mpr ⟨hd, decide_eq_true hk⟩, rfl⟩

variable (lower) in
/-- Each name that was declared is kept by one of the calls for it. -/
theorem exists_last {ds : List Declared} {d : Declared} (hd : d ∈ ds) :
    ∃ c ∈ ds, c.name = d.name ∧ (table lower ds).byName d.name = some (c.entry lower) := by
  have hmem : d ∈ ds.filter fun c => c.name = d.name :=
    List.mem_filter.mpr ⟨hd, decide_eq_true rfl⟩
  cases hl : (ds.filter fun c => c.name = d.name).getLast? with
  | none =>
    rw [List.getLast?_eq_none_iff.mp hl] at hmem
    cases hmem
  | some c =>
    obtain ⟨hc, hn⟩ := List.mem_filter.mp (List.mem_of_getLast? hl)
    refine ⟨c, hc, of_decide_eq_true hn, ?_⟩
    rw [byName_table, hl, Option.map_some]

theorem enforcePeers_of_byName {t : RoutingTable} {f : String} {b : ListenerEntry}
    (h : t.byName f = some b) (g : String) :
    t.enforcePeers f g = .ok () ↔ (b.isAgent = true → g ∈ b.peers) := by
  rw [RoutingTable.enforcePeers_ok_iff]
  constructor
  · intro hr ha
    by_contra hg
    exact hr ⟨b, h, ha, hg⟩
  · intro hb hr
    obtain ⟨b', h', ha, hg⟩ := hr
    rw [h, Option.some_inj] at h'
    subst h'
    exact hg (hb ha)

/-- Indexes that agree keep what each call for a name declares. -/
theorem sameRestriction_of_agree {ds : List Declared} (h : Agree (table lower ds)) {d c : Declared}
    (hd : d ∈ ds) (hc : c ∈ ds) (hn : d.name = c.name) : SameRestriction d c := by
  have hkept : ∀ d ∈ ds, ∀ b, (table lower ds).byName d.name = some b →
      b.isAgent = d.isAgent ∧ b.peers = d.peers.toFinset := by
    intro d hd b hb
    obtain ⟨b', hb', hs⟩ := h.indexed (d.key lower) (d.entry lower)
      ((mem_routes_iff ds _ _).mpr ⟨d, hd, rfl, rfl⟩)
    have he : some b = some b' := hb.symm.trans hb'
    rw [Option.some_inj] at he
    rw [he]
    exact hs
  obtain ⟨l, _, _, hl⟩ := exists_last lower hd
  have h1 := hkept d hd _ hl
  have h2 := hkept c hc _ (hn ▸ hl)
  exact ⟨h1.1.symm.trans h2.1, h1.2.symm.trans h2.2⟩

/-- The indexes agree after a sequence of calls exactly when the calls for one name all declare the
    same restriction. -/
theorem indexes_agree_iff (ds : List Declared) : Agree (table lower ds) ↔
    ∀ d ∈ ds, ∀ c ∈ ds, d.name = c.name → SameRestriction d c := by
  constructor
  · exact fun h d hd c hc hn => sameRestriction_of_agree h hd hc hn
  · intro h
    have hkept : ∀ k, ∀ e ∈ (table lower ds).routes k, ∃ b,
        (table lower ds).byName e.name = some b ∧ b.isAgent = e.isAgent ∧ b.peers = e.peers := by
      intro k e he
      obtain ⟨d, hd, _, rfl⟩ := (mem_routes_iff ds k e).mp he
      obtain ⟨c, hc, hn, hl⟩ := exists_last lower hd
      exact ⟨c.entry lower, hl, h c hc d hd hn⟩
    refine ⟨hkept, fun k e he g => ?_⟩
    obtain ⟨b, hb, ha, hp⟩ := hkept k e he
    rw [enforcePeers_of_byName hb, ha, hp]

/-! ## A second route -/

def bob : List Declared :=
  [⟨"bob", "BookFlight", true, ["travelagent"]⟩, ⟨"bob", "ToolResponse", false, []⟩]

/-- Declared again for a response tag, the agent may message anyone. -/
theorem not_agree : ¬ ∀ ds : List Declared, Agree (table plain.lowercase ds) := by
  intro h
  have hs := sameRestriction_of_agree (h bob) List.mem_cons_self
    (List.mem_cons_of_mem _ List.mem_cons_self) rfl
  exact absurd hs.1 (by decide)

end RustPipeline.RouteIndexes
