import RustPipeline.PlainPlatform
import RustPipeline.Registry

set_option autoImplicit false

/-!
# Routing keys

What a routing table holds after any sequence of `register` calls, and when the key `name.tag`
leads a message to the listener it names.
-/
namespace RustPipeline.RouteKeys
open Routing Registry PlainPlatform Separated

variable {lower : String → String}

/-- The arguments of one `register` call. -/
structure Declared where
  name : String
  payloadTag : String
  isAgent : Bool
  peers : List String

namespace Declared

def key (lower : String → String) (d : Declared) : String := routeKey lower d.name d.payloadTag

def entry (lower : String → String) (d : Declared) : ListenerEntry :=
  ⟨d.name, d.isAgent, d.peers.toFinset, d.key lower⟩

end Declared

/-- The table after a sequence of `register` calls. -/
def table (lower : String → String) (ds : List Declared) : RoutingTable :=
  ds.foldl (fun t d => t.register lower d.name d.payloadTag d.isAgent d.peers) .new

/-- `resolve` with all the entries it returns. -/
def resolveAll (lower : String → String) (t : RoutingTable) (toId : Option String)
    (payloadTag : String) : Except PipelineError (List ListenerEntry) :=
  match t.routes (RoutingTable.lookupKey lower toId payloadTag) with
  | [] => .error (.noRoute (RoutingTable.lookupKey lower toId payloadTag))
  | entry :: entries => .ok (entry :: entries)

/-- The pipeline takes the first of them. -/
theorem resolve_ok_iff (t : RoutingTable) (toId : Option String) (payloadTag : String)
    (e : ListenerEntry) : t.resolve lower toId payloadTag = .ok e ↔
      ∃ rest, resolveAll lower t toId payloadTag = .ok (e :: rest) := by
  unfold RoutingTable.resolve resolveAll
  cases t.routes (RoutingTable.lookupKey lower toId payloadTag) with
  | nil => simp
  | cons entry entries => simp

/-- The registry fills its routing table by the same calls. -/
theorem build_routing {F : Type} (ls : List (Registration F)) :
    (ListenerRegistry.build lower ls).routing =
      table lower (ls.map fun l => ⟨l.name, l.payloadTag, l.isAgent, l.peers⟩) := by
  unfold ListenerRegistry.build table
  rw [List.foldl_map]
  have h : ∀ r : ListenerRegistry F, (ls.foldl (ListenerRegistry.register lower) r).routing =
      ls.foldl (fun t l => t.register lower l.name l.payloadTag l.isAgent l.peers) r.routing := by
    induction ls with
    | nil => exact fun r => rfl
    | cons l ls ih => exact fun r => ih _
  exact h _

/-! ## What the table holds -/

theorem table_concat (ds : List Declared) (d : Declared) : table lower (ds ++ [d]) =
    (table lower ds).register lower d.name d.payloadTag d.isAgent d.peers := by
  rw [table, List.foldl_append]
  rfl

/-- Under a key stand the entries of the calls with that key, in the order of the calls. -/
theorem routes_table (ds : List Declared) (k : String) : (table lower ds).routes k =
    (ds.filter fun d => d.key lower = k).map (Declared.entry lower) := by
  induction ds using List.reverseRecOn with
  | nil => rfl
  | append_singleton ds d ih =>
    rw [table_concat, List.filter_append, List.map_append, ← ih]
    by_cases hk : d.key lower = k
    · subst hk
      simp only [decide_true, List.filter_singleton, cond_true]
      exact Function.update_self _ _ _
    · simp only [hk, decide_false, List.filter_singleton, cond_false, List.map_nil,
        List.append_nil]
      exact RoutingTable.routes_register_of_ne _ _ (Ne.symm hk)

/-- Under a name stands the entry of the last call for it. -/
theorem byName_table (ds : List Declared) (n : String) : (table lower ds).byName n =
    ((ds.filter fun d => d.name = n).getLast?).map (Declared.entry lower) := by
  induction ds using List.reverseRecOn with
  | nil => rfl
  | append_singleton ds d ih =>
    rw [table_concat, List.filter_append]
    by_cases hn : d.name = n
    · subst hn
      simp only [decide_true, List.filter_singleton, cond_true, List.getLast?_concat,
        Option.map_some]
      exact Function.update_self _ _ _
    · simp only [hn, decide_false, List.filter_singleton, cond_false, List.append_nil]
      rw [← ih]
      exact Function.update_of_ne (Ne.symm hn) _ _

theorem resolveAll_ok_iff (ds : List Declared) (toId : Option String) (tag : String)
    (es : List ListenerEntry) : resolveAll lower (table lower ds) toId tag = .ok es ↔ es ≠ [] ∧
      es = (ds.filter fun d => d.key lower = RoutingTable.lookupKey lower toId tag).map
        (Declared.entry lower) := by
  unfold resolveAll
  rw [routes_table]
  cases (ds.filter fun d => d.key lower = RoutingTable.lookupKey lower toId tag).map
      (Declared.entry lower) with
  | nil =>
    refine iff_of_false (by simp) fun h => h.1 h.2
  | cons entry entries =>
    rw [Except.ok.injEq]
    constructor
    · intro h
      rw [← h]
      exact ⟨List.cons_ne_nil _ _, rfl⟩
    · intro h
      exact h.2.symm

theorem resolveAll_error_iff (ds : List Declared) (toId : Option String) (tag : String) :
    resolveAll lower (table lower ds) toId tag =
      .error (.noRoute (RoutingTable.lookupKey lower toId tag)) ↔
        ∀ d ∈ ds, d.key lower ≠ RoutingTable.lookupKey lower toId tag := by
  unfold resolveAll
  rw [routes_table]
  have hnil : ((ds.filter fun d => d.key lower = RoutingTable.lookupKey lower toId tag).map
      (Declared.entry lower)) = [] ↔
        ∀ d ∈ ds, d.key lower ≠ RoutingTable.lookupKey lower toId tag := by
    simp [List.filter_eq_nil_iff]
  rw [← hnil]
  cases (ds.filter fun d => d.key lower = RoutingTable.lookupKey lower toId tag).map
      (Declared.entry lower) with
  | nil => simp
  | cons entry entries => simp

/-! ## Unambiguous keys -/

/-- What a lookup has to say: no route without a destination; with one only entries declared for
    that listener and that tag, and first of all the one the listener declared itself. -/
def Unambiguous (lower : String → String) (ds : List Declared) (toId : Option String)
    (tag : String) : Prop :=
  match toId with
  | none => resolveAll lower (table lower ds) none tag = .error (.noRoute (lower tag))
  | some m =>
    (∀ es, resolveAll lower (table lower ds) (some m) tag = .ok es → ∀ e ∈ es, ∃ d ∈ ds,
      e = d.entry lower ∧ lower d.name = lower m ∧ lower d.payloadTag = lower tag) ∧
    ∀ d ∈ ds, d.name = m → d.payloadTag = tag →
      ∃ rest, resolveAll lower (table lower ds) (some m) tag = .ok (d.entry lower :: rest)

/-- A declared pair and what is looked up are not one text cut at two of its dots, nor the bare tag
    of a message without destination a declared pair. -/
def Apart (lower : String → String) (d : Declared) (toId : Option String) (tag : String) : Prop :=
  match toId with
  | none => lower tag ≠ lower d.name ++ "." ++ lower d.payloadTag
  | some m => ¬ Recut '.' (lower d.name) (lower d.payloadTag) (lower m) (lower tag) ∧
      ¬ Recut '.' (lower m) (lower tag) (lower d.name) (lower d.payloadTag)

theorem key_eq_iff (d : Declared) (m tag : String) :
    d.key lower = routeKey lower m tag ↔
      (lower d.name = lower m ∧ lower d.payloadTag = lower tag) ∨
        Recut '.' (lower d.name) (lower d.payloadTag) (lower m) (lower tag) ∨
        Recut '.' (lower m) (lower tag) (lower d.name) (lower d.payloadTag) := by
  have hdot : "." = String.singleton '.' := by decide
  rw [Declared.key, routeKey, routeKey, hdot]
  exact append_eq_append_iff

theorem eq_singleton_of_filter {ds : List Declared}
    (hn : (ds.map fun d => lower d.name).Nodup) {p : Declared → Bool} {d : Declared} (hd : d ∈ ds)
    (hp : p d = true) (h : ∀ e ∈ ds, p e = true → lower e.name = lower d.name) :
    ds.filter p = [d] := by
  induction ds with
  | nil => cases hd
  | cons e ds ih =>
    rw [List.map_cons, List.nodup_cons] at hn
    have hrest : ∀ x ∈ ds, p x = true → lower x.name = lower d.name :=
      fun x hx => h x (List.mem_cons_of_mem e hx)
    rcases List.mem_cons.mp hd with rfl | hd
    · rw [List.filter_cons_of_pos hp, List.cons.injEq]
      refine ⟨rfl, List.filter_eq_nil_iff.mpr fun x hx hpx => hn.1 ?_⟩
      exact List.mem_map.mpr ⟨x, hx, hrest x hx hpx⟩
    · have he : ¬ p e = true := by
        intro hpe
        refine hn.1 (List.mem_map.mpr ⟨d, hd, ?_⟩)
        exact (h e List.mem_cons_self hpe).symm
      rw [List.filter_cons_of_neg he]
      exact ih hn.2 hd hrest

theorem apart_of_unambiguous {ds : List Declared} {m tag : String}
    (h : Unambiguous lower ds (some m) tag) {d : Declared} (hd : d ∈ ds) :
    Apart lower d (some m) tag := by
  have hsame : d.key lower = routeKey lower m tag → lower d.name = lower m := by
    intro hk
    have hmem : d ∈ ds.filter fun d => d.key lower = routeKey lower m tag := by
      simpa using ⟨hd, hk⟩
    have hok := (resolveAll_ok_iff ds (some m) tag _).mpr
      ⟨List.ne_nil_of_mem (List.mem_map_of_mem hmem), rfl⟩
    obtain ⟨c, _, hc, hcm, _⟩ := h.1 _ hok _ (List.mem_map_of_mem hmem)
    have hname : d.name = c.name := congrArg ListenerEntry.name hc
    rw [hname]
    exact hcm
  have hkey : d.key lower = routeKey lower m tag ↔ _ := key_eq_iff d m tag
  refine ⟨fun hr => ?_, fun hr => ?_⟩
  · exact hr.ne (hsame (hkey.mpr (.inr (.inl hr))))
  · exact hr.ne (hsame (hkey.mpr (.inr (.inr hr)))).symm

/-- A lookup is unambiguous exactly when no declared pair is what it looks up cut at another dot. -/
theorem unambiguous_iff {ds : List Declared} (hn : (ds.map fun d => lower d.name).Nodup)
    (toId : Option String) (tag : String) :
    Unambiguous lower ds toId tag ↔ ∀ d ∈ ds, Apart lower d toId tag := by
  cases toId with
  | none =>
    refine (resolveAll_error_iff ds none tag).trans ?_
    exact forall₂_congr fun d _ => ne_comm
  | some m =>
    constructor
    · exact fun h d hd => apart_of_unambiguous h hd
    · intro h
      have hsame : ∀ d ∈ ds, d.key lower = routeKey lower m tag →
          lower d.name = lower m ∧ lower d.payloadTag = lower tag := by
        intro d hd hk
        rcases (key_eq_iff d m tag).mp hk with hs | hr | hr
        · exact hs
        · exact absurd hr (h d hd).1
        · exact absurd hr (h d hd).2
      constructor
      · intro es hes e he
        obtain ⟨_, rfl⟩ := (resolveAll_ok_iff ds (some m) tag es).mp hes
        obtain ⟨d, hd, rfl⟩ := List.mem_map.mp he
        obtain ⟨hd, hk⟩ := List.mem_filter.mp hd
        exact ⟨d, hd, rfl, hsame d hd (of_decide_eq_true hk)⟩
      · intro d hd hm ht
        subst hm ht
        refine ⟨[], (resolveAll_ok_iff ds _ _ _).mpr ⟨List.cons_ne_nil _ _, ?_⟩⟩
        rw [eq_singleton_of_filter hn hd (decide_eq_true rfl)]
        · rfl
        · exact fun e he hk => (hsame e he (of_decide_eq_true hk)).1

/-! ## Two listeners -/

def search : List Declared :=
  [⟨"tools.search", "query", false, []⟩, ⟨"tools", "search.query", false, []⟩]

theorem search_nodup : (search.map fun d => plain.lowercase d.name).Nodup := by decide

theorem unambiguous_search : Unambiguous plain.lowercase search (some "tools") "query" ↔
    ∀ d ∈ search, Apart plain.lowercase d (some "tools") "query" :=
  unambiguous_iff search_nodup (some "tools") "query"

/-- What is sent to one listener reaches the other. -/
theorem not_unambiguous : ¬ ∀ ds : List Declared,
    (ds.map fun d => plain.lowercase d.name).Nodup →
      ∀ toId tag, Unambiguous plain.lowercase ds toId tag := by
  intro h
  have hu := h search search_nodup (some "tools") "search.query"
  exact (apart_of_unambiguous hu List.mem_cons_self).1 ⟨"search", by decide, by decide⟩

end RustPipeline.RouteKeys
