import RustPipeline.Handling
import RustPipeline.Routing
import RustPipeline.Validation

set_option autoImplicit false

/-!
# The listener registry

Handlers by listener name, the routing table and the schemas, filled by one `register` call for
each listener.
-/
namespace RustPipeline.Registry
open Wire Handling Routing Validation

variable {F : Type}

/-- The arguments of one `register` call. -/
structure Registration (F : Type) where
  name : String
  payloadTag : String
  handler : Handler F
  isAgent : Bool
  peers : List String
  schema : Option PayloadSchema

structure ListenerRegistry (F : Type) where
  handlers : String → Option (Handler F)
  routing : RoutingTable
  schemas : SchemaRegistry

namespace ListenerRegistry

def new : ListenerRegistry F := ⟨fun _ => Option.none, .new, .new⟩

def register (lower : String → String) (r : ListenerRegistry F) (l : Registration F) :
    ListenerRegistry F where
  handlers := Function.update r.handlers l.name (some l.handler)
  routing := r.routing.register lower l.name l.payloadTag l.isAgent l.peers
  schemas := match l.schema with
    | some s => r.schemas.register s
    | Option.none => r.schemas

def getHandler (r : ListenerRegistry F) (name : String) : Option (Handler F) := r.handlers name

/-- The registry after a sequence of `register` calls. -/
def build (lower : String → String) (ls : List (Registration F)) : ListenerRegistry F :=
  ls.foldl (register lower) new

/-- Where no listener is an agent, no peer list refuses anything. -/
theorem not_refuses_build {lower : String → String} {ls : List (Registration F)}
    (h : ∀ l ∈ ls, l.isAgent = false) (f g : String) :
    ¬ (build lower ls).routing.Refuses f g := by
  have hfold : ∀ (ls : List (Registration F)) (r : ListenerRegistry F),
      (∀ l ∈ ls, l.isAgent = false) →
      (∀ n entry, r.routing.byName n = some entry → entry.isAgent = false) →
      ∀ n entry, (ls.foldl (register lower) r).routing.byName n = some entry →
        entry.isAgent = false := by
    intro ls
    induction ls with
    | nil => exact fun r _ hr => hr
    | cons l ls ih =>
      intro r hls hr
      refine ih _ (fun k hk => hls k (List.mem_cons_of_mem l hk)) ?_
      intro n entry he
      by_cases hn : n = l.name
      · subst hn
        have hself : (register lower r l).routing.byName l.name = some _ :=
          Function.update_self l.name _ _
        rw [hself, Option.some_inj] at he
        rw [← he]
        exact hls l List.mem_cons_self
      · exact hr n entry ((Function.update_of_ne hn _ _).symm.trans he)
  intro hr
  obtain ⟨entry, he, ha, _⟩ := hr
  rw [hfold ls new h (fun n e hn => by cases hn) f entry he] at ha
  cases ha

theorem build_concat {lower : String → String} (ls : List (Registration F)) (l : Registration F) :
    build lower (ls ++ [l]) = (build lower ls).register lower l := by
  unfold build
  rw [List.foldl_append]
  rfl

/-- Under a name stands the handler of the last registration for it. -/
theorem build_getHandler {lower : String → String} (ls : List (Registration F)) (n : String) :
    (build lower ls).getHandler n =
      ((ls.filter fun l => l.name = n).getLast?).map Registration.handler := by
  induction ls using List.reverseRecOn with
  | nil => rfl
  | append_singleton ls l ih =>
    rw [build_concat, List.filter_append]
    by_cases hn : l.name = n
    · subst hn
      simp only [decide_true, List.filter_singleton, cond_true, List.getLast?_concat,
        Option.map_some]
      exact Function.update_self _ _ _
    · simp only [hn, decide_false, List.filter_singleton, cond_false, List.append_nil]
      rw [← ih]
      exact Function.update_of_ne (Ne.symm hn) _ _

end ListenerRegistry

end RustPipeline.Registry
