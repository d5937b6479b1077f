import RustPipeline.RouteKeys
import RustPipeline.StageFlow

set_option autoImplicit false

/-!
# What the dispatcher is given

Every message that the dispatcher receives passed every gate before it and has a handler, so that
the registry is never found inconsistent, whatever was registered and whatever comes in.
-/
namespace RustPipeline.GuardedDispatch
open Text Wire Codec Handling Routing Registry Validation Thread Federation Pipeline Ingress RouteKeys
open TransitionSystem Dispatch Interleaving BoundedStages StageInvariants StageFlow
open CallReturn ThreadProvenance PlainPlatform NoDeadlock

variable {F : Type} {P : Platform F}

/-- The message was read from bytes that came in; its value satisfies the schema in force for its
tag; it is for this node, for a listener that was registered under its key and has a handler; and
no peer list keeps its sender from the listener. -/
structure Admitted (P : Platform F) (ls : List (Registration F)) (federation : Option PeerDirectory)
    (raws : List Bytes) (msg : RoutedMsg F) : Prop where
  parsed : ∃ raw ∈ raws, decodeEnvelope P raw = .ok msg.envelope
  payload : msg.payload = ⟨msg.envelope.payload.tag, msg.envelope.payload.value⟩
  valid : validatePayloadValue msg.payload.value
    ((ListenerRegistry.build P.lowercase ls).schemas.inForce msg.payload.tag) = .ok ()
  near : isRemote federation msg.envelope.header.toAddr = false
  registered : ∃ l ∈ ls, l.name = msg.targetName ∧ routeKey P.lowercase l.name l.payloadTag =
    RoutingTable.lookupKey P.lowercase (msg.envelope.header.toAddr.bind Address.organism)
      msg.payload.tag
  handler : ∃ l ∈ ls, l.name = msg.targetName ∧
    (ListenerRegistry.build P.lowercase ls).getHandler msg.targetName = some l.handler
  allowed : ¬ (ListenerRegistry.build P.lowercase ls).routing.Refuses
    msg.envelope.header.fromAddr.organismName msg.targetName

/-! ## The registry -/

/-- What is resolved was registered under the key. -/
theorem registered_of_resolve {ls : List (Registration F)} {toId : Option String} {tag : String}
    {target : ListenerEntry}
    (h : (ListenerRegistry.build P.lowercase ls).routing.resolve P.lowercase toId tag = .ok target) :
    ∃ l ∈ ls, l.name = target.name ∧ routeKey P.lowercase l.name l.payloadTag =
      RoutingTable.lookupKey P.lowercase toId tag := by
  obtain ⟨rest, hall⟩ := (resolve_ok_iff _ _ _ _).mp h
  rw [build_routing] at hall
  have hlist := ((resolveAll_ok_iff _ _ _ _).mp hall).2
  have hmem : target ∈ target :: rest := List.mem_cons_self
  rw [hlist] at hmem
  obtain ⟨d, hd, rfl⟩ := List.mem_map.mp hmem
  obtain ⟨hd, hkey⟩ := List.mem_filter.mp hd
  obtain ⟨l, hl, rfl⟩ := List.mem_map.mp hd
  exact ⟨l, hl, rfl, of_decide_eq_true hkey⟩

/-- Whatever was registered has a handler. -/
theorem handler_of_registered {ls : List (Registration F)} {l : Registration F} (h : l ∈ ls) :
    ∃ k ∈ ls, k.name = l.name ∧
      (ListenerRegistry.build P.lowercase ls).getHandler l.name = some k.handler := by
  rw [ListenerRegistry.build_getHandler]
  have hmem : l ∈ ls.filter fun k => k.name = l.name := List.mem_filter.mpr ⟨h, by simp⟩
  cases hlast : (ls.filter fun k => k.name = l.name).getLast? with
  | none =>
    rw [List.getLast?_eq_none_iff.mp hlast] at hmem
    cases hmem
  | some k =>
    obtain ⟨hk, hname⟩ := List.mem_filter.mp (List.mem_of_getLast? hlast)
    exact ⟨k, hk, of_decide_eq_true hname, rfl⟩

/-- What passes the gates is admitted. -/
theorem admitted_of_gates {ls : List (Registration F)} {federation : Option PeerDirectory}
    {raws : List Bytes} {raw : Bytes} {msg : RoutedMsg F} (hraw : raw ∈ raws)
    (h : gates P (.build P.lowercase ls) federation raw = some msg) :
    Admitted P ls federation raws msg := by
  rw [gates_eq_some_iff .new, ingress_forwarded_iff] at h
  obtain ⟨env, target, hres, hallowed, rfl⟩ := h
  obtain ⟨l, hl, hname, hkey⟩ := registered_of_resolve hres.route
  constructor
  · exact ⟨raw, hraw, hres.decoded⟩
  · rfl
  · exact hres.valid
  · exact hres.near
  · exact ⟨l, hl, hname, hkey⟩
  · obtain ⟨k, hk, hkname, hhandler⟩ := handler_of_registered (P := P) hl
    rw [hname] at hkname hhandler
    exact ⟨k, hk, hkname, hhandler⟩
  · exact hallowed

/-! ## Every run -/

/-- What a worker has in hand or in its queue was received. -/
theorem received_of_held {p : Dispatch.State F} (hp : Reachable (dispatch F) p) {id : ℕ}
    {w : Worker F} {msg : RoutedMsg F} (hw : p.worker id = some w)
    (hm : w.phase = .processing msg ∨ msg ∈ w.queue) : msg ∈ p.received := by
  have hinv := inv_of_reachable hp
  obtain ⟨hlive, hmap⟩ := hinv.held hw hm
  have hlane := hinv.lane_live hw hlive
  have hrunning : p.running w.key = w.phase.message := congrArg Lanes.Lane.running hlane
  have hwaiting : p.waiting w.key = w.queue := congrArg Lanes.Lane.waiting hlane
  have haccepted : msg ∈ p.accepted.filter fun m => key m = w.key := by
    rw [conserved_of_reachable hp w.key, hrunning, hwaiting, List.append_assoc]
    apply List.mem_append_right
    rcases hm with hm | hm
    · rw [hm]
      exact List.mem_cons_self
    · exact List.mem_append_right _ hm
  rw [hinv.received]
  exact List.mem_append_left _ (List.mem_filter.mp haccepted).1

/-- In every run of the stages, everything the dispatcher has received or is still to receive, and
so everything that waits for a worker or is being handled by one, was admitted. -/
theorem dispatched_admitted {ls : List (Registration F)} {federation : Option PeerDirectory}
    {b : Buffers} {threads : ThreadRegistry} {t : BoundedStages.State F} {raws : List Bytes}
    (h : Parsed P (.build P.lowercase ls) federation b (.boot threads) raws t) :
    (∀ msg ∈ t.pool.received ++ oncoming P (.build P.lowercase ls) federation t,
      Admitted P ls federation raws msg) ∧
    ∀ id w msg, t.pool.worker id = some w → w.phase = .processing msg ∨ msg ∈ w.queue →
      Admitted P ls federation raws msg := by
  have hall : ∀ msg ∈ t.pool.received ++ oncoming P (.build P.lowercase ls) federation t,
      Admitted P ls federation raws msg := by
    intro msg hmsg
    have hrecord : record P (.build P.lowercase ls) federation t =
        raws.filterMap (gates P (.build P.lowercase ls) federation) :=
      record_of_run (stops_boot threads) h
    have hmem : msg ∈ record P (.build P.lowercase ls) federation t := hmsg
    rw [hrecord] at hmem
    obtain ⟨raw, hraw, hgate⟩ := List.mem_filterMap.mp hmem
    exact admitted_of_gates hraw hgate
  refine ⟨hall, ?_⟩
  intro id w msg hw hm
  have hstart : Reachable (stages P (.build P.lowercase ls) federation b) (.boot threads) :=
    .start ⟨threads, rfl⟩
  have hreach : Reachable (stages P (.build P.lowercase ls) federation b) t :=
    h.reachable (fun _ e _ he => ⟨e, he⟩) hstart
  obtain ⟨pool, hpool, rfl⟩ := refinesDispatch.reachable hreach
  exact hall msg (List.mem_append_left _ (received_of_held hpool hw hm))

/-- The visit on its way to the dispatcher is for alice, whose handler is there. -/
theorem dispatched_admitted_arriving :
    Admitted plain [front (.flat "bob"), waiter] none [visitRaw]
      ⟨visitWith .empty, ⟨"Greeting", .nil⟩, "alice"⟩ := by
  have honward : oncoming plain (desk (.flat "bob")).registry none arriving =
      [⟨visitWith .empty, ⟨"Greeting", .nil⟩, "alice"⟩] := rfl
  apply (dispatched_admitted (P := plain) arriving_run).1
  rw [show (ListenerRegistry.build plain.lowercase [front (.flat "bob"), waiter]) =
    (desk (.flat "bob")).registry from rfl, honward]
  exact List.mem_append_right _ List.mem_cons_self

end RustPipeline.GuardedDispatch
