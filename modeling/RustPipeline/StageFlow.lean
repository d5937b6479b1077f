import RustPipeline.Foundation.Observations
import RustPipeline.NoDeadlock

set_option autoImplicit false

/-!
# What flows through the stages

The parse, validation and route stages over bounded channels are one queue with a filter: what the
dispatcher has received, with what is on its way to it, is what passed the gates, in order.
-/
namespace RustPipeline.StageFlow
open Text Wire Codec Handling Routing Registry Thread Federation Pipeline Ingress
open TransitionSystem Dispatch Interleaving BoundedStages StageInvariants Observations
open CallReturn ThreadProvenance PlainPlatform NoDeadlock

variable {F : Type}

/-! ## The gates -/

def held {M : Type} : Relay M → Option M
  | .sending msg => some msg
  | _ => none

/-- What the route stage has on its way to the dispatcher. -/
def onward : RoutePhase F → Option (RoutedMsg F)
  | .registering msg targetName => some ⟨msg.envelope, msg.payload, targetName⟩
  | .sending msg => some msg
  | _ => none

section
variable {M : Type} (P : Platform F) (registry : ListenerRegistry F)
  (decide : ValidatedMsg F → Option M)

/-- What is decided about an envelope that has been parsed, if it passes validation. -/
def ofParsed (env : Envelope F) : Option M := (held (validating registry env)).bind decide

/-- What is decided about bytes that come in. -/
def ofRaw (raw : Bytes) : Option M := (held (parsing P raw)).bind (ofParsed registry decide)

/-- What is decided about everything between the parse stage and the route stage, oldest first. -/
def upstream (s : BoundedStages.State F) : List M :=
  s.validated.filterMap decide ++ ((held s.validate).bind decide).toList ++
    s.parsed.filterMap (ofParsed registry decide) ++
      ((held s.parse).bind (ofParsed registry decide)).toList

end

section
variable (P : Platform F) (registry : ListenerRegistry F) (federation : Option PeerDirectory)

def forward (msg : ValidatedMsg F) : Option (RoutedMsg F) :=
  onward (routing P registry federation msg)

/-- The message that the three stages make of what comes in, if it passes them. -/
def gates (raw : Bytes) : Option (RoutedMsg F) := ofRaw P registry (forward P registry federation) raw

/-- What is between the parse stage and the dispatcher and will reach it, oldest first. -/
def oncoming (s : BoundedStages.State F) : List (RoutedMsg F) :=
  s.routed ++ (onward s.route).toList ++ upstream registry (forward P registry federation) s

def record (s : BoundedStages.State F) : List (RoutedMsg F) :=
  s.pool.received ++ oncoming P registry federation s

end

/-- What the parse stage receives in a step. -/
def taken (s : BoundedStages.State F) : BoundedStages.Event → List Bytes
  | .task .parse => if (held s.parse).isNone then s.ingress.head?.toList else []
  | _ => []

variable {P : Platform F} {registry : ListenerRegistry F} {federation : Option PeerDirectory}
  {b : Buffers}

theorem forward_eq_some_iff (threads : ThreadRegistry) (msg : ValidatedMsg F)
    (routed : RoutedMsg F) : forward P registry federation msg = some routed ↔
      (routeStage P registry federation threads msg).2 = .forwarded routed := by
  rw [routeStage_forwarded_iff]
  unfold forward routing
  cases isRemote federation msg.envelope.header.toAddr with
  | true => simp [onward]
  | false =>
    cases routeTarget P registry msg.envelope.header msg.envelope.payload.tag with
    | error e => simp [onward]
    | ok target => simp [onward, eq_comm]

/-- What passes the gates is what the atomic ingress forwards. -/
theorem gates_eq_some_iff (threads : ThreadRegistry) (raw : Bytes) (routed : RoutedMsg F) :
    gates P registry federation raw = some routed ↔
      (ingress P registry federation threads raw).2 = .routed (.forwarded routed) := by
  rw [ingress_routed_iff]
  unfold gates ofRaw parsing
  cases decodeEnvelope P raw with
  | error fault => simp [held]
  | ok env =>
    change ofParsed registry (forward P registry federation) env = some routed ↔ _
    unfold ofParsed validating
    cases hv : validateStage registry env with
    | error e => simp [held, hv]
    | ok msg =>
      change forward P registry federation msg = some routed ↔ _
      rw [forward_eq_some_iff threads]
      simp [hv]

/-! ## One step -/

/-- The first two stages take from the ingress only, and hand on in order. -/
theorem upstream_relay {M : Type} (decide : ValidatedMsg F → Option M) {s t : BoundedStages.State F}
    {u : Task} (h : Stops s) (hs : RelayStep P registry b s u t) :
    upstream registry decide t = upstream registry decide s ++
      (taken s (.task u)).filterMap (ofRaw P registry decide) := by
  cases hs with
  | parseRecv raw rest hp hq =>
    simp [upstream, taken, hp, hq, held, ofRaw, filterMap_cons_toList]
  | parseSend env hp ho hroom => simp [upstream, taken, hp, held, filterMap_cons_toList]
  | parseBreak env hp hc =>
    have hstopped := (h.validate hc).1
    rw [hp] at hstopped
    cases hstopped
  | validateRecv env rest hp hq =>
    simp [upstream, taken, hp, hq, held, ofParsed, filterMap_cons_toList]
  | validateSend msg hp ho hroom => simp [upstream, taken, hp, held, filterMap_cons_toList]
  | validateBreak msg hp hc =>
    have hstopped := (h.route hc).1
    rw [hp] at hstopped
    cases hstopped
  | validateEnd hp hq hup => simp [upstream, taken, hp, held]

theorem taken_ingress {s t : BoundedStages.State F} {u : Task} (h : Stops s)
    (hs : RelayStep P registry b s u t) : taken s (.task u) ++ t.ingress = s.ingress := by
  cases hs with
  | parseRecv raw rest hp hq => simp [taken, hp, hq, held]
  | parseSend env hp ho hroom => simp [taken, hp, held]
  | parseBreak env hp hc =>
    have hstopped := (h.validate hc).1
    rw [hp] at hstopped
    cases hstopped
  | validateRecv env rest hp hq => rfl
  | validateSend msg hp ho hroom => rfl
  | validateBreak msg hp hc => rfl
  | validateEnd hp hq hup => rfl

/-- What a stage decides about is taken off the front. -/
theorem upstream_recv {M : Type} (decide : ValidatedMsg F → Option M) {s : BoundedStages.State F}
    {msg : ValidatedMsg F} {rest : List (ValidatedMsg F)} (hq : s.validated = msg :: rest)
    (r : RoutePhase F) : upstream registry decide s =
      (decide msg).toList ++ upstream registry decide { s with route := r, validated := rest } := by
  simp [upstream, hq, filterMap_cons_toList]

/-- A step that leaves the stages and the channels between them alone. -/
theorem record_of_eq {s t : BoundedStages.State F} (hreceived : t.pool.received = s.pool.received)
    (hrouted : t.routed = s.routed) (hroute : onward t.route = onward s.route)
    (hupstream : upstream registry (forward P registry federation) t =
      upstream registry (forward P registry federation) s) :
    record P registry federation t = record P registry federation s := by
  unfold record oncoming
  rw [hreceived, hrouted, hroute, hupstream]

theorem record_relay {s t : BoundedStages.State F} {u : Task} (h : Stops s)
    (hs : RelayStep P registry b s u t) : record P registry federation t =
      record P registry federation s ++
        (taken s (.task u)).filterMap (gates P registry federation) := by
  have hu := upstream_relay (forward P registry federation) h hs
  have hsame : t.pool = s.pool ∧ t.routed = s.routed ∧ t.route = s.route := by
    cases hs <;> exact ⟨rfl, rfl, rfl⟩
  obtain ⟨hpool, hrouted, hroute⟩ := hsame
  unfold record oncoming
  rw [hpool, hrouted, hroute, hu]
  simp only [List.append_assoc]
  rfl

theorem record_route {s t : BoundedStages.State F} (h : Stops s)
    (hs : RouteStep P registry federation b s t) : record P registry federation t =
      record P registry federation s := by
  cases hs with
  | recv msg rest hp hq =>
    unfold record oncoming
    rw [upstream_recv (forward P registry federation) hq (routing P registry federation msg), hp]
    simp [onward, forward]
  | egress env hp ho hroom => exact record_of_eq rfl rfl (by rw [hp]; rfl) rfl
  | egressClosed env hp hc => exact record_of_eq rfl rfl (by rw [hp]; rfl) rfl
  | register msg name hp hl => exact record_of_eq rfl rfl (by rw [hp]; rfl) rfl
  | send msg hp ho hroom => simp [record, oncoming, upstream, hp, onward]
  | fail msg hp hc =>
    have hstopped := (h.dispatch hc).1
    rw [hp] at hstopped
    cases hstopped
  | stop hp hq hup => exact record_of_eq rfl rfl (by rw [hp]; rfl) rfl

theorem record_dispatch {s t : BoundedStages.State F} (hs : DispatchStep s t) :
    record P registry federation t = record P registry federation s := by
  cases hs with
  | recv msg rest hd hp hq => simp [record, oncoming, upstream, hq]
  | enqueue msg id w hl hp hm hw ho => rfl
  | spawn msg id hl hp hm hf => rfl
  | sendError msg id w hl hp hm hw hc => rfl
  | stop hd hp hq hup => rfl

/-- Only the parse stage puts something into the record, behind everything else. -/
theorem record_step {s t : BoundedStages.State F} {e : BoundedStages.Event} (h : Stops s)
    (hs : BoundedStages.Step P registry federation b s e t) : record P registry federation t =
      record P registry federation s ++ (taken s e).filterMap (gates P registry federation) := by
  cases hs with
  | relay hs => exact record_relay h hs
  | route hs => exact (record_route h hs).trans (List.append_nil _).symm
  | dispatch hs => exact (record_dispatch hs).trans (List.append_nil _).symm
  | loop hs => cases hs <;> exact (List.append_nil _).symm
  | handling hs => cases hs <;> exact (List.append_nil _).symm
  | lockThreads u hw hl =>
    cases u with
    | parse => exact hw.elim
    | validate => exact hw.elim
    | route => exact (List.append_nil _).symm
    | dispatch => exact hw.elim
    | worker id => exact (List.append_nil _).symm
  | lockWorkers u hw hl =>
    cases u with
    | parse => exact hw.elim
    | validate => exact hw.elim
    | route => exact hw.elim
    | dispatch => exact (List.append_nil _).symm
    | worker id => exact (List.append_nil _).symm
  | outside hs =>
    cases hs with
    | inject raw ho hroom => exact (List.append_nil _).symm
    | drain env rest hq => exact (List.append_nil _).symm
    | close => exact (List.append_nil _).symm
    | shutdown hp =>
      have hheld : held (Relay.stopped : Relay (Envelope F)) = held s.parse := by
        rw [hp]
        rfl
      have hupstream : upstream registry (forward P registry federation)
          { s with parse := .stopped, ingress := [] } =
            upstream registry (forward P registry federation) s := by
        unfold upstream
        dsimp only
        rw [hheld]
      have hsame : record P registry federation { s with parse := .stopped, ingress := [] } =
          record P registry federation s := record_of_eq rfl rfl rfl hupstream
      rw [hsame]
      exact (List.append_nil _).symm
    | timeout id w hw hp => exact (List.append_nil _).symm

/-! ## Runs -/

variable (P registry federation b) in
/-- Runs of the stages, with the bytes that the parse stage received in them. -/
abbrev Parsed : BoundedStages.State F → List Bytes → BoundedStages.State F → Prop :=
  Run (BoundedStages.Step P registry federation b) taken

/-- The dispatcher has received, or will receive, what passed the gates, in the order in which it
    was parsed. -/
theorem record_of_run {s t : BoundedStages.State F} {raws : List Bytes} (hs : Stops s)
    (h : Parsed P registry federation b s raws t) : record P registry federation t =
      record P registry federation s ++ raws.filterMap (gates P registry federation) :=
  h.recorded (fun _ _ _ hi he => hi.step he) (fun _ _ _ hi he => record_step hi he) hs

theorem stops_boot (threads : ThreadRegistry) :
    Stops (BoundedStages.State.boot threads : BoundedStages.State F) := ⟨nofun, nofun, nofun, nofun⟩

/-- The messages of a thread that were handled, with the one that is being handled, are the first of
    its messages that came in and passed the gates, in the order in which they came in. -/
theorem handled_in_order {threads : ThreadRegistry} {t : BoundedStages.State F} {raws : List Bytes}
    (h : Parsed P registry federation b (.boot threads) raws t) :
    t.pool.received ++ oncoming P registry federation t =
      raws.filterMap (gates P registry federation) ∧
    ∀ k, (t.pool.finished.filter fun m => key m = k) ++ (t.pool.running k).toList <+:
      (raws.filterMap (gates P registry federation)).filter fun m => key m = k := by
  have hrecord : t.pool.received ++ oncoming P registry federation t =
      raws.filterMap (gates P registry federation) := record_of_run (stops_boot threads) h
  refine ⟨hrecord, ?_⟩
  intro k
  have hstart : Reachable (stages P registry federation b) (.boot threads) := .start ⟨threads, rfl⟩
  have hreach : Reachable (stages P registry federation b) t :=
    h.reachable (fun _ e _ he => ⟨e, he⟩) hstart
  obtain ⟨pool, hpool, rfl⟩ := refinesDispatch.reachable hreach
  have hinv := inv_of_reachable hpool
  rw [← hrecord, hinv.received, List.filter_append, List.filter_append,
    conserved_of_reachable hpool k, List.append_assoc, List.append_assoc]
  exact List.prefix_append _ _

/-! ## A visit on its way -/

def visitRaw : Bytes := encodeEnvelope plain (visitWith .empty)

/-- The parse stage is at the send of the visit. -/
def arriving : BoundedStages.State UInt32 :=
  { BoundedStages.State.boot .new with parse := .sending (visitWith .empty) }

theorem arriving_run :
    Parsed plain (desk (.flat "bob")).registry none narrow (.boot .new) [visitRaw] arriving := by
  have h0 : Parsed plain (desk (.flat "bob")).registry none narrow (.boot .new) [] (.boot .new) :=
    .refl _
  have h1 := h0.tail (BoundedStages.Step.outside (.inject _ visitRaw nofun (by decide)))
  have h2 := h1.tail (BoundedStages.Step.relay (.parseRecv _ visitRaw [] rfl rfl))
  rw [show parsing plain visitRaw = .sending (visitWith .empty) from parsing_visit] at h2
  exact h2

/-- A second visit, which brings provenance. -/
def laterRaw : Bytes := encodeEnvelope plain (visitWith lowBit)

def visitMsg : ValidatedMsg UInt32 := ⟨visitWith .empty, ⟨"Greeting", .nil⟩⟩

/-- Alice handles the first visit while the second is parsed. -/
theorem visits_run : ∃ t, Parsed plain (desk (.flat "bob")).registry none narrow (.boot .new)
    [visitRaw, laterRaw] t ∧ t.pool.running "t1" = some (routedWith .empty) ∧
      oncoming plain (desk (.flat "bob")).registry none t = [routedWith lowBit] := by
  have hlater : parsing plain laterRaw = .sending (visitWith lowBit) :=
    parsing_of_ok (decode_visitWith lowBit)
  have hroute : routing plain (desk (.flat "bob")).registry none visitMsg =
      .registering visitMsg "alice" := rfl
  have h1 := arriving_run.tail (.relay (.parseSend _ (visitWith .empty) rfl nofun (by decide)))
  have h2 := h1.tail (.outside (.inject _ laterRaw nofun (by decide)))
  have h3 := h2.tail (.relay (.parseRecv _ laterRaw [] rfl rfl))
  rw [hlater] at h3
  have h4 := h3.tail (.relay (.validateRecv _ (visitWith .empty) [] rfl rfl))
  have h5 := h4.tail (.relay (.validateSend _ visitMsg rfl nofun (by decide)))
  have h6 := h5.tail (.route (.recv _ visitMsg [] rfl rfl))
  have h7 := h6.tail (.lockThreads _ .route ⟨visitMsg, "alice", hroute⟩ rfl)
  have h8 := h7.tail (.route (.register _ visitMsg "alice" hroute rfl))
  have h9 := h8.tail (.route (.send _ (routedWith .empty) rfl rfl (by decide)))
  have h10 := h9.tail (.dispatch (.recv _ (routedWith .empty) [] rfl rfl rfl))
  have h11 := h10.tail (.lockWorkers _ .dispatch rfl rfl)
  have h12 := h11.tail (.dispatch (.spawn _ (routedWith .empty) 0 rfl rfl rfl rfl))
  have h13 := h12.tail (.loop (.recv _ 0 ⟨"t1", [routedWith .empty], .waiting⟩
    (routedWith .empty) [] rfl rfl rfl))
  exact ⟨_, h13, rfl, rfl⟩

/-- What alice handles is the first of her two visits. -/
theorem handled_in_order_visits : ∃ t : BoundedStages.State UInt32,
    t.pool.running "t1" = some (routedWith .empty) ∧
    oncoming plain (desk (.flat "bob")).registry none t = [routedWith lowBit] ∧
    t.pool.received ++ oncoming plain (desk (.flat "bob")).registry none t =
      [visitRaw, laterRaw].filterMap (gates plain (desk (.flat "bob")).registry none) ∧
    ∀ k, (t.pool.finished.filter fun m => key m = k) ++ (t.pool.running k).toList <+:
      ([visitRaw, laterRaw].filterMap (gates plain (desk (.flat "bob")).registry none)).filter
        fun m => key m = k := by
  obtain ⟨t, hrun, hrunning, honcoming⟩ := visits_run
  obtain ⟨hrecord, hprefix⟩ := handled_in_order hrun
  exact ⟨t, hrunning, honcoming, hrecord, hprefix⟩

end RustPipeline.StageFlow
