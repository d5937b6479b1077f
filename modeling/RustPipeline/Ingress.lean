import RustPipeline.Pipeline

set_option autoImplicit false

/-!
# From bytes to a routing decision

The parse, validation and route stages on one ingress item, and when they forward it, hand it to
the federation egress or drop it.
-/
namespace RustPipeline.Ingress
open Text Wire Codec Routing Registry Thread Federation Validation Pipeline

variable {F : Type} (P : Platform F)

inductive IngressOutcome (F : Type) where
  | faulted (fault : Fault)
  | invalid (e : PipelineError)
  | routed (outcome : RouteOutcome F)

/-- The parse, validation and route stages on one ingress item. -/
def ingress (registry : ListenerRegistry F) (federation : Option PeerDirectory)
    (threads : ThreadRegistry) (raw : Bytes) : ThreadRegistry × IngressOutcome F :=
  match decodeEnvelope P raw with
  | .error fault => (threads, .faulted fault)
  | .ok env =>
    match validateStage registry env with
    | .error e => (threads, .invalid e)
    | .ok msg =>
      let (threads, outcome) := routeStage P registry federation threads msg
      (threads, .routed outcome)

theorem ingress_routed_iff (registry : ListenerRegistry F) (federation : Option PeerDirectory)
    (threads : ThreadRegistry) (raw : Bytes) (outcome : RouteOutcome F) :
    (ingress P registry federation threads raw).2 = .routed outcome ↔
      ∃ env msg, decodeEnvelope P raw = .ok env ∧ validateStage registry env = .ok msg ∧
        (routeStage P registry federation threads msg).2 = outcome := by
  unfold ingress
  cases decodeEnvelope P raw with
  | error fault => simp
  | ok env =>
    dsimp only
    cases hv : validateStage registry env with
    | error e => simp [hv]
    | ok msg => simp [hv]

theorem ingress_forwarded {registry : ListenerRegistry F} {federation : Option PeerDirectory}
    {threads : ThreadRegistry} {raw : Bytes} {routed : RoutedMsg F}
    (h : (ingress P registry federation threads raw).2 = .routed (.forwarded routed)) :
    decodeEnvelope P raw = .ok routed.envelope ∧
      (ingress P registry federation threads raw).1 = registerThread threads
        routed.envelope.header.thread routed.envelope.header.fromAddr.organismName
        routed.targetName := by
  unfold ingress at h ⊢
  cases hd : decodeEnvelope P raw with
  | error fault => simp [hd] at h
  | ok env =>
    simp only [hd] at h ⊢
    cases hv : validateStage registry env with
    | error e => simp [hv] at h
    | ok msg =>
      simp only [hv, IngressOutcome.routed.injEq] at h ⊢
      obtain ⟨rfl, _⟩ := (validateStage_ok_iff registry env msg).mp hv
      unfold routeStage at h ⊢
      dsimp only at h ⊢
      split at h
      · cases h
      · next hremote =>
        rw [if_neg hremote]
        split at h
        · cases h
        · next target ht =>
          dsimp only
          cases h
          exact ⟨rfl, rfl⟩

/-- Only a forwarded message changes the registry. -/
theorem ingress_threads {registry : ListenerRegistry F} {federation : Option PeerDirectory}
    {threads : ThreadRegistry} {raw : Bytes}
    (h : ∀ routed, (ingress P registry federation threads raw).2 ≠ .routed (.forwarded routed)) :
    (ingress P registry federation threads raw).1 = threads := by
  unfold ingress at h ⊢
  cases hd : decodeEnvelope P raw with
  | error fault => rfl
  | ok env =>
    simp only [hd] at h ⊢
    cases hv : validateStage registry env with
    | error e => rfl
    | ok msg =>
      simp only [hv] at h ⊢
      unfold routeStage at h ⊢
      dsimp only at h ⊢
      split_ifs at h ⊢
      · rfl
      · cases ht : routeTarget P registry msg.envelope.header msg.envelope.payload.tag with
        | error e => rfl
        | ok target => exact absurd (by rw [ht]) (h ⟨msg.envelope, msg.payload, target.name⟩)

/-! ## Which listener an item resolves to -/

/-- The item reads back as the envelope, passes validation, stays on the node and has a route. -/
structure Resolves (registry : ListenerRegistry F) (federation : Option PeerDirectory)
    (raw : Bytes) (env : Envelope F) (target : ListenerEntry) : Prop where
  decoded : decodeEnvelope P raw = .ok env
  valid : validatePayloadValue env.payload.value (registry.schemas.inForce env.payload.tag) = .ok ()
  near : isRemote federation env.header.toAddr = false
  route : registry.routing.resolve P.lowercase (env.header.toAddr.bind Address.organism)
    env.payload.tag = .ok target

theorem ingress_forwarded_iff (registry : ListenerRegistry F) (federation : Option PeerDirectory)
    (threads : ThreadRegistry) (raw : Bytes) (routed : RoutedMsg F) :
    (ingress P registry federation threads raw).2 = .routed (.forwarded routed) ↔
      ∃ env target, Resolves P registry federation raw env target ∧
        ¬ registry.routing.Refuses env.header.fromAddr.organismName target.name ∧
        routed = ⟨env, ⟨env.payload.tag, env.payload.value⟩, target.name⟩ := by
  rw [ingress_routed_iff]
  constructor
  · rintro ⟨env, msg, hd, hv, hr⟩
    obtain ⟨rfl, hval⟩ := (validateStage_ok_iff registry env msg).mp hv
    obtain ⟨hnear, target, ht, rfl⟩ := (routeStage_forwarded_iff _ _ _ _ _ _).mp hr
    obtain ⟨hroute, hn⟩ := (routeTarget_ok_iff _ _ _ _ _).mp ht
    exact ⟨env, target, ⟨hd, hval, hnear, hroute⟩, hn, rfl⟩
  · rintro ⟨env, target, h, hn, rfl⟩
    have ht := (routeTarget_ok_iff P registry env.header env.payload.tag target).mpr ⟨h.route, hn⟩
    exact ⟨env, _, h.decoded, (validateStage_ok_iff registry env _).mpr ⟨rfl, h.valid⟩,
      (routeStage_forwarded_iff P registry federation threads _ _).mpr ⟨h.near, target, ht, rfl⟩⟩

theorem ingress_egress_iff (registry : ListenerRegistry F) (federation : Option PeerDirectory)
    (threads : ThreadRegistry) (raw : Bytes) (env : Envelope F) :
    (ingress P registry federation threads raw).2 = .routed (.egress env) ↔
      decodeEnvelope P raw = .ok env ∧
        validatePayloadValue env.payload.value (registry.schemas.inForce env.payload.tag) =
          .ok () ∧
        isRemote federation env.header.toAddr = true := by
  rw [ingress_routed_iff]
  constructor
  · rintro ⟨e, msg, hd, hv, hr⟩
    obtain ⟨rfl, hval⟩ := (validateStage_ok_iff registry e msg).mp hv
    obtain ⟨hremote, rfl⟩ := (routeStage_egress_iff _ _ _ _ _ _).mp hr
    exact ⟨hd, hval, hremote⟩
  · rintro ⟨hd, hval, hremote⟩
    exact ⟨env, _, hd, (validateStage_ok_iff registry env _).mpr ⟨rfl, hval⟩,
      (routeStage_egress_iff P registry federation threads _ _).mpr ⟨hremote, rfl⟩⟩

/-- A peer list drops an item exactly when it keeps the sender from the listener. -/
theorem ingress_peerViolation_iff (registry : ListenerRegistry F)
    (federation : Option PeerDirectory) (threads : ThreadRegistry) (raw : Bytes) :
    (∃ fromAgent toAgent allowed, (ingress P registry federation threads raw).2 =
        .routed (.dropped (.peerViolation fromAgent toAgent allowed))) ↔
      ∃ env target, Resolves P registry federation raw env target ∧
        registry.routing.Refuses env.header.fromAddr.organismName target.name := by
  simp only [ingress_routed_iff]
  constructor
  · rintro ⟨f, t, allowed, env, msg, hd, hv, hr⟩
    obtain ⟨rfl, hval⟩ := (validateStage_ok_iff registry env msg).mp hv
    obtain ⟨hnear, he⟩ := (routeStage_dropped_iff _ _ _ _ _ _).mp hr
    obtain ⟨target, hroute, hrefuse⟩ := routeTarget_peerViolation he
    exact ⟨env, target, ⟨hd, hval, hnear, hroute⟩, hrefuse⟩
  · rintro ⟨env, target, h, hrefuse⟩
    obtain ⟨allowed, he⟩ := routeTarget_of_refuses P h.route hrefuse
    exact ⟨_, _, allowed, env, _, h.decoded,
      (validateStage_ok_iff registry env _).mpr ⟨rfl, h.valid⟩,
      (routeStage_dropped_iff P registry federation threads _ _).mpr ⟨h.near, he⟩⟩

end RustPipeline.Ingress
