import RustPipeline.Federation
import RustPipeline.PlainPlatform

set_option autoImplicit false

/-!
# The authorization gate

What the inbound path of the federation server guarantees about the envelopes it delivers.
-/
namespace RustPipeline.FederationGate
open Text Wire Codec CodecImage Federation PlainPlatform

variable {F : Type}

/-- Every delivery follows an accepting `authorize` call on the delivered envelope, whose
    destination is then at most stripped of the node's own prefix, and names no forbidden node. -/
def Gated (s : FederationServer F) (forbidden : Set String) (calls : List (Call F)) : Prop :=
  ∀ pre env post, calls = pre ++ .deliver env :: post →
    (∃ toAddr, .authorize env.header.fromAddr toAddr ∈ pre ∧
      s.authorizer env.header.fromAddr toAddr = .ok () ∧
      env.header.toAddr = some (stripNode s.node toAddr)) ∧
    ∀ a ∈ env.header.toAddr, ∀ n ∈ a.node, n ∉ forbidden

/-- The node's own prefix with a forbidden name right behind it. -/
def BehindPrefix (node : String) (forbidden : Set String) (a : Address) : Prop :=
  a.node = some node ∧ ∃ second ∈ a.segments[1]?, second.name ∈ forbidden

/-- An opened envelope with a destination that the authorizer rejects or that hides no forbidden
    name behind the node's own. -/
def GateHolds (s : FederationServer F) (forbidden : Set String) (env : Envelope F)
    (sender : String) : Prop :=
  ∃ toAddr, env.header.toAddr = some toAddr ∧
    ((∃ m, s.authorizer (rerootOrigin env.header.fromAddr sender) toAddr = .error m) ∨
      ¬ BehindPrefix s.node forbidden toAddr)

theorem deliverLocally_calls (s : FederationServer F) (env : Envelope F) :
    (deliverLocally s env).1 = [.deliver { env with header := { env.header with
      toAddr := env.header.toAddr.map (stripNode s.node) } }] := by
  unfold deliverLocally
  dsimp only
  split <;> rfl

theorem gated_nil (s : FederationServer F) (forbidden : Set String) : Gated s forbidden [] := by
  intro pre env post h
  simp at h

theorem gated_authorize (s : FederationServer F) (forbidden : Set String) (a b : Address) :
    Gated s forbidden [.authorize a b] := by
  intro pre env post h
  have hmem : Call.deliver env ∈ [Call.authorize a b] := by simp [h]
  simp at hmem

/-- A delivery that no call precedes is not gated. -/
theorem not_gated_deliver (s : FederationServer F) (forbidden : Set String) (env : Envelope F) :
    ¬ Gated s forbidden [.deliver env] := by
  intro h
  obtain ⟨⟨toAddr, hmem, _⟩, _⟩ := h [] env [] rfl
  cases hmem

theorem gated_pair_iff (s : FederationServer F) (forbidden : Set String) (env : Envelope F)
    (toAddr : Address) (hok : s.authorizer env.header.fromAddr toAddr = .ok ())
    (hto : env.header.toAddr = some (stripNode s.node toAddr)) :
    Gated s forbidden [.authorize env.header.fromAddr toAddr, .deliver env] ↔
      ∀ n ∈ (stripNode s.node toAddr).node, n ∉ forbidden := by
  constructor
  · intro h
    have hd := (h [.authorize env.header.fromAddr toAddr] env [] rfl).2
    exact hd _ hto
  · intro h pre e post he
    have hsplit : pre = [.authorize env.header.fromAddr toAddr] ∧ e = env := by
      cases pre with
      | nil => simp at he
      | cons c pre =>
        cases pre with
        | nil =>
          simp only [List.cons_append, List.nil_append, List.cons.injEq, Call.deliver.injEq] at he
          exact ⟨by rw [he.1], he.2.1.symm⟩
        | cons d pre => simp at he
    obtain ⟨rfl, rfl⟩ := hsplit
    refine ⟨⟨toAddr, List.mem_singleton.mpr rfl, hok, hto⟩, ?_⟩
    intro a ha
    rw [hto, Option.mem_some_iff] at ha
    exact ha ▸ h

/-- Stripping exposes a forbidden node exactly behind the node's own prefix. -/
theorem stripped_node_iff {s : FederationServer F} {forbidden : Set String} {a : Address}
    (hnode : ∀ n ∈ a.node, n ∉ forbidden) :
    (∀ n ∈ (stripNode s.node a).node, n ∉ forbidden) ↔ ¬ BehindPrefix s.node forbidden a := by
  unfold stripNode BehindPrefix
  obtain ⟨segments⟩ := a
  by_cases h : 1 < segments.length ∧ (Address.mk segments).node = some s.node
  · have hstrip : (Address.mk (segments.drop 1)).node = segments[1]?.map Segment.name := by
      rw [Address.node, List.head?_drop]
    rw [if_pos h, hstrip, and_iff_right h.2]
    cases segments[1]? <;> simp
  · rw [if_neg h]
    refine iff_of_true hnode ?_
    rintro ⟨hn, second, hs, _⟩
    obtain ⟨hlt, _⟩ := List.getElem?_eq_some_iff.mp hs
    exact h ⟨hlt, hn⟩

theorem crossEdge_gated_iff {s : FederationServer F} {forbidden : Set String} {env : Envelope F}
    (hauth : ∀ toAddr, ∀ n ∈ toAddr.node, n ∈ forbidden →
      ∃ m, s.authorizer env.header.fromAddr toAddr = .error m) :
    Gated s forbidden (crossEdge s env).1 ↔ ∃ toAddr, env.header.toAddr = some toAddr ∧
      ((∃ m, s.authorizer env.header.fromAddr toAddr = .error m) ∨
        ¬ BehindPrefix s.node forbidden toAddr) := by
  unfold crossEdge
  cases hto : env.header.toAddr with
  | none =>
    dsimp only
    rw [deliverLocally_calls]
    refine iff_of_false (not_gated_deliver s forbidden _) ?_
    rintro ⟨a, ha, _⟩
    cases ha
  | some toAddr =>
    simp only [Option.some.injEq, exists_eq_left']
    cases hres : s.authorizer env.header.fromAddr toAddr with
    | error m => exact iff_of_true (gated_authorize s forbidden _ _) (Or.inl ⟨m, rfl⟩)
    | ok u =>
      have hnode : ∀ n ∈ toAddr.node, n ∉ forbidden := by
        intro n hn hmem
        obtain ⟨m, hm⟩ := hauth toAddr n hn hmem
        rw [hres] at hm
        cases hm
      simp only [deliverLocally_calls, hto, Option.map_some, reduceCtorEq, exists_false, false_or]
      rw [← stripped_node_iff hnode]
      exact gated_pair_iff s forbidden { env with header := { env.header with
        toAddr := some (stripNode s.node toAddr) } } toAddr hres rfl

/-- What an inbound frame leads to is gated exactly when it does not open or its envelope meets
    `GateHolds`. -/
theorem receive_gated_iff (P : Platform F) (s : FederationServer F) (forbidden : Set String)
    (frame : Bytes) (hauth : ∀ fromAddr toAddr, ∀ n ∈ toAddr.node, n ∈ forbidden →
      ∃ m, s.authorizer fromAddr toAddr = .error m) :
    Gated s forbidden (receive P s frame).1 ↔
      ∀ env sender, openFrame P s.aead frame s.directory = .ok (env, sender) →
        GateHolds s forbidden env sender := by
  unfold receive
  cases hopen : openFrame P s.aead frame s.directory with
  | error e =>
    refine iff_of_true (gated_nil s forbidden) ?_
    intro env sender h
    cases h
  | ok p =>
    have hcross : Gated s forbidden (crossEdge s (stamp s.directory p.1 p.2)).1 ↔ _ :=
      crossEdge_gated_iff (hauth _)
    refine hcross.trans ⟨?_, fun h => h p.1 p.2 rfl⟩
    rintro h env sender ⟨⟩
    exact h

/-! ## A forbidden name behind the node's own prefix -/

/-- An ideal cipher that has sealed one message. -/
def sealedOnce (key : PeerKey) (nonce plaintext header ct : Bytes) : Aead where
  decrypt k n c a := if k = key ∧ n = nonce ∧ c = ct ∧ a = header then some plaintext else none

theorem sealedOnce_decrypt (key : PeerKey) (nonce plaintext header ct : Bytes) :
    (sealedOnce key nonce plaintext header ct).decrypt key nonce ct header = some plaintext :=
  if_pos ⟨rfl, rfl, rfl, rfl⟩

def ringhub : Peer := ⟨"ringhub", Vector.replicate 32 7, .empty⟩

def zeroNonce : Bytes := List.replicate nonceLen 0

/-- A node `agentos` that peers with `ringhub`, keeps `root` to itself, and is to open the one
    frame that carries the envelope. -/
def agentos (env : Envelope UInt32) : FederationServer UInt32 where
  node := "agentos"
  directory := PeerDirectory.new.register ringhub
  aead := sealedOnce ringhub.key zeroNonce (encodeEnvelope plain env) (encodeHeader "ringhub") [1]
  authorizer _ toAddr := if toAddr.node = some "root" then .error "root is local" else .ok ()
  deliver _ := .ok ()

def ringhubFrame : Bytes := encodeHeader "ringhub" ++ (zeroNonce ++ [1])

def order (toAddr : Option Address) : Envelope UInt32 :=
  ⟨⟨.flat "bob", toAddr, "t1", .empty⟩, ⟨"Order", .nil⟩⟩

def behindPrefix : Address := ⟨[⟨"agentos", none⟩, ⟨"root", none⟩, ⟨"kernel", none⟩]⟩

theorem agentos_rejects (env : Envelope UInt32) : ∀ fromAddr toAddr : Address, ∀ n ∈ toAddr.node,
    n ∈ ({"root"} : Set String) → ∃ m, (agentos env).authorizer fromAddr toAddr = .error m := by
  rintro fromAddr toAddr n hn rfl
  exact ⟨"root is local", if_pos hn⟩

theorem agentos_opens {env : Envelope UInt32}
    (henv : decodeEnvelope plain (encodeEnvelope plain env) = .ok env) :
    openFrame plain (agentos env).aead ringhubFrame (agentos env).directory =
      .ok (env, "ringhub") :=
  openFrame_of_decrypt plain (by decide) rfl rfl (sealedOnce_decrypt _ _ _ _ _) henv

theorem decode_order_concierge :
    decodeEnvelope plain (encodeEnvelope plain (order (some (.flat "concierge")))) =
      .ok (order (some (.flat "concierge"))) :=
  decode_of_image rfl

theorem receive_gated_concierge :
    Gated (agentos (order (some (.flat "concierge")))) {"root"}
      (receive plain (agentos (order (some (.flat "concierge")))) ringhubFrame).1 := by
  refine (receive_gated_iff plain _ _ _ (agentos_rejects _)).mpr ?_
  intro env sender h
  rw [agentos_opens decode_order_concierge] at h
  cases h
  refine ⟨.flat "concierge", rfl, Or.inr ?_⟩
  rintro ⟨hn, _⟩
  revert hn
  decide

theorem receive_not_gated :
    (∀ fromAddr toAddr : Address, ∀ n ∈ toAddr.node, n ∈ ({"root"} : Set String) →
      ∃ m, (agentos (order (some behindPrefix))).authorizer fromAddr toAddr = .error m) ∧
    (agentos (order (some behindPrefix))).node ∉ ({"root"} : Set String) ∧
    (∃ env a, Call.deliver env ∈
        (receive plain (agentos (order (some behindPrefix))) ringhubFrame).1 ∧
      env.header.toAddr = some a ∧ a.node = some "root") ∧
    ¬ Gated (agentos (order (some behindPrefix))) {"root"}
      (receive plain (agentos (order (some behindPrefix))) ringhubFrame).1 := by
  have hdecode : decodeEnvelope plain (encodeEnvelope plain (order (some behindPrefix))) =
      .ok (order (some behindPrefix)) :=
    decode_of_image rfl
  have hcalls : (receive plain (agentos (order (some behindPrefix))) ringhubFrame).1 =
      [.authorize ⟨[⟨"ringhub", none⟩, ⟨"bob", none⟩]⟩ behindPrefix,
        .deliver ⟨⟨⟨[⟨"ringhub", none⟩, ⟨"bob", none⟩]⟩,
          some ⟨[⟨"root", none⟩, ⟨"kernel", none⟩]⟩, "t1", .empty⟩, ⟨"Order", .nil⟩⟩] := by
    rw [receive_of_open (agentos_opens hdecode)]
    rfl
  rw [hcalls]
  refine ⟨agentos_rejects _, by simp [agentos], ⟨_, _, List.mem_cons_of_mem _ List.mem_cons_self,
    rfl, rfl⟩, ?_⟩
  intro h
  exact (h [_] _ [] rfl).2 _ rfl "root" rfl rfl

end RustPipeline.FederationGate
