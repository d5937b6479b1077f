import RustPipeline.FederatedReply
import RustPipeline.Sealing

set_option autoImplicit false

/-!
# The name of a federated sender

The peer's namespace leads the sender of an inbound message. Behind the switchboard the sender is
known by its organism, which a keyed segment of the claimed address takes over.
-/
namespace RustPipeline.PeerOrigin
open Text Wire Address Codec CodecImage Handling Routing Registry Thread Federation Pipeline
open Ingress CodecTotality RoundTrip PlainPlatform

variable {F : Type} {P : Platform F}

/-! ## The re-rooted address is read back -/

/-- The segments of a claimed sender that stay behind the peer's namespace. -/
def agentSegments (a : Address) : List Segment :=
  if 2 ≤ a.segments.length then a.segments.drop 1 else a.segments

theorem rerootOrigin_segments (a : Address) (peer : String) :
    rerootOrigin a peer = ⟨⟨peer, none⟩ :: agentSegments a⟩ := rfl

theorem scan_nil_ne (whole : String) (out : List Segment) : scan whole [] 0 [] [] ≠ .ok out := by
  intro h
  simp [scan, parseSegment, Except.map] at h

/-- What stays behind the namespace is read from the end of the claimed text. -/
theorem scan_agentSegments {t : String} {a : Address} (h : parse t = .ok a) :
    ∃ rest, rest <:+ t.toList ∧ scan t rest 0 [] [] = .ok (agentSegments a) := by
  unfold parse at h
  split_ifs at h
  obtain ⟨segments, hscan, rfl⟩ := map_eq_ok h
  unfold agentSegments
  dsimp only
  split_ifs with hlen
  · cases segments with
    | nil => simp at hlen
    | cons s tail =>
      refine AddressText.scan_tail hscan ?_
      intro htail
      change tail = [] at htail
      simp [htail] at hlen
  · exact ⟨t.toList, List.suffix_rfl, hscan⟩

theorem headerAddress_rerootOrigin {peer t : String} {a : Address} (hp : Solid peer)
    (ht : trim t = t) (h : parse t = .ok a) :
    headerAddress (rerootOrigin a peer).display = .ok (some (rerootOrigin a peer)) := by
  obtain ⟨rest, hrest, hscan⟩ := scan_agentSegments h
  have hparse : parse (String.ofList (peer.toList ++ '.' :: rest)) = .ok (rerootOrigin a peer) :=
    AddressText.parse_plain_dot hp.plain hscan
  refine (headerAddress_eq_self_iff ⟨_, hparse⟩).mpr ?_
  rw [AddressText.display_of_parse hparse, trim_eq_self_iff, String.toList_ofList,
    trimBy_eq_self_iff]
  have hpeer := (trimBy_eq_self_iff _ _).mp ((trim_eq_self_iff peer).mp hp.trimmed)
  have htext := (trimBy_eq_self_iff _ _).mp ((trim_eq_self_iff t).mp ht)
  have hne : rest ≠ [] := by
    intro he
    rw [he] at hscan
    exact scan_nil_ne _ _ hscan
  constructor
  · intro c hc
    have hnonempty : peer.toList ≠ [] := by
      intro he
      exact hp.plain.1 (String.toList_inj.mp he)
    rw [List.head?_append_of_ne_nil _ hnonempty] at hc
    exact hpeer.1 c hc
  · intro c hc
    obtain ⟨pre, hpre⟩ := hrest
    have hlast : (peer.toList ++ '.' :: rest).getLast? = t.toList.getLast? := by
      rw [← hpre, List.getLast?_append_of_ne_nil _ hne, List.getLast?_append_of_ne_nil _ (by simp)]
      exact List.getLast?_cons_of_ne_nil hne
    rw [hlast] at hc
    exact htext.2 c hc

/-! ## The organism of the re-rooted address -/

/-- The name that the claimed sender gives its first segment with a key. -/
def claimedOrganism (a : Address) : Option String :=
  ((agentSegments a).find? fun s => s.key.isSome).map Segment.name

theorem organismName_rerootOrigin (a : Address) (peer : String) :
    (rerootOrigin a peer).organismName = (claimedOrganism a).getD peer := by
  have hcons : (Segment.mk peer none :: agentSegments a).findIdx? (fun s => s.key.isSome) =
      ((agentSegments a).findIdx? fun s => s.key.isSome).map (· + 1) := by
    rw [List.findIdx?_cons]
    rfl
  rw [rerootOrigin_segments]
  unfold Address.organismName Address.organism Address.organismIndex claimedOrganism
  rw [hcons, List.find?_eq_bind_findIdx?_getElem?]
  cases hi : (agentSegments a).findIdx? fun s => s.key.isSome with
  | none => rfl
  | some i =>
    obtain ⟨hlt, _⟩ := List.findIdx?_eq_some_iff_getElem.mp hi
    change ((agentSegments a)[i]?.map Segment.name).getD "" =
      ((agentSegments a)[i]?.map Segment.name).getD peer
    rw [List.getElem?_eq_getElem hlt]
    rfl

/-! ## Crossings -/

/-- An opened envelope's sender is what a trimmed text spells. -/
theorem openFrame_sender {aead : Aead} {frame : Bytes} {directory : PeerDirectory}
    {env : Envelope F} {sender : String}
    (h : openFrame P aead frame directory = .ok (env, sender)) :
    ∃ t, parse t = .ok env.header.fromAddr ∧ trim t = t := by
  obtain ⟨_, _, _, _, _, _, _, _, _, _, henv⟩ := Sealing.openFrame_ok h
  exact decodeEnvelope_sender P henv

/-- A frame of an authenticated peer, delivered through a switchboard and routed to a listener. -/
structure Crossing (P : Platform F) (registry : ListenerRegistry F)
    (federation : Option PeerDirectory) where
  server : FederationServer F
  frame : Bytes
  sent : Envelope F
  peer : String
  opened : openFrame P server.aead frame server.directory = .ok (sent, peer)
  env : Envelope F
  delivered : .deliver env ∈ (receive P server frame).1
  resolve : Switchboard.Materializer
  raw : Bytes
  injected : Switchboard.route P resolve env = .ok raw
  threads : ThreadRegistry
  routed : RoutedMsg F
  routes : (ingress P registry federation threads raw).2 = .routed (.forwarded routed)

variable {registry : ListenerRegistry F} {federation : Option PeerDirectory}

def Registered (registry : ListenerRegistry F) (n : String) : Prop := (registry.getHandler n).isSome

/-- No registered listener's name stands for the sender: in the peer check, as the initiator of a
    chain that the routing records, and in what the middleware is given. -/
structure Crossing.Apart (x : Crossing P registry federation) : Prop where
  checked : ¬ Registered registry x.routed.envelope.header.fromAddr.organismName
  recorded : x.threads.lookup x.routed.envelope.header.thread = none →
    ∀ chain, (ingress P registry federation x.threads x.raw).1.lookup
      x.routed.envelope.header.thread = some chain →
    ∃ initiator, chain = x.threads.rootedChain initiator x.routed.targetName ∧
      ¬ Registered registry initiator
  observed : ¬ Registered registry (dispatchMeta x.routed).fromName

/-- The routed message has the re-rooted sender, as it was claimed. -/
theorem Crossing.fromAddr (lawful : Lawful P) (x : Crossing P registry federation)
    (hp : Solid x.peer) : x.routed.envelope.header.fromAddr =
      rerootOrigin x.sent.header.fromAddr x.peer := by
  obtain ⟨sent, peer, hopen, hfrom, _⟩ := deliver_mem_receive x.delivered
  obtain ⟨rfl, rfl⟩ := Prod.mk.inj (Except.ok.inj (hopen.symm.trans x.opened))
  obtain ⟨hdecode, _⟩ := ingress_forwarded P x.routes
  have hraw := x.injected
  unfold Switchboard.route at hraw
  split at hraw
  · cases hraw
  · split at hraw
    · cases hraw
    · rw [← Except.ok.inj hraw, decode_encode lawful, wireImage_eq_ok] at hdecode
      have hread := hdecode.1
      change headerAddress x.env.header.fromAddr.display = _ at hread
      obtain ⟨t, hparse, ht⟩ := openFrame_sender hopen
      rw [hfrom, headerAddress_rerootOrigin hp ht hparse] at hread
      exact (Option.some_inj.mp (Except.ok.inj hread)).symm

/-- A federated sender is kept apart from the registered listeners exactly when the first keyed
    segment that the peer claims behind its namespace, if there is one, has none of their names. -/
theorem apart_iff (lawful : Lawful P) (x : Crossing P registry federation) (hp : Solid x.peer)
    (hr : ¬ Registered registry x.peer) :
    x.Apart ↔ ∀ n, claimedOrganism x.sent.header.fromAddr = some n → ¬ Registered registry n := by
  have hname : x.routed.envelope.header.fromAddr.organismName =
      (claimedOrganism x.sent.header.fromAddr).getD x.peer := by
    rw [x.fromAddr lawful hp, organismName_rerootOrigin]
  constructor
  · intro h n hn
    have hc := h.checked
    rw [hname, hn] at hc
    exact hc
  · intro h
    have hc : ¬ Registered registry x.routed.envelope.header.fromAddr.organismName := by
      rw [hname]
      cases hn : claimedOrganism x.sent.header.fromAddr with
      | none => exact hr
      | some n => exact h n hn
    refine ⟨hc, ?_, hc⟩
    intro hnone chain hchain
    rw [(ingress_forwarded P x.routes).2] at hchain
    rcases (Conversations.registerThread_lookup_iff _ _ _ _ _).mp hchain with h | ⟨_, _, h⟩
    · rw [hnone] at h
      cases h
    · exact ⟨_, h.symm, hc⟩

/-! ## A claimed sender without and with a key -/

def visitCrossing (x : FederatedReply.Visit plain FederatedReply.hotel FederatedReply.hubs) :
    Crossing plain FederatedReply.hotel.registry (some FederatedReply.hubs) where
  server := x.server
  frame := x.frame
  sent := x.sent
  peer := x.peer
  opened := x.opened
  env := x.env
  delivered := x.delivered
  resolve := x.resolve
  raw := x.raw
  injected := x.injected
  threads := x.threads
  routed := x.routed
  routes := x.routes

theorem solid_ringhub : Solid "ringhub" := ⟨by decide, by decide⟩

theorem hotel_ringhub : ¬ Registered FederatedReply.hotel.registry "ringhub" := by
  intro h
  cases h

/-- A room of the peer, under a name that no local listener has. -/
def guest : Address := ⟨[⟨"ringhub", none⟩, ⟨"guest", some "7"⟩]⟩

theorem decode_order_guest : decodeEnvelope plain (encodeEnvelope plain
    (FederatedReply.order guest "t0")) = .ok (FederatedReply.order guest "t0") :=
  decode_of_image rfl

theorem decode_arrived_guest : decodeEnvelope plain (encodeEnvelope plain
    (FederatedReply.order (rerootOrigin guest "ringhub") "t1")) =
      .ok (FederatedReply.order (rerootOrigin guest "ringhub") "t1") :=
  decode_of_image rfl

def guestVisit : FederatedReply.Visit plain FederatedReply.hotel FederatedReply.hubs :=
  FederatedReply.orderVisit guest decode_order_guest decode_arrived_guest

theorem hotel_guest : ¬ Registered FederatedReply.hotel.registry "guest" := by
  intro h
  cases h

/-- The peer claims the sender `bob`, or `ringhub.guest[7]`, and neither is taken for a listener. -/
theorem apart_guest : (visitCrossing FederatedReply.flatVisit).Apart ∧
    (dispatchMeta (visitCrossing guestVisit).routed).fromName = "guest" ∧
    (visitCrossing guestVisit).Apart := by
  have hflat : (visitCrossing FederatedReply.flatVisit).Apart := by
    refine (apart_iff plain_lawful (visitCrossing FederatedReply.flatVisit) solid_ringhub
      hotel_ringhub).mpr ?_
    intro n hn
    cases hn
  have hguest : (visitCrossing guestVisit).Apart := by
    refine (apart_iff plain_lawful (visitCrossing guestVisit) solid_ringhub hotel_ringhub).mpr ?_
    intro n hn
    obtain rfl : "guest" = n := Option.some_inj.mp hn
    exact hotel_guest
  exact ⟨hflat, rfl, hguest⟩

/-- The peer `ringhub` claims the sender `ringhub.bob[alice]`, and the local listener `bob` is taken
    for it. -/
theorem not_apart_keyed :
    Solid (visitCrossing FederatedReply.keyedVisit).peer ∧
      ¬ Registered FederatedReply.hotel.registry (visitCrossing FederatedReply.keyedVisit).peer ∧
      (dispatchMeta (visitCrossing FederatedReply.keyedVisit).routed).fromName = "bob" ∧
      Registered FederatedReply.hotel.registry "bob" ∧
      ¬ (visitCrossing FederatedReply.keyedVisit).Apart :=
  ⟨solid_ringhub, hotel_ringhub, rfl, rfl, fun h => h.observed rfl⟩

end RustPipeline.PeerOrigin
