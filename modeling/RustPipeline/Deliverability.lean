import RustPipeline.Ingress
import RustPipeline.RouteKeys
import RustPipeline.RoundTrip

set_option autoImplicit false

/-!
# What becomes of an envelope that the pipeline writes

Which listener receives it, by its texts and by the `register` calls.
-/
namespace RustPipeline.Deliverability
open Text Xml Wire Codec CodecImage Handling Routing Registry Thread Federation Validation Pipeline
open Ingress RoundTrip RouteKeys

variable {F : Type}

/-! ## The registry by its `register` calls -/

/-- By the last call for its name the sender is an agent, and it does not list the other. -/
def Barred (ls : List (Registration F)) (sender listener : String) : Prop :=
  ∃ l, (ls.filter fun l => l.name = sender).getLast? = some l ∧ l.isAgent = true ∧
    listener ∉ l.peers

/-- The first listener that was registered under the key of the destination and the tag. -/
def firstUnder (lower : String → String) (ls : List (Registration F)) (toId : Option String)
    (tag : String) : Option (Registration F) :=
  ls.find? fun l => routeKey lower l.name l.payloadTag = RoutingTable.lookupKey lower toId tag

/-- The last schema that was registered for the tag. -/
def schemaFor (ls : List (Registration F)) (tag : String) : Option PayloadSchema :=
  ((ls.filterMap Registration.schema).filter fun s => s.rootTag = tag).getLast?

/-- A record with these fields has what the tag's schema asks for, and nothing a strict one
    excludes. -/
def Fits (ls : List (Registration F)) (tag : String) (names : List String) : Prop :=
  ∀ s, schemaFor ls tag = some s →
    (s.strict = true → ∀ n ∈ names, Declares s n) ∧ ∀ n, Requires s n → n ∈ names

theorem refuses_iff (lower : String → String) (ls : List (Registration F))
    (sender listener : String) :
    (ListenerRegistry.build lower ls).routing.Refuses sender listener ↔
      Barred ls sender listener := by
  have hfilter : (ls.map fun l => (⟨l.name, l.payloadTag, l.isAgent, l.peers⟩ : Declared)).filter
      (fun d => d.name = sender) = (ls.filter fun l => l.name = sender).map
        fun l => ⟨l.name, l.payloadTag, l.isAgent, l.peers⟩ := by
    rw [List.filter_map]
    rfl
  unfold RoutingTable.Refuses Barred
  rw [build_routing, byName_table, hfilter, List.getLast?_map]
  cases (ls.filter fun l => l.name = sender).getLast? with
  | none => simp
  | some l => simp [Declared.entry]

theorem resolve_iff {lower : String → String} (ls : List (Registration F)) (toId : Option String)
    (tag : String) (Q : String → Prop) :
    (∃ target, (ListenerRegistry.build lower ls).routing.resolve lower toId tag = .ok target ∧
        Q target.name) ↔
      ∃ l, firstUnder lower ls toId tag = some l ∧ Q l.name := by
  unfold RoutingTable.resolve firstUnder
  rw [build_routing, routes_table, List.filter_map, List.map_map, ← List.head?_filter]
  have hkey : (fun l : Registration F => decide (routeKey lower l.name l.payloadTag =
      RoutingTable.lookupKey lower toId tag)) = (fun d : Declared => decide (d.key lower =
        RoutingTable.lookupKey lower toId tag)) ∘
          fun l => (⟨l.name, l.payloadTag, l.isAgent, l.peers⟩ : Declared) := rfl
  rw [hkey]
  cases ls.filter _ with
  | nil => simp
  | cons l rest => simp [Declared.entry]

theorem schemas_build {lower : String → String} (ls : List (Registration F)) (tag : String) :
    (ListenerRegistry.build lower ls).schemas.schemas tag = schemaFor ls tag := by
  unfold schemaFor
  induction ls using List.reverseRecOn with
  | nil => rfl
  | append_singleton ls l ih =>
    rw [ListenerRegistry.build_concat, List.filterMap_append, List.filter_append]
    cases hl : l.schema with
    | none =>
      simp only [ListenerRegistry.register, hl, List.filterMap_cons, List.filterMap_nil,
        List.filter_nil, List.append_nil]
      exact ih
    | some s =>
      simp only [ListenerRegistry.register, hl, SchemaRegistry.register, List.filterMap_cons,
        List.filterMap_nil, List.filter_singleton]
      by_cases hs : s.rootTag = tag
      · subst hs
        simp
      · rw [Function.update_of_ne (Ne.symm hs)]
        simp only [hs, decide_false, cond_false, List.append_nil]
        exact ih

/-! ## The texts of an envelope -/

/-- The destination that a text spells; a blank text is none. -/
def Spells (text : String) : Option Address → Prop
  | none => trimText text = ""
  | some a => trimText text ≠ "" ∧ Address.parse (trim (trimText text)) = .ok a

theorem headerAddress_iff (text : String) (dest : Option Address) :
    headerAddress text = .ok dest ↔ Spells text dest := by
  unfold headerAddress headerText
  by_cases hb : trimText text = ""
  · cases dest <;> simp [Spells, hb]
  · cases hp : Address.parse (trim (trimText text)) with
    | error e => cases dest <;> simp [Spells, hb, parseAddress, hp, Except.map]
    | ok a => cases dest <;> simp [Spells, hb, parseAddress, hp, Except.map]

theorem presentNames_imageValue (v : PayloadValue F) :
    presentNames (imageValue v) = (presentNames v).map escape := by
  cases v with
  | record fields =>
    change (imageFields fields).map Prod.fst = (fields.map Prod.fst).map escape
    induction fields with
    | nil => rfl
    | cons field fields ih =>
      obtain ⟨name, value⟩ := field
      rw [imageFields, List.map_cons, ih]
      rfl
  | seq items => rfl
  | text s => rfl
  | uint n => rfl
  | sint n => rfl
  | real x => rfl
  | boolean b => rfl
  | blob bytes => rfl
  | nil => rfl

theorem valid_iff {lower : String → String} (ls : List (Registration F)) (tag : String)
    (v : PayloadValue F) :
    validatePayloadValue (imageValue v) ((ListenerRegistry.build lower ls).schemas.inForce tag) =
      .ok () ↔ Fits ls tag ((presentNames v).map escape) := by
  rw [validatePayloadValue_ok_iff, presentNames_imageValue, SchemaRegistry.inForce, schemas_build]
  unfold Fits
  cases schemaFor ls tag with
  | none => simp [permissiveSchema, Requires]
  | some s => simp

/-- No blank thread id stands for the chain. -/
def Unblank (threads : ThreadRegistry) (chain : String) : Prop :=
  ∀ id, threads.chainToUuid chain = some id → trimText id ≠ ""

/-- A generated thread id is not blank, so only one in use can be. -/
theorem getOrCreate_unblank {fresh : String} (hf : trimText fresh ≠ "") (threads : ThreadRegistry)
    (chain : String) : trimText (threads.getOrCreate chain fresh).1 ≠ "" ↔
      Unblank threads chain := by
  unfold ThreadRegistry.getOrCreate Unblank
  cases threads.chainToUuid chain with
  | none => simp [hf]
  | some id => simp

/-! ## Delivery -/

/-- The sender's text spells an address and the target's a destination; the fields fit the schema of
    the tag as it arrives. -/
structure Carried (ls : List (Registration F)) (sender : String) (target : Address) (tag : String)
    (names : List String) (fromAddr : Address) (dest : Option Address) : Prop where
  sender : Spells sender (some fromAddr)
  target : Spells target.display dest
  fields : Fits ls (escape tag) (names.map escape)

/-- It stays on the node, and the first listener under its key is this one, which the sender may
    reach. -/
def Reaches (lower : String → String) (ls : List (Registration F))
    (federation : Option PeerDirectory) (sender : String) (target : Address) (tag : String)
    (names : List String) (listener : String) : Prop :=
  ∃ fromAddr dest, Carried ls sender target tag names fromAddr dest ∧
    isRemote federation dest = false ∧
    (∃ l, firstUnder lower ls (dest.bind Address.organism) (escape tag) = some l ∧
      l.name = listener) ∧
    ¬ Barred ls fromAddr.organismName listener

/-- It leaves the node. -/
def Leaves (ls : List (Registration F)) (federation : Option PeerDirectory) (sender : String)
    (target : Address) (tag : String) (names : List String) : Prop :=
  ∃ fromAddr dest, Carried ls sender target tag names fromAddr dest ∧
    isRemote federation dest = true

variable {P : Platform F}

/-- What reads back and is valid. -/
theorem carried_iff (lawful : Lawful P) (ls : List (Registration F)) (sender : String)
    (target : Address) (thread : String) (p : Provenance) (payload : Payload F) (env : Envelope F) :
    decodeEnvelope P (encodeEnvelope P ⟨⟨.flat sender, some target, thread, p⟩, payload⟩) =
          .ok env ∧
        validatePayloadValue env.payload.value
          ((ListenerRegistry.build P.lowercase ls).schemas.inForce env.payload.tag) = .ok () ↔
      Carried ls sender target payload.tag (presentNames payload.value) env.header.fromAddr
          env.header.toAddr ∧
        headerText thread = some env.header.thread ∧ p = env.header.provenance ∧
        env.payload = ⟨escape payload.tag, imageValue payload.value⟩ := by
  obtain ⟨⟨fromAddr, dest, id, q⟩, ⟨tag, value⟩⟩ := env
  rw [decode_encode lawful, wireImage_eq_ok]
  dsimp only
  rw [AddressText.display_flat, headerAddress_iff, headerTarget, headerAddress_iff]
  constructor
  · rintro ⟨⟨hfrom, hto, hid, hq, rfl, rfl⟩, hv⟩
    exact ⟨⟨hfrom, hto, (valid_iff ls _ _).mp hv⟩, hid, hq, rfl⟩
  · rintro ⟨⟨hfrom, hto, hfits⟩, hid, hq, hp⟩
    obtain ⟨rfl, rfl⟩ := Payload.mk.inj hp
    exact ⟨⟨hfrom, hto, hid, hq, rfl, rfl⟩, (valid_iff ls _ _).mpr hfits⟩

theorem headerText_isSome {s : String} : (∃ t, headerText s = some t) ↔ trimText s ≠ "" := by
  unfold headerText
  split_ifs with hb
  · simp [hb]
  · simp [hb]

/-- The listener that receives a written envelope. -/
theorem forwarded_iff (lawful : Lawful P) (ls : List (Registration F))
    (federation : Option PeerDirectory) (threads : ThreadRegistry) (sender : String)
    (target : Address) (thread : String) (p : Provenance) (payload : Payload F)
    (listener : String) :
    (∃ routed, (ingress P (.build P.lowercase ls) federation threads (encodeEnvelope P
        ⟨⟨.flat sender, some target, thread, p⟩, payload⟩)).2 = .routed (.forwarded routed) ∧
          routed.targetName = listener) ↔
      trimText thread ≠ "" ∧ Reaches P.lowercase ls federation sender target payload.tag
        (presentNames payload.value) listener := by
  constructor
  · rintro ⟨routed, hf, rfl⟩
    obtain ⟨env, entry, hres, hn, rfl⟩ := (ingress_forwarded_iff P _ _ _ _ _).mp hf
    obtain ⟨hcarried, hid, _, hp⟩ :=
      (carried_iff lawful ls sender target thread p payload env).mp ⟨hres.decoded, hres.valid⟩
    have hroute := hres.route
    rw [hp] at hroute
    exact ⟨headerText_isSome.mp ⟨_, hid⟩, _, _, hcarried, hres.near,
      (resolve_iff ls _ _ (· = entry.name)).mp ⟨entry, hroute, rfl⟩,
      fun hb => hn ((refuses_iff P.lowercase ls _ _).mpr hb)⟩
  · rintro ⟨hthread, fromAddr, dest, hcarried, hnear, hfirst, hb⟩
    obtain ⟨id, hid⟩ := headerText_isSome.mpr hthread
    obtain ⟨hd, hv⟩ := (carried_iff lawful ls sender target thread p payload
      ⟨⟨fromAddr, dest, id, p⟩, ⟨escape payload.tag, imageValue payload.value⟩⟩).mpr
        ⟨hcarried, hid, rfl, rfl⟩
    obtain ⟨entry, hroute, rfl⟩ := (resolve_iff ls _ _ (· = listener)).mpr hfirst
    refine ⟨_, (ingress_forwarded_iff P _ _ _ _ _).mpr
      ⟨_, entry, ⟨hd, hv, hnear, hroute⟩, ?_, rfl⟩, rfl⟩
    exact fun hr => hb ((refuses_iff P.lowercase ls _ _).mp hr)

theorem egress_iff (lawful : Lawful P) (ls : List (Registration F))
    (federation : Option PeerDirectory) (threads : ThreadRegistry) (sender : String)
    (target : Address) (thread : String) (p : Provenance) (payload : Payload F) :
    (∃ env, (ingress P (.build P.lowercase ls) federation threads (encodeEnvelope P
        ⟨⟨.flat sender, some target, thread, p⟩, payload⟩)).2 = .routed (.egress env)) ↔
      trimText thread ≠ "" ∧ Leaves ls federation sender target payload.tag
        (presentNames payload.value) := by
  constructor
  · rintro ⟨env, he⟩
    obtain ⟨hd, hv, hremote⟩ := (ingress_egress_iff P _ _ _ _ _).mp he
    obtain ⟨hcarried, hid, _, _⟩ :=
      (carried_iff lawful ls sender target thread p payload env).mp ⟨hd, hv⟩
    exact ⟨headerText_isSome.mp ⟨_, hid⟩, _, _, hcarried, hremote⟩
  · rintro ⟨hthread, fromAddr, dest, hcarried, hremote⟩
    obtain ⟨id, hid⟩ := headerText_isSome.mpr hthread
    obtain ⟨hd, hv⟩ := (carried_iff lawful ls sender target thread p payload
      ⟨⟨fromAddr, dest, id, p⟩, ⟨escape payload.tag, imageValue payload.value⟩⟩).mpr
        ⟨hcarried, hid, rfl, rfl⟩
    exact ⟨_, (ingress_egress_iff P _ _ _ _ _).mpr ⟨hd, hv, hremote⟩⟩

/-! ## Plain names -/

theorem spells_solid_iff {n : String} (h : Solid n) (dest : Option Address) :
    Spells n dest ↔ dest = some (.flat n) := by
  rw [← headerAddress_iff, h.headerAddress, Except.ok.injEq, eq_comm]

theorem map_escape_of_unescaped {names : List String} (h : ∀ n ∈ names, Unescaped n) :
    names.map escape = names := by
  induction names with
  | nil => rfl
  | cons n names ih =>
    rw [List.map_cons, (escape_eq_self_iff n).mpr (h n List.mem_cons_self),
      ih fun m hm => h m (List.mem_cons_of_mem n hm)]

theorem carried_plain_iff (ls : List (Registration F)) {sender name tag : String}
    {names : List String} (hs : Solid sender) (hn : Solid name) (htag : Unescaped tag)
    (hnames : ∀ n ∈ names, Unescaped n) (fromAddr : Address) (dest : Option Address) :
    Carried ls sender (.flat name) tag names fromAddr dest ↔
      fromAddr = .flat sender ∧ dest = some (.flat name) ∧ Fits ls tag names := by
  have htagText : escape tag = tag := (escape_eq_self_iff tag).mpr htag
  have hnamesText := map_escape_of_unescaped hnames
  constructor
  · intro h
    obtain ⟨hfrom, hto, hfits⟩ := h
    rw [spells_solid_iff hs, Option.some_inj] at hfrom
    rw [AddressText.display_flat, spells_solid_iff hn] at hto
    rw [htagText, hnamesText] at hfits
    exact ⟨hfrom, hto, hfits⟩
  · intro h
    obtain ⟨rfl, rfl, hfits⟩ := h
    constructor
    · exact (spells_solid_iff hs _).mpr rfl
    · rw [AddressText.display_flat]
      exact (spells_solid_iff hn _).mpr rfl
    · rw [htagText, hnamesText]
      exact hfits

/-- Between plain names, with nothing to escape: who receives it, and whether a peer does. -/
theorem reaches_plain_iff (lower : String → String) (ls : List (Registration F))
    (federation : Option PeerDirectory) {sender name tag : String} {names : List String}
    (hs : Solid sender) (hn : Solid name) (htag : Unescaped tag)
    (hnames : ∀ n ∈ names, Unescaped n) (listener : String) :
    Reaches lower ls federation sender (.flat name) tag names listener ↔
      Fits ls tag names ∧ isRemote federation (some (.flat name)) = false ∧
        (∃ l, firstUnder lower ls (some name) tag = some l ∧ l.name = listener) ∧
        ¬ Barred ls sender listener := by
  have htagText : escape tag = tag := (escape_eq_self_iff tag).mpr htag
  constructor
  · intro h
    obtain ⟨fromAddr, dest, hc, hnear, hfirst, hb⟩ := h
    obtain ⟨rfl, rfl, hfits⟩ := (carried_plain_iff ls hs hn htag hnames _ _).mp hc
    rw [htagText] at hfirst
    exact ⟨hfits, hnear, hfirst, hb⟩
  · intro h
    obtain ⟨hfits, hnear, hfirst, hb⟩ := h
    rw [← htagText] at hfirst
    exact ⟨_, _, (carried_plain_iff ls hs hn htag hnames _ _).mpr ⟨rfl, rfl, hfits⟩, hnear, hfirst,
      hb⟩

theorem leaves_plain_iff (ls : List (Registration F)) (federation : Option PeerDirectory)
    {sender name tag : String} {names : List String} (hs : Solid sender) (hn : Solid name)
    (htag : Unescaped tag) (hnames : ∀ n ∈ names, Unescaped n) :
    Leaves ls federation sender (.flat name) tag names ↔
      Fits ls tag names ∧ isRemote federation (some (.flat name)) = true := by
  constructor
  · intro h
    obtain ⟨fromAddr, dest, hc, hremote⟩ := h
    obtain ⟨rfl, rfl, hfits⟩ := (carried_plain_iff ls hs hn htag hnames _ _).mp hc
    exact ⟨hfits, hremote⟩
  · intro h
    obtain ⟨hfits, hremote⟩ := h
    exact ⟨_, _, (carried_plain_iff ls hs hn htag hnames _ _).mpr ⟨rfl, rfl, hfits⟩, hremote⟩

end RustPipeline.Deliverability
