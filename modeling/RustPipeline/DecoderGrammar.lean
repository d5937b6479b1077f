import RustPipeline.Grammar
import RustPipeline.PlainPlatform

set_option autoImplicit false

/-!
# What the decoder accepts

Every loop of the decoder, run on the events of a tidy tree, ends at the end tag of its element and
has seen there what the grammar asks for.
-/
namespace RustPipeline.DecoderGrammar
open Text Xml Wire Numerals Codec CodecImage EventTree HexDigits Grammar PlainPlatform

variable {F : Type} {P : Platform F}

/-! ## Hexadecimal texts -/

/-- Two cuts of a text at one offset are the same. -/
theorem cut_unique {a b c d : List Char} (h : a ++ b = c ++ d)
    (hl : String.utf8Len a = String.utf8Len c) : a = c ∧ b = d := by
  have h1 := splitAtByte_append a b
  rw [h, hl, splitAtByte_append] at h1
  exact Prod.mk.inj (Option.some.inj h1.symm)

theorem size_eq_utf8Len (s : String) : s.utf8ByteSize = String.utf8Len s.toList := by
  rw [← String.utf8ByteSize_ofList, String.ofList_toList]

theorem digits_of_hexPairs {s : String} {a n : ℕ} {bytes : Bytes}
    (h : hexPairs s ((List.range' a n).map (2 * ·)) = .ok bytes) {before after : List Char}
    (hs : s.toList = before ++ after) (hb : String.utf8Len before = 2 * a)
    (ha : String.utf8Len after = 2 * n) (hplus : '+' ∉ after) : ∀ c ∈ after, IsDigit 16 c := by
  induction n generalizing a bytes before after with
  | zero =>
    rw [String.utf8Len_eq_zero.mp ha]
    exact fun c hc => by cases hc
  | succ n ih =>
    rw [List.range'_succ, List.map_cons, hexPairs] at h
    cases hp : slice (2 * a) (2 * a + 2) s with
    | none => simp [hp] at h
    | some pair =>
      cases hr : fromStrRadix 16 8 pair with
      | none => simp [hp, hr] at h
      | some m =>
        simp only [hp, hr] at h
        obtain ⟨rest, hrest, _⟩ := map_eq_ok h
        obtain ⟨x, y, hxy, hx, hpair⟩ := slice_eq_some hp
        obtain ⟨rfl, rfl⟩ := cut_unique (hs.symm.trans hxy) (hb.trans hx.symm)
        rw [String.utf8Len_append, hpair] at ha
        rw [List.mem_append, not_or] at hplus
        have hcut : s.toList = (before ++ pair.toList) ++ y := by rw [hs, List.append_assoc]
        have hlen : String.utf8Len (before ++ pair.toList) = 2 * (a + 1) := by
          rw [String.utf8Len_append, hb, hpair]
          omega
        have htail := ih hrest hcut hlen (by omega) hplus.2
        intro c hc
        rcases List.mem_append.mp hc with hc | hc
        · exact digits_of_fromStrRadix hr hplus.1 c hc
        · exact htail c hc

theorem hexText_of_fromHex {s : String} {bytes : Bytes} (h : fromHex s = .ok bytes)
    (hplus : '+' ∉ (trim s).toList) : (trim s).toList.length % 2 = 0 ∧ HexText (trim s) := by
  unfold fromHex at h
  dsimp only at h
  split_ifs at h with hodd
  rw [not_not, size_eq_utf8Len] at hodd
  rw [pairOffsets, List.range_eq_range', size_eq_utf8Len] at h
  have hnil : (trim s).toList = [] ++ (trim s).toList := (List.nil_append _).symm
  have hdigits := digits_of_hexPairs h hnil rfl (by omega) hplus
  rw [utf8Len_of_digits hdigits] at hodd
  exact ⟨hodd, hdigits⟩

/-- The two halves of a provenance that is read. -/
theorem halves_of_provFromHex {s : String} {p : Provenance} (h : provFromHex s = .ok p) :
    (trim s).utf8ByteSize = 32 ∧ ∃ hi lo m n, slice 0 16 (trim s) = some hi ∧
      fromStrRadix 16 64 hi = some m ∧ slice 16 32 (trim s) = some lo ∧
      fromStrRadix 16 64 lo = some n := by
  unfold provFromHex at h
  dsimp only at h
  split_ifs at h with hsize
  rw [not_not] at hsize
  refine ⟨hsize, ?_⟩
  split at h
  · cases h
  · next hi hhi =>
    split at h
    · cases h
    · next m hm =>
      split at h
      · cases h
      · next lo hlo =>
        split at h
        · cases h
        · next n hn => exact ⟨hi, lo, m, n, hhi, hm, hlo, hn⟩

theorem hexText_of_provFromHex {s : String} {p : Provenance} (h : provFromHex s = .ok p)
    (hplus : '+' ∉ (trim s).toList) : (trim s).toList.length = 32 ∧ HexText (trim s) := by
  obtain ⟨hsize, hi, lo, m, n, hhi, hm, hlo, hn⟩ := halves_of_provFromHex h
  obtain ⟨a, b, hab, ha, hlenhi⟩ := slice_eq_some hhi
  obtain ⟨c, d, hcd, hc, hlenlo⟩ := slice_eq_some hlo
  rw [String.utf8Len_eq_zero.mp ha, List.nil_append] at hab
  obtain ⟨rfl, rfl⟩ := cut_unique (hab.symm.trans hcd) (by rw [hlenhi, hc])
  rw [size_eq_utf8Len, hab, String.utf8Len_append, String.utf8Len_append, hlenhi, hlenlo] at hsize
  have hd : d = [] := String.utf8Len_eq_zero.mp (by omega)
  rw [hd, List.append_nil] at hab
  rw [hab, List.mem_append, not_or] at hplus
  have hdigits : HexText (trim s) := by
    intro c hc
    rw [hab] at hc
    rcases List.mem_append.mp hc with hc | hc
    · exact digits_of_fromStrRadix hm hplus.1 c hc
    · exact digits_of_fromStrRadix hn hplus.2 c hc
  refine ⟨?_, hdigits⟩
  rw [← utf8Len_of_digits hdigits, hab, String.utf8Len_append, hlenhi, hlenlo]

/-! ## Values -/

/-- Where texts are not looked at, only the end tag itself may follow. -/
theorem expectEnd_ahead {nodes : List Node} (hn : ∀ s, Node.text s ∉ nodes) {name m : Bytes}
    {rest r : Reader} (h : expectEnd name (ahead nodes (.ok (.stop m) :: rest)) = .ok r) :
    nodes = [] ∧ r = rest := by
  cases nodes with
  | nil =>
    rw [ahead_nil, expectEnd] at h
    split_ifs at h
    exact ⟨rfl, (Except.ok.inj h).symm⟩
  | cons node nodes =>
    cases node with
    | text s => exact absurd List.mem_cons_self (hn s)
    | element name attrs children =>
      rw [ahead_element] at h
      cases h
    | hollow name attrs =>
      rw [ahead_hollow] at h
      cases h
    | other kind =>
      rw [ahead_other] at h
      cases h

theorem readScalar_ahead {nodes : List Node} (hn : ∀ node ∈ solid nodes, ∃ s, node = .text s)
    {acc s : String} {rest r : Reader}
    (h : readScalar acc (ahead nodes (.ok (.stop (utf8 "v")) :: rest)) = .ok (s, r)) :
    s = acc ++ textOf nodes ∧ r = rest ∧
      ∀ node ∈ solid nodes, ∃ t : String, node = .text (.ok t) := by
  induction nodes generalizing acc with
  | nil =>
    rw [ahead_nil, readScalar, if_pos rfl, Except.ok.injEq, Prod.mk.injEq] at h
    refine ⟨?_, h.2.symm, fun node hm => by cases hm⟩
    rw [← h.1, textOf, String.append_empty]
  | cons node nodes ih =>
    by_cases ha : node.Aside
    · rw [solid_cons_of_aside ha] at hn ⊢
      obtain ⟨kind, rfl⟩ := ha.eq_other
      rw [ahead_other, readScalar.eq_def] at h
      exact ih hn h
    · rw [solid_cons_of_not ha, List.forall_mem_cons] at hn
      rw [solid_cons_of_not ha, List.forall_mem_cons]
      obtain ⟨⟨t, rfl⟩, hn⟩ := hn
      cases t with
      | error e =>
        rw [ahead_text] at h
        cases h
      | ok t =>
        rw [ahead_text, readScalar] at h
        obtain ⟨hs, hr, ht⟩ := ih hn h
        refine ⟨?_, hr, ⟨t, rfl⟩, ht⟩
        rw [hs, textOf, String.append_assoc]

theorem spelled_of_scalarValue {kind : String} {children : List Node}
    (ho : OrderlyContent kind children) {v : PayloadValue F}
    (h : scalarValue P kind (textOf children) = .ok v) : Spelled P kind (textOf children) := by
  refine ⟨?_, ?_, ?_, ho.boolean, ?_, ho.nil⟩
  · intro hk
    subst hk
    rw [scalarValue, if_neg (by decide), if_pos rfl] at h
    split at h
    · next n hn => exact ⟨n, hn⟩
    · cases h
  · intro hk
    subst hk
    rw [scalarValue, if_neg (by decide), if_neg (by decide), if_pos rfl] at h
    split at h
    · next z hz => exact ⟨z, hz⟩
    · cases h
  · intro hk
    subst hk
    rw [scalarValue, if_neg (by decide), if_neg (by decide), if_neg (by decide), if_pos rfl] at h
    split at h
    · next x hx => exact ⟨x, hx⟩
    · cases h
  · intro hk
    have hplus := ho.blob hk
    subst hk
    rw [scalarValue, if_neg (by decide), if_neg (by decide), if_neg (by decide),
      if_neg (by decide), if_neg (by decide), if_pos rfl] at h
    obtain ⟨bytes, hb, _⟩ := map_eq_ok h
    exact hexText_of_fromHex hb hplus

variable (P) in
/-- What one unit of fuel more has to bring for each of the four value readers. -/
structure Sound (n : ℕ) : Prop where
  expect {nodes : List Node} (ht : ∀ node ∈ nodes, Tidy node) (hn : ∀ s, Node.text s ∉ nodes)
    {m : Bytes} {rest r : Reader} {v : PayloadValue F}
    (h : expectValue P n (ahead nodes (.ok (.stop m) :: rest)) = .ok (v, r)) :
    ∃ value after, nodes = value :: after ∧ IsValue P value ∧
      r = ahead after (.ok (.stop m) :: rest)
  parse {attrs : List (Bytes × String)} {children : List Node}
    (ht : Tidy (.element (utf8 "v") attrs children)) {rest r : Reader} {v : PayloadValue F}
    (h : parseValue P n (attrText attrs "k") (ahead children (.ok (.stop (utf8 "v")) :: rest)) =
      .ok (v, r)) : IsValue P (.element (utf8 "v") attrs children) ∧ r = rest
  fields {nodes : List Node} (ht : ∀ node ∈ nodes, Tidy node)
    (hn : ∀ node ∈ solid nodes, node.name = some (utf8 "f")) {acc out : List (PayloadField F)}
    {rest r : Reader}
    (h : recFields P n acc (ahead nodes (.ok (.stop (utf8 "v")) :: rest)) = .ok (out, r)) :
    (∀ field ∈ solid nodes, ∃ value, field.inner = [value] ∧ IsValue P value) ∧ r = rest
  items {nodes : List Node} (ht : ∀ node ∈ nodes, Tidy node)
    (hn : ∀ node ∈ solid nodes, node.name = some (utf8 "v") ∨
      ∃ attrs, node = .hollow (utf8 "v") attrs) {acc out : List (PayloadValue F)}
    {rest r : Reader}
    (h : seqItems P n acc (ahead nodes (.ok (.stop (utf8 "v")) :: rest)) = .ok (out, r)) :
    (∀ item ∈ solid nodes, IsValue P item) ∧ r = rest

theorem expect_sound {n : ℕ} (ih : Sound P n) {nodes : List Node}
    (ht : ∀ node ∈ nodes, Tidy node) (hn : ∀ s, Node.text s ∉ nodes) {m : Bytes}
    {rest r : Reader} {v : PayloadValue F}
    (h : expectValue P (n + 1) (ahead nodes (.ok (.stop m) :: rest)) = .ok (v, r)) :
    ∃ value after, nodes = value :: after ∧ IsValue P value ∧
      r = ahead after (.ok (.stop m) :: rest) := by
  cases nodes with
  | nil => cases h
  | cons node nodes =>
    have htidy := ht node List.mem_cons_self
    cases node with
    | element name attrs children =>
      rw [ahead_element, expectValue] at h
      split_ifs at h with hname
      subst hname
      obtain ⟨hv, hr⟩ := ih.parse htidy h
      exact ⟨_, nodes, rfl, hv, hr⟩
    | hollow name attrs =>
      rw [ahead_hollow, expectValue] at h
      split_ifs at h with hname
      subst hname
      rw [Except.ok.injEq, Prod.mk.injEq] at h
      exact ⟨_, nodes, rfl, .hollow htidy.orderly, h.2.symm⟩
    | text s => exact absurd List.mem_cons_self (hn s)
    | other kind => cases h

theorem parse_sound {n : ℕ} (ih : Sound P n) {attrs : List (Bytes × String)}
    {children : List Node} (ht : Tidy (.element (utf8 "v") attrs children)) {rest r : Reader}
    {v : PayloadValue F}
    (h : parseValue P (n + 1) (attrText attrs "k")
      (ahead children (.ok (.stop (utf8 "v")) :: rest)) = .ok (v, r)) :
    IsValue P (.element (utf8 "v") attrs children) ∧ r = rest := by
  have ho := ht.orderly.value rfl
  have hchildren : ∀ child ∈ children, Tidy child := fun child hc => ht.child hc
  rw [parseValue] at h
  split_ifs at h with hrec hseq hkind
  · obtain ⟨⟨fields, left⟩, hf, hv⟩ := map_eq_ok h
    obtain ⟨hfields, hr⟩ := ih.fields hchildren (ho.record hrec) hf
    obtain ⟨_, rfl⟩ := Prod.mk.inj hv
    refine ⟨.record hrec (fun field hm => ⟨ho.record hrec field hm, ?_⟩) ?_, hr⟩
    · obtain ⟨value, hi, _⟩ := hfields field hm
      rw [hi, List.length_singleton]
    · intro field hm value hmem
      obtain ⟨value', hi, hvalue⟩ := hfields field hm
      rw [hi, List.mem_singleton] at hmem
      rwa [hmem]
  · obtain ⟨⟨items, left⟩, hi, hv⟩ := map_eq_ok h
    obtain ⟨hitems, hr⟩ := ih.items hchildren (ho.seq hseq) hi
    obtain ⟨_, rfl⟩ := Prod.mk.inj hv
    exact ⟨.seq hseq hitems, hr⟩
  · cases hs : readScalar "" (ahead children (.ok (.stop (utf8 "v")) :: rest)) with
    | error e => simp [hs] at h
    | ok p =>
      obtain ⟨s, left⟩ := p
      obtain ⟨htext, hr, hok⟩ := readScalar_ahead (ho.scalar hkind) hs
      simp only [hs] at h
      obtain ⟨value, hvalue, hv⟩ := map_eq_ok h
      obtain ⟨_, rfl⟩ := Prod.mk.inj hv
      rw [htext, String.empty_append] at hvalue
      exact ⟨.scalar hkind hok (spelled_of_scalarValue ho hvalue), hr⟩

theorem fields_sound {n : ℕ} (ih : Sound P n) {nodes : List Node}
    (ht : ∀ node ∈ nodes, Tidy node) (hn : ∀ node ∈ solid nodes, node.name = some (utf8 "f"))
    {acc out : List (PayloadField F)} {rest r : Reader}
    (h : recFields P (n + 1) acc (ahead nodes (.ok (.stop (utf8 "v")) :: rest)) = .ok (out, r)) :
    (∀ field ∈ solid nodes, ∃ value, field.inner = [value] ∧ IsValue P value) ∧ r = rest := by
  cases nodes with
  | nil =>
    rw [ahead_nil, recFields, if_pos rfl, Except.ok.injEq, Prod.mk.injEq] at h
    exact ⟨fun field hf => (by cases hf), h.2.symm⟩
  | cons node nodes =>
    rw [List.forall_mem_cons] at ht
    by_cases ha : node.Aside
    · rw [solid_cons_of_aside ha] at hn ⊢
      obtain ⟨kind, rfl⟩ := ha.eq_other
      exact ih.fields ht.2 hn h
    · rw [solid_cons_of_not ha, List.forall_mem_cons] at hn
      obtain ⟨attrs, children, rfl⟩ := element_of_name hn.1
      rw [ahead_element, recFields, if_pos rfl] at h
      have hsingle := ht.1.orderly.single (.inr rfl)
      split at h
      · next value left hv =>
        obtain ⟨node, after, rfl, hvalue, rfl⟩ :=
          ih.expect (fun child hc => ht.1.child hc) hsingle hv
        split at h
        · next left he =>
          obtain ⟨rfl, rfl⟩ :=
            expectEnd_ahead (fun s hs => hsingle s (List.mem_cons_of_mem _ hs)) he
          obtain ⟨hfields, hr⟩ := ih.fields ht.2 hn.2 h
          rw [solid_cons_of_not ha, List.forall_mem_cons]
          exact ⟨⟨⟨node, solid_cons_of_not hvalue.not_aside [], hvalue⟩, hfields⟩, hr⟩
        · cases h
      · cases h

theorem items_sound {n : ℕ} (ih : Sound P n) {nodes : List Node}
    (ht : ∀ node ∈ nodes, Tidy node)
    (hn : ∀ node ∈ solid nodes, node.name = some (utf8 "v") ∨
      ∃ attrs, node = .hollow (utf8 "v") attrs) {acc out : List (PayloadValue F)}
    {rest r : Reader}
    (h : seqItems P (n + 1) acc (ahead nodes (.ok (.stop (utf8 "v")) :: rest)) = .ok (out, r)) :
    (∀ item ∈ solid nodes, IsValue P item) ∧ r = rest := by
  cases nodes with
  | nil =>
    rw [ahead_nil, seqItems, if_pos rfl, Except.ok.injEq, Prod.mk.injEq] at h
    exact ⟨fun item hi => (by cases hi), h.2.symm⟩
  | cons node nodes =>
    rw [List.forall_mem_cons] at ht
    by_cases ha : node.Aside
    · rw [solid_cons_of_aside ha] at hn ⊢
      obtain ⟨kind, rfl⟩ := ha.eq_other
      exact ih.items ht.2 hn h
    · rw [solid_cons_of_not ha, List.forall_mem_cons] at hn
      rw [solid_cons_of_not ha, List.forall_mem_cons]
      rcases hn with ⟨hname | ⟨attrs, rfl⟩, hn⟩
      · obtain ⟨attrs, children, rfl⟩ := element_of_name hname
        rw [ahead_element, seqItems, if_pos rfl] at h
        split at h
        · next value left hv =>
          obtain ⟨hvalue, rfl⟩ := ih.parse ht.1 hv
          obtain ⟨hitems, hr⟩ := ih.items ht.2 hn h
          exact ⟨⟨hvalue, hitems⟩, hr⟩
        · cases h
      · rw [ahead_hollow, seqItems, if_pos rfl] at h
        obtain ⟨hitems, hr⟩ := ih.items ht.2 hn h
        exact ⟨⟨.hollow ht.1.orderly, hitems⟩, hr⟩

theorem sound (n : ℕ) : Sound P n := by
  induction n with
  | zero =>
    constructor
    · intro nodes ht hn m rest r v h
      cases h
    · intro attrs children ht rest r v h
      cases h
    · intro nodes ht hn acc out rest r h
      cases h
    · intro nodes ht hn acc out rest r h
      cases h
  | succ n ih => exact ⟨expect_sound ih, parse_sound ih, fields_sound ih, items_sound ih⟩

/-! ## The header -/

/-- Sender and thread come from the fields of these names. -/
structure Fills (m out : MetaDraft) (names : List (Option Bytes)) : Prop where
  sender : out.fromAddr.isSome = true → m.fromAddr.isSome = true ∨ some (utf8 "from") ∈ names
  thread : out.thread.isSome = true → m.thread.isSome = true ∨ some (utf8 "thread") ∈ names

theorem Fills.refl (m : MetaDraft) (names : List (Option Bytes)) : Fills m m names :=
  ⟨.inl, .inl⟩

theorem Fills.append {m mid out : MetaDraft} {a b : List (Option Bytes)} (ha : Fills m mid a)
    (hb : Fills mid out b) : Fills m out (a ++ b) := by
  constructor
  · intro ho
    rcases hb.sender ho with hm | hm
    · rcases ha.sender hm with hm | hm
      · exact .inl hm
      · exact .inr (List.mem_append_left b hm)
    · exact .inr (List.mem_append_right a hm)
  · intro ho
    rcases hb.thread ho with hm | hm
    · rcases ha.thread hm with hm | hm
      · exact .inl hm
      · exact .inr (List.mem_append_left b hm)
    · exact .inr (List.mem_append_right a hm)

theorem parse_of_parseAddress {s : String} {a : Address} (h : parseAddress s = .ok a) :
    Address.parse s = .ok a := by
  unfold parseAddress at h
  split at h
  · next b hb => rw [hb, Except.ok.inj h]
  · cases h

theorem setField_sound {m out : MetaDraft} {name s : String}
    (h : setField m (utf8 name) (trim s) = .ok out)
    (hp : name = "provenance" → '+' ∉ (trim s).toList) :
    HeaderText name (trim s) ∧ Fills m out [some (utf8 name)] := by
  simp only [setField, utf8_inj] at h
  split_ifs at h with hfrom hto hthread hprov
  · subst hfrom
    obtain ⟨a, ha, rfl⟩ := map_eq_ok h
    refine ⟨⟨fun _ => ⟨a, parse_of_parseAddress ha⟩, fun hn => absurd hn (by decide)⟩, ?_, .inl⟩
    exact fun _ => .inr (List.mem_singleton.mpr rfl)
  · subst hto
    obtain ⟨a, ha, rfl⟩ := map_eq_ok h
    refine ⟨⟨fun _ => ⟨a, parse_of_parseAddress ha⟩, fun hn => absurd hn (by decide)⟩, ?_⟩
    exact ⟨.inl, .inl⟩
  · subst hthread
    obtain rfl := Except.ok.inj h
    refine ⟨⟨fun hn => absurd hn (not_or.mpr ⟨hfrom, hto⟩), fun hn => absurd hn (by decide)⟩,
      .inl, ?_⟩
    exact fun _ => .inr (List.mem_singleton.mpr rfl)
  · subst hprov
    obtain ⟨p, hpr, rfl⟩ := map_eq_ok h
    have ht := hexText_of_provFromHex hpr (by rw [trim_idem]; exact hp rfl)
    rw [trim_idem] at ht
    exact ⟨⟨fun hn => absurd hn (not_or.mpr ⟨hfrom, hto⟩), fun _ => ht⟩, .inl, .inl⟩
  · obtain rfl := Except.ok.inj h
    refine ⟨⟨fun hn => absurd hn (not_or.mpr ⟨hfrom, hto⟩), fun hn => absurd hn hprov⟩, ?_⟩
    exact ⟨.inl, .inl⟩

theorem readMeta_asides {nodes : List Node} (hn : ∀ node ∈ nodes, node.Aside)
    (field : Option Bytes) (m : MetaDraft) (rest : Reader) :
    readMeta field m (ahead nodes rest) = readMeta field m rest := by
  induction nodes with
  | nil => rfl
  | cons node nodes ih =>
    rw [List.forall_mem_cons] at hn
    obtain ⟨kind, rfl⟩ := hn.1.eq_other
    rw [ahead_other, ← ih hn.2]
    cases field <;> rfl

/-- An element of the header with one text in it stores that text. -/
theorem readMeta_field {name : Bytes} (hname : name ≠ utf8 "meta") {attrs : List (Bytes × String)}
    {children nodes : List Node} {s : Except XmlError String} (hs : solid children = [.text s])
    {m out : MetaDraft} {rest r : Reader}
    (h : readMeta none m (ahead (.element name attrs children :: nodes) rest) = .ok (out, r)) :
    ∃ t mid, s = .ok t ∧ setField m name (trim t) = .ok mid ∧
      readMeta none mid (ahead nodes rest) = .ok (out, r) := by
  obtain ⟨before, after, rfl, hb, ha⟩ := solid_eq_singleton hs
  rw [ahead_element, readMeta, ahead_append, readMeta_asides hb, ahead_text] at h
  cases s with
  | error e => cases h
  | ok t =>
    rw [readMeta] at h
    split at h
    · next mid hmid =>
      rw [readMeta_asides ha, readMeta, if_neg hname] at h
      exact ⟨t, mid, rfl, hmid, h⟩
    · cases h

theorem readMeta_sound {nodes : List Node} (ht : ∀ node ∈ nodes, Tidy node)
    (hn : ∀ node ∈ solid nodes, ∃ f ∈ headerNames, node.name = some (utf8 f))
    {m out : MetaDraft} {rest r : Reader}
    (h : readMeta none m (ahead nodes (.ok (.stop (utf8 "meta")) :: rest)) = .ok (out, r)) :
    r = rest ∧ (∀ field ∈ solid nodes, IsHeaderField field) ∧
      Fills m out ((solid nodes).map Node.name) := by
  induction nodes generalizing m with
  | nil =>
    rw [ahead_nil, readMeta, if_pos rfl, Except.ok.injEq, Prod.mk.injEq] at h
    obtain ⟨rfl, rfl⟩ := h
    exact ⟨rfl, fun field hf => (by cases hf), .refl _ _⟩
  | cons node nodes ih =>
    rw [List.forall_mem_cons] at ht
    by_cases ha : node.Aside
    · rw [solid_cons_of_aside ha] at hn ⊢
      obtain ⟨kind, rfl⟩ := ha.eq_other
      exact ih ht.2 hn h
    · rw [solid_cons_of_not ha, List.forall_mem_cons] at hn
      obtain ⟨⟨f, hf, hname⟩, hn⟩ := hn
      obtain ⟨attrs, children, rfl⟩ := element_of_name hname
      have ho := ht.1.orderly
      obtain ⟨s, hs⟩ := ho.field f hf rfl
      have hmeta : utf8 f ≠ utf8 "meta" := by
        intro he
        rw [utf8_inj.mp he] at hf
        exact absurd hf (by decide)
      obtain ⟨t, mid, rfl, hset, h⟩ := readMeta_field hmeta hs h
      have htext : textOf children = t := by
        rw [← textOf_solid, hs, textOf, textOf, String.append_empty]
      obtain ⟨hheader, hfill⟩ := setField_sound hset fun he => by
        rw [← htext]
        exact ho.provenance (congrArg utf8 he)
      obtain ⟨hr, hfields, hrest⟩ := ih ht.2 hn h
      rw [solid_cons_of_not ha, List.forall_mem_cons, List.map_cons]
      exact ⟨hr, ⟨⟨f, hf, t, rfl, hs, hheader⟩, hfields⟩, hfill.append hrest⟩

/-! ## The document -/

theorem decodeLoop_asides {nodes : List Node} (hn : ∀ node ∈ nodes, node.Aside) {n : ℕ}
    {d out : Draft F} {rest : Reader} (h : decodeLoop P n d (ahead nodes rest) = .ok out) :
    ∃ k, decodeLoop P k d rest = .ok out := by
  induction nodes generalizing n with
  | nil => exact ⟨n, h⟩
  | cons node nodes ih =>
    rw [List.forall_mem_cons] at hn
    obtain ⟨kind, rfl⟩ := hn.1.eq_other
    cases n with
    | zero => cases h
    | succ n => exact ih hn.2 h

theorem decodeLoop_meta {attrs : List (Bytes × String)} {children nodes : List Node}
    (ht : Tidy (.element (utf8 "meta") attrs children)) {n : ℕ} {d out : Draft F} {rest : Reader}
    (h : decodeLoop P (n + 1) d (ahead (.element (utf8 "meta") attrs children :: nodes) rest) =
      .ok out) :
    (∀ field ∈ solid children, IsHeaderField field) ∧
      ∃ header, Fills d.header header ((solid children).map Node.name) ∧
        decodeLoop P n { d with header := header } (ahead nodes rest) = .ok out := by
  have hne : utf8 "meta" ≠ utf8 "message" := utf8_ne (by decide)
  rw [ahead_element, decodeLoop, if_neg hne, if_pos rfl] at h
  split at h
  · next header left hm =>
    obtain ⟨rfl, hfields, hfill⟩ := readMeta_sound (fun child hc => ht.child hc)
      (ht.orderly.header rfl).2 hm
    exact ⟨hfields, header, hfill, h⟩
  · cases h

theorem decodeLoop_payload {attrs : List (Bytes × String)} {children nodes : List Node}
    (ht : Tidy (.element (utf8 "payload") attrs children)) {n : ℕ} {d out : Draft F}
    {rest : Reader}
    (h : decodeLoop P (n + 1) d (ahead (.element (utf8 "payload") attrs children :: nodes) rest) =
      .ok out) :
    IsPayload P (.element (utf8 "payload") attrs children) ∧
      ∃ payload, decodeLoop P n { d with payload := some payload } (ahead nodes rest) =
        .ok out := by
  have h1 : utf8 "payload" ≠ utf8 "message" := utf8_ne (by decide)
  have h2 : utf8 "payload" ≠ utf8 "meta" := utf8_ne (by decide)
  have hsingle := ht.orderly.single (.inl rfl)
  rw [ahead_element, decodeLoop, if_neg h1, if_neg h2, if_pos rfl] at h
  split at h
  · next value left hv =>
    obtain ⟨node, after, rfl, hvalue, rfl⟩ :=
      (sound _).expect (fun child hc => ht.child hc) hsingle hv
    split at h
    · next left he =>
      obtain ⟨rfl, rfl⟩ :=
        expectEnd_ahead (fun s hs => hsingle s (List.mem_cons_of_mem _ hs)) he
      exact ⟨⟨rfl, node, solid_cons_of_not hvalue.not_aside [], hvalue⟩, _, h⟩
    · cases h
  · cases h

def headerNodes (nodes : List Node) : List (Option Bytes) :=
  nodes.flatMap fun node => if node.name = some (utf8 "meta") then childNames node else []

variable (P) in
/-- What is in the children of the message, when the loop has passed them. -/
structure Gathers (d out : Draft F) (nodes : List Node) : Prop where
  fields : ∀ node ∈ nodes, node.name = some (utf8 "meta") →
    ∀ field ∈ node.inner, IsHeaderField field
  payload : ∀ node ∈ nodes, node.name = some (utf8 "payload") → IsPayload P node
  read : out.payload.isSome = true → d.payload.isSome = true ∨
    some (utf8 "payload") ∈ nodes.map Node.name
  fills : Fills d.header out.header (headerNodes nodes)

theorem decodeLoop_children {nodes : List Node} (ht : ∀ node ∈ nodes, Tidy node)
    (hn : ∀ node ∈ solid nodes, node.name = some (utf8 "meta") ∨
      node.name = some (utf8 "payload")) {n : ℕ} {d out : Draft F} {rest : Reader}
    (h : decodeLoop P n d (ahead nodes (.ok (.stop (utf8 "message")) :: rest)) = .ok out) :
    Gathers P d out (solid nodes) := by
  induction nodes generalizing n d with
  | nil =>
    cases n with
    | zero => cases h
    | succ n =>
      rw [ahead_nil, decodeLoop, if_pos rfl] at h
      obtain rfl := Except.ok.inj h
      exact ⟨fun node hm => (by cases hm), fun node hm => (by cases hm), .inl, .refl _ _⟩
  | cons node nodes ih =>
    rw [List.forall_mem_cons] at ht
    by_cases ha : node.Aside
    · rw [solid_cons_of_aside ha] at hn ⊢
      obtain ⟨kind, rfl⟩ := ha.eq_other
      cases n with
      | zero => cases h
      | succ n => exact ih ht.2 hn h
    · rw [solid_cons_of_not ha, List.forall_mem_cons] at hn
      rw [solid_cons_of_not ha]
      obtain ⟨hname, hn⟩ := hn
      cases n with
      | zero => cases h
      | succ n =>
        have hne : utf8 "meta" ≠ utf8 "payload" := utf8_ne (by decide)
        rcases hname with hname | hname
        · obtain ⟨attrs, children, rfl⟩ := element_of_name hname
          obtain ⟨hfields, header, hfill, h⟩ := decodeLoop_meta ht.1 h
          have hrest := ih ht.2 hn h
          refine ⟨?_, ?_, ?_, ?_⟩
          · rw [List.forall_mem_cons]
            exact ⟨fun _ => hfields, hrest.fields⟩
          · rw [List.forall_mem_cons]
            exact ⟨fun he => absurd (Option.some.inj he) hne, hrest.payload⟩
          · intro ho
            exact (hrest.read ho).imp id (List.mem_cons_of_mem _)
          · rw [headerNodes, List.flatMap_cons, if_pos hname]
            exact hfill.append hrest.fills
        · obtain ⟨attrs, children, rfl⟩ := element_of_name hname
          obtain ⟨hpayload, payload, h⟩ := decodeLoop_payload ht.1 h
          have hrest := ih ht.2 hn h
          refine ⟨?_, ?_, ?_, ?_⟩
          · rw [List.forall_mem_cons]
            exact ⟨fun he => absurd (Option.some.inj he).symm hne, hrest.fields⟩
          · rw [List.forall_mem_cons]
            exact ⟨fun _ => hpayload, hrest.payload⟩
          · intro _
            rw [List.map_cons]
            exact .inr (List.mem_cons.mpr (.inl hname.symm))
          · have hno : (Node.element (utf8 "payload") attrs children).name ≠ some (utf8 "meta") :=
              fun he => hne (Option.some.inj he).symm
            rw [headerNodes, List.flatMap_cons, if_neg hno]
            exact hrest.fills

/-- Comments at the end change nothing. -/
theorem decodeLoop_end {nodes : List Node} (hn : ∀ node ∈ nodes, node.Aside) {n : ℕ}
    {d out : Draft F} (h : decodeLoop P n d (ahead nodes []) = .ok out) : out = d := by
  obtain ⟨k, h⟩ := decodeLoop_asides hn h
  cases k with
  | zero => cases h
  | succ k => exact (Except.ok.inj h).symm

theorem finish_found {d : Draft F} {env : Envelope F} (h : d.finish = .ok env) :
    d.foundMessage = true ∧ d.header.fromAddr.isSome = true ∧ d.header.thread.isSome = true ∧
      d.payload.isSome = true := by
  unfold Draft.finish at h
  split_ifs at h with hf
  refine ⟨hf, ?_⟩
  split at h
  · cases h
  · next a ha =>
    split at h
    · cases h
    · next t ht =>
      split at h
      · cases h
      · next p hp => rw [ha, ht, hp]; exact ⟨rfl, rfl, rfl⟩

/-- A document whose only element is tidy is accepted as a message only. -/
theorem decodeLoop_root {root : Node} (ht : Tidy root) {after : List Node}
    (ha : ∀ node ∈ after, node.Aside) {n : ℕ} {out : Draft F}
    (h : decodeLoop P n .blank (ahead (root :: after) []) = .ok out)
    (hf : out.foundMessage = true) :
    root.name = some (utf8 "message") ∧
      (root.inner.map Node.name).Sublist [some (utf8 "meta"), some (utf8 "payload")] ∧
      Gathers P { Draft.blank with foundMessage := true } out root.inner := by
  cases n with
  | zero => cases h
  | succ n =>
    cases root with
    | element name attrs children =>
      have hname : name = utf8 "message" := by
        by_contra hmessage
        by_cases hmeta : name = utf8 "meta"
        · subst hmeta
          obtain ⟨_, header, _, h⟩ := decodeLoop_meta ht h
          rw [decodeLoop_end ha h] at hf
          cases hf
        · by_cases hpayload : name = utf8 "payload"
          · subst hpayload
            obtain ⟨_, payload, h⟩ := decodeLoop_payload ht h
            rw [decodeLoop_end ha h] at hf
            cases hf
          · rw [ahead_element, decodeLoop, if_neg hmessage, if_neg hmeta, if_neg hpayload] at h
            cases h
      subst hname
      have hsub := ht.orderly.message rfl
      rw [ahead_element, decodeLoop, if_pos rfl] at h
      refine ⟨rfl, hsub, decodeLoop_children (fun child hc => ht.child hc) ?_ h⟩
      intro node hn
      have hm := hsub.subset (List.mem_map_of_mem hn)
      simpa using hm
    | hollow name attrs =>
      rw [decodeLoop_end ha h] at hf
      cases hf
    | text s =>
      rw [decodeLoop_end ha h] at hf
      cases hf
    | other kind =>
      rw [decodeLoop_end ha h] at hf
      cases hf

theorem eq_of_sublist_pair {α : Type} {l : List α} {a b : α} (h : l.Sublist [a, b]) (hne : a ≠ b)
    (ha : a ∈ l) (hb : b ∈ l) : l = [a, b] := by
  have hsub : [a, b] ⊆ l := by
    intro x hx
    simp only [List.mem_cons, List.not_mem_nil, or_false] at hx
    rcases hx with rfl | rfl
    · exact ha
    · exact hb
  have hnodup : [a, b].Nodup := by simpa using hne
  exact h.eq_of_length_le (List.subperm_of_subset hnodup hsub).length_le

theorem isMeta_of_fields {node : Node} (ht : Tidy node) (hname : node.name = some (utf8 "meta"))
    (hf : ∀ field ∈ node.inner, IsHeaderField field)
    (hs : some (utf8 "from") ∈ childNames node) (hth : some (utf8 "thread") ∈ childNames node) :
    IsMeta node := by
  obtain ⟨attrs, children, rfl⟩ := element_of_name hname
  have hnodup : (childNames (.element (utf8 "meta") attrs children)).Nodup :=
    (ht.orderly.header rfl).1
  have hone := List.nodup_iff_count_le_one.mp hnodup
  exact ⟨rfl, hf, List.count_eq_one_of_mem hnodup hs, hone _, List.count_eq_one_of_mem hnodup hth,
    hone _⟩

theorem meta_of_headerNodes {nodes : List Node} {n : Option Bytes} (h : n ∈ headerNodes nodes) :
    some (utf8 "meta") ∈ nodes.map Node.name := by
  obtain ⟨node, hm, hn⟩ := List.mem_flatMap.mp h
  split_ifs at hn with hname
  · exact List.mem_map.mpr ⟨node, hm, hname⟩
  · cases hn

/-- Where nothing is passed over, what is accepted is a sentence of the grammar. -/
theorem inGrammar_of_regular {r : Reader} {env : Envelope F} (h : decodeReader P r = .ok env)
    (hr : Regular r) : InGrammar P r := by
  obtain ⟨nodes, root, rfl, hroot, ht⟩ := hr
  unfold decodeReader at h
  split at h
  · next out hout =>
    obtain ⟨hfound, hsender, hthread, hpayload⟩ := finish_found h
    obtain ⟨before, after, rfl, hb, ha⟩ := solid_eq_singleton hroot
    have hahead : ((events (before ++ root :: after)).map .ok : Reader) =
        ahead before (ahead (root :: after) []) := by
      rw [← ahead_append, ahead, List.append_nil]
    have hout' := hout
    rw [hahead] at hout'
    obtain ⟨k, hout'⟩ := decodeLoop_asides hb hout'
    obtain ⟨hname, hsub, hg⟩ := decodeLoop_root ht ha hout' hfound
    have hfrom := (hg.fills.sender hsender).resolve_left Bool.false_ne_true
    have hthread := (hg.fills.thread hthread).resolve_left Bool.false_ne_true
    have hpayload := (hg.read hpayload).resolve_left Bool.false_ne_true
    have hnames := eq_of_sublist_pair hsub (by simp [utf8_inj]) (meta_of_headerNodes hfrom) hpayload
    obtain ⟨header, rest, hinner, hheader, hrest⟩ := List.map_eq_cons_iff.mp hnames
    obtain ⟨payload, rest, rfl, hpayload, hrest⟩ := List.map_eq_cons_iff.mp hrest
    obtain rfl := List.map_eq_nil_iff.mp hrest
    rw [hinner] at hg hfrom hthread
    have hne : payload.name ≠ some (utf8 "meta") := by
      rw [hpayload]
      simp [utf8_inj]
    have hchild : headerNodes [header, payload] = childNames header := by
      rw [headerNodes, List.flatMap_cons, if_pos hheader, List.flatMap_cons, if_neg hne]
      exact List.append_nil _
    rw [hchild] at hfrom hthread
    have hm : header ∈ root.inner := by
      rw [hinner]
      exact List.mem_cons_self
    refine ⟨_, root, header, payload, rfl, hroot, hname, hinner, ?_, ?_⟩
    · exact isMeta_of_fields (ht.inner hm) hheader (hg.fields header List.mem_cons_self hheader)
        hfrom hthread
    · exact hg.payload payload (List.mem_cons_of_mem _ List.mem_cons_self) hpayload
  · cases h

/-- The decoder keeps to its grammar exactly where its loops had nothing to pass over. -/
theorem accepted_inGrammar_iff {raw : Bytes} {env : Envelope F}
    (h : decodeEnvelope P raw = .ok env) :
    InGrammar P (P.xml.read raw) ↔ Regular (P.xml.read raw) :=
  ⟨InGrammar.regular, inGrammar_of_regular h⟩

/-! ## A sentence, and a document that is none -/

def fieldNode (name text : String) : Node := .element (utf8 name) [] [.text (.ok text)]

def hello : Envelope UInt32 := ⟨⟨.flat "alice", none, "t1", .empty⟩, ⟨"Greeting", .nil⟩⟩

def metaNode (fields : List Node) : Node := .element (utf8 "meta") [] fields

def payloadNode : Node :=
  .element (utf8 "payload") [(utf8 "tag", "Greeting")] [.hollow (utf8 "v") [(utf8 "k", "nil")]]

def helloMessage : Node := .element (utf8 "message") [(utf8 "xmlns", envelopeNs)]
  [metaNode [fieldNode "from" "alice", fieldNode "thread" "t1"], payloadNode]

theorem read_hello : plain.xml.read (encodeEnvelope plain hello) =
    (events [helloMessage]).map .ok := by
  rw [encodeEnvelope, plain_lawful.faithful _ (balanced_envelopeTokens hello)]
  rfl

theorem fieldNode_isHeaderField {name text : String} (hn : name ∈ headerNames)
    (ht : HeaderText name (trim text)) : IsHeaderField (fieldNode name text) :=
  ⟨name, hn, text, rfl, rfl, ht⟩

theorem hello_inGrammar : InGrammar plain (plain.xml.read (encodeEnvelope plain hello)) := by
  have hfrom : IsHeaderField (fieldNode "from" "alice") :=
    fieldNode_isHeaderField (by decide) ⟨fun _ => ⟨.flat "alice", rfl⟩, fun h => absurd h (by decide)⟩
  have hthread : IsHeaderField (fieldNode "thread" "t1") :=
    fieldNode_isHeaderField (by decide)
      ⟨fun h => absurd h (by decide), fun h => absurd h (by decide)⟩
  refine ⟨[helloMessage], helloMessage, _, payloadNode, read_hello, rfl, rfl, rfl, ?_, rfl, _, rfl,
    .hollow (by decide)⟩
  refine ⟨rfl, ?_, by decide, by decide, by decide, by decide⟩
  intro field hf
  change field ∈ [fieldNode "from" "alice", fieldNode "thread" "t1"] at hf
  simp only [List.mem_cons, List.not_mem_nil, or_false] at hf
  rcases hf with rfl | rfl
  · exact hfrom
  · exact hthread

theorem hello_regular : decodeEnvelope plain (encodeEnvelope plain hello) = .ok hello ∧
    Regular (plain.xml.read (encodeEnvelope plain hello)) := by
  have hdecode : decodeEnvelope plain (encodeEnvelope plain hello) = .ok hello :=
    decode_of_image rfl
  exact ⟨hdecode, (accepted_inGrammar_iff hdecode).mp hello_inGrammar⟩

/-- A sender is given twice, and the end tag of the message is missing. -/
def overridden : Bytes := utf8 ("<message><meta><from>alice</from><from>bob</from>" ++
  "<thread>t1</thread></meta><payload tag=\"Greeting\"><v k=\"nil\"/></payload>")

def overriddenEvents : List Event := .start (utf8 "message") [] :: events
  [metaNode [fieldNode "from" "alice", fieldNode "from" "bob", fieldNode "thread" "t1"],
    payloadNode]

set_option maxRecDepth 2000 in
theorem read_overridden : PlainXml.read overridden = overriddenEvents.map .ok := by
  rw [overridden, PlainXml.read, fromUtf8_utf8]
  rfl

theorem overridden_not_inGrammar :
    decodeEnvelope plain overridden = .ok ⟨{ hello.header with fromAddr := .flat "bob" },
      hello.payload⟩ ∧ ¬ InGrammar plain (plain.xml.read overridden) := by
  have hlibrary : plain.xml.read = PlainXml.read := rfl
  have hread : plain.xml.read overridden = overriddenEvents.map .ok := by
    rw [hlibrary, read_overridden]
  constructor
  · rw [decodeEnvelope, hread]
    rfl
  · intro h
    obtain ⟨nodes, _, _, _, hr, _⟩ := h
    rw [hread] at hr
    have hes := map_ok_inj hr
    have hopen : openAfter [] overriddenEvents = some [utf8 "message"] := by
      have := openAfter_events [utf8 "message"] [metaNode [fieldNode "from" "alice",
        fieldNode "from" "bob", fieldNode "thread" "t1"], payloadNode] []
      rwa [List.append_nil] at this
    rw [hes, (closed_iff _).mpr ⟨nodes, rfl⟩] at hopen
    cases hopen

end RustPipeline.DecoderGrammar
