import RustPipeline.AddressText
import RustPipeline.Codec

set_option autoImplicit false

/-!
# What a written envelope reads back as

Over a lawful platform `decodeEnvelope` undoes `encodeEnvelope` up to an explicit image: header
texts are trimmed and parsed again, tag and field names keep their escapes, texts are trimmed.
-/
namespace RustPipeline.CodecImage
open Text Xml Wire Numerals Codec

variable {F : Type} {P : Platform F}

structure Lawful (P : Platform F) : Prop where
  faithful : P.xml.Faithful
  real (x : F) : P.readReal (P.showReal x) = some x
  trimmed (x : F) : trimText (P.showReal x) = P.showReal x

/-! ## The image -/

mutual

def imageValue : PayloadValue F → PayloadValue F
  | .record fields => .record (imageFields fields)
  | .seq items => .seq (imageItems items)
  | .text s => .text (trimText s)
  | .uint n => .uint n
  | .sint n => .sint n
  | .real x => .real x
  | .boolean b => .boolean b
  | .blob bytes => .blob bytes
  | .nil => .nil

def imageFields : List (PayloadField F) → List (PayloadField F)
  | [] => []
  | (name, value) :: fields => (escape name, imageValue value) :: imageFields fields

def imageItems : List (PayloadValue F) → List (PayloadValue F)
  | [] => []
  | v :: items => imageValue v :: imageItems items

end

/-- The text a header field is read with; `none` when the reader drops it as blank. -/
def headerText (s : String) : Option String :=
  if trimText s = "" then none else some (trim (trimText s))

def headerAddress (s : String) : Except Fault (Option Address) :=
  match headerText s with
  | none => .ok none
  | some t => (parseAddress t).map some

def headerTarget : Option Address → Except Fault (Option Address)
  | none => .ok none
  | some a => headerAddress a.display

def wireImage (env : Envelope F) : Except Fault (Envelope F) := do
  let fromAddr ← headerAddress env.header.fromAddr.display
  let toAddr ← headerTarget env.header.toAddr
  match fromAddr, headerText env.header.thread with
  | none, _ => .error (missing "from")
  | some _, none => .error (missing "thread")
  | some a, some thread =>
    .ok ⟨⟨a, toAddr, thread, env.header.provenance⟩,
      ⟨escape env.payload.tag, imageValue env.payload.value⟩⟩

/-! ## Hexadecimal -/

theorem trimText_of_forall {cs : List Char} (h : ∀ c ∈ cs, isWhitespace c = false) :
    trim (String.ofList cs) = String.ofList cs ∧
      trimText (String.ofList cs) = String.ofList cs := by
  have ht : trim (String.ofList cs) = String.ofList cs := by
    rw [trim, String.toList_ofList, trimBy_eq_self_of_forall h]
  exact ⟨ht, trimText_eq_self_of_trim ht⟩

theorem hexFixed_solid (w n : ℕ) : ∀ c ∈ hexFixed w n, isWhitespace c = false := by
  intro c hc
  obtain ⟨d, hd, rfl⟩ := hexFixed_mem hc
  exact (hexDigit_plain d hd).2.1

theorem provToHex_solid (p : Provenance) :
    trim (provToHex p) = provToHex p ∧ trimText (provToHex p) = provToHex p := by
  apply trimText_of_forall
  intro c hc
  rcases List.mem_append.mp hc with h | h
  · exact hexFixed_solid 16 _ c h
  · exact hexFixed_solid 16 _ c h

theorem provFromHex_provToHex (p : Provenance) : provFromHex (provToHex p) = .ok p := by
  have hi : p.bitsHi.toNat < 2 ^ 64 := p.bitsHi.toNat_lt
  have lo : p.bitsLo.toNat < 2 ^ 64 := p.bitsLo.toNat_lt
  have h1 : slice 0 16 (provToHex p) = some (String.ofList (hexFixed 16 p.bitsHi.toNat)) := by
    have h := slice_append (a := []) (b := hexFixed 16 p.bitsLo.toNat) (Eq.refl 0)
      (congrArg (0 + ·) (hexFixed_utf8Len 16 p.bitsHi.toNat))
    rwa [List.nil_append] at h
  have h2 : slice 16 32 (provToHex p) = some (String.ofList (hexFixed 16 p.bitsLo.toNat)) := by
    have h := slice_append (b := []) (hexFixed_utf8Len 16 p.bitsHi.toNat)
      (congrArg (16 + ·) (hexFixed_utf8Len 16 p.bitsLo.toNat))
    rwa [List.append_nil] at h
  have hl : (provToHex p).utf8ByteSize = 32 := by
    rw [provToHex, String.utf8ByteSize_ofList, String.utf8Len_append, hexFixed_utf8Len,
      hexFixed_utf8Len]
  have r1 := fromStrRadix_hexFixed (Nat.succ_pos 15) hi hi
  have r2 := fromStrRadix_hexFixed (Nat.succ_pos 15) lo lo
  simp only [provFromHex, (provToHex_solid p).1, hl, ne_eq, not_true_eq_false, ↓reduceIte, h1, h2,
    r1, r2, UInt64.ofNat_toNat]

theorem hexPairs_toHex (pre bytes : Bytes) :
    hexPairs (toHex (pre ++ bytes)) ((List.range' pre.length bytes.length).map (2 * ·)) =
      .ok bytes := by
  induction bytes generalizing pre with
  | nil => rfl
  | cons b bytes ih =>
    have hpre : String.utf8Len (pre.flatMap fun b => hexFixed 2 b.toNat) = 2 * pre.length := by
      clear ih
      induction pre with
      | nil => rfl
      | cons c pre ih =>
        rw [List.flatMap_cons, String.utf8Len_append, hexFixed_utf8Len, ih, List.length_cons]
        omega
    have hslice : slice (2 * pre.length) (2 * pre.length + 2) (toHex (pre ++ b :: bytes)) =
        some (String.ofList (hexFixed 2 b.toNat)) := by
      rw [toHex, List.flatMap_append, List.flatMap_cons]
      exact slice_append hpre (by rw [hexFixed_utf8Len])
    have hb : b.toNat < 2 ^ 8 := b.toNat_lt
    have hread := fromStrRadix_hexFixed (Nat.succ_pos 1) hb hb
    have htail := ih (pre ++ [b])
    rw [List.append_assoc, List.singleton_append, List.length_append, List.length_singleton] at htail
    rw [List.length_cons, List.range'_succ, List.map_cons, hexPairs, hslice]
    simp only [hread, htail, Except.map, UInt8.ofNat_toNat]

theorem toHex_solid (bytes : Bytes) :
    trim (toHex bytes) = toHex bytes ∧ trimText (toHex bytes) = toHex bytes := by
  apply trimText_of_forall
  intro c hc
  obtain ⟨b, _, h⟩ := List.mem_flatMap.mp hc
  exact hexFixed_solid 2 _ c h

theorem fromHex_toHex (bytes : Bytes) : fromHex (toHex bytes) = .ok bytes := by
  have hl : (toHex bytes).utf8ByteSize = 2 * bytes.length := by
    rw [toHex, String.utf8ByteSize_ofList]
    induction bytes with
    | nil => rfl
    | cons b bytes ih =>
      rw [List.flatMap_cons, String.utf8Len_append, hexFixed_utf8Len, ih, List.length_cons]
      omega
  have h := hexPairs_toHex [] bytes
  rw [List.nil_append, List.length_nil, ← List.range_eq_range'] at h
  simp only [fromHex, (toHex_solid bytes).1, hl, pairOffsets, Nat.mul_mod_right, ne_eq,
    not_true_eq_false, ↓reduceIte, Nat.mul_div_cancel_left _ (Nat.succ_pos 1), h]

/-! ## Values -/

/-- Written values are read back, as a value on its own and as the next item of a sequence. -/
structure ReadsBack (P : Platform F) (v : PayloadValue F) : Prop where
  expect (n : ℕ) (r : Reader) (hn : 2 * (readBack (writeValue P v)).length ≤ n) :
    expectValue P n (readBack (writeValue P v) ++ r) = .ok (imageValue v, r)
  item (n : ℕ) (items : List (PayloadValue F)) (r : Reader)
    (hn : 2 * (readBack (writeValue P v)).length ≤ n + 1) :
    seqItems P (n + 1) items (readBack (writeValue P v) ++ r) =
      seqItems P n (items ++ [imageValue v]) r

theorem utf8_ne {s t : String} (h : s ≠ t) : utf8 s ≠ utf8 t := by
  rwa [ne_eq, utf8_inj]

theorem attrText_single (key value : String) : attrText [(utf8 key, value)] key = value := by
  simp [attrText, getAttr]

theorem readsBack_of_parse {v : PayloadValue F} (kind : String) (body : Reader)
    (hv : readBack (writeValue P v) = .ok (.start (utf8 "v") [(utf8 "k", kind)]) :: body)
    (hp : ∀ n r, 2 * body.length + 1 ≤ n →
      parseValue P n kind (body ++ r) = .ok (imageValue v, r)) : ReadsBack P v where
  expect n r hn := by
    rw [hv, List.length_cons] at hn
    obtain ⟨n, rfl⟩ : ∃ m, n = m + 1 := ⟨n - 1, by omega⟩
    rw [hv, List.cons_append, expectValue, if_pos rfl, attrText_single, hp n r (by omega)]
  item n items r hn := by
    rw [hv, List.length_cons] at hn
    rw [hv, List.cons_append, seqItems, if_pos rfl, attrText_single, hp n r (by omega)]

theorem readsBack_nil : ReadsBack P (.nil : PayloadValue F) where
  expect n r hn := by
    have hl : (readBack (writeValue P (.nil : PayloadValue F))).length = 1 := rfl
    rw [hl] at hn
    obtain ⟨n, rfl⟩ : ∃ m, n = m + 1 := ⟨n - 1, by omega⟩
    change expectValue P (n + 1)
      (.ok (.empty (utf8 "v") [(utf8 "k", escape "nil")]) :: r) = _
    rw [expectValue, if_pos rfl, attrText_single]
    rfl
  item n items r _ := by
    change seqItems P (n + 1) items
      (.ok (.empty (utf8 "v") [(utf8 "k", escape "nil")]) :: r) = _
    rw [seqItems, if_pos rfl, attrText_single]
    rfl

theorem readScalar_readBack (s : String) (r : Reader) :
    readScalar "" (readBackToken (.text s) ++ .ok (.stop (utf8 "v")) :: r) =
      .ok (trimText s, r) := by
  rw [readBackToken]
  by_cases h : trimText s = ""
  · rw [if_pos h, h, List.nil_append, readScalar, if_pos rfl]
  · rw [if_neg h, List.singleton_append, readScalar, readScalar, if_pos rfl, String.empty_append]

theorem readsBack_scalar {v : PayloadValue F} (kind s : String)
    (hk : kind ∈ scalarKinds) (hrec : kind ≠ "rec") (hseq : kind ≠ "seq")
    (he : escape kind = kind) (hw : writeValue P v = scalar kind s)
    (hs : scalarValue P kind (trimText s) = .ok (imageValue v)) : ReadsBack P v := by
  apply readsBack_of_parse kind (readBackToken (.text s) ++ [.ok (.stop (utf8 "v"))])
  · rw [hw]
    simp only [scalar, readBack_cons, readBack_nil, readBackToken, List.map_cons, List.map_nil, he,
      List.singleton_append, List.append_nil]
  · intro n r hn
    obtain ⟨n, rfl⟩ : ∃ m, n = m + 1 := ⟨n - 1, by omega⟩
    rw [List.append_assoc, List.singleton_append, parseValue, if_neg hrec, if_neg hseq, if_pos hk,
      readScalar_readBack]
    simp only [hs, Except.map]

theorem expectEnd_stop (name : Bytes) (r : Reader) :
    expectEnd name (.ok (.stop name) :: r) = .ok r := by
  rw [expectEnd, if_pos rfl]

theorem decimal_solid (cs : List Char) (h : ∀ c ∈ cs, c.isDigit = true ∨ c = '-') :
    trimText (String.ofList cs) = String.ofList cs := by
  refine (trimText_of_forall fun c hc => ?_).2
  rcases h c hc with hd | rfl
  · simp only [Char.isDigit, Bool.and_eq_true, decide_eq_true_eq] at hd
    have h1 : 48 ≤ c.toNat := UInt32.le_iff_toNat_le.mp hd.1
    have h2 : c.toNat ≤ 57 := UInt32.le_iff_toNat_le.mp hd.2
    simp only [isWhitespace, Bool.or_eq_false_iff, Bool.and_eq_false_iff, decide_eq_false_iff_not]
    omega
  · decide

theorem trimText_natText (n : ℕ) : trimText (toString n) = toString n := by
  have h := decimal_solid (toString n).toList fun c hc => Or.inl (decimal_isDigit hc)
  rwa [String.ofList_toList] at h

theorem trimText_intText (z : ℤ) : trimText (toString z) = toString z := by
  cases z with
  | ofNat n => exact trimText_natText n
  | negSucc n =>
    have h := decimal_solid ('-' :: (toString (n + 1)).toList) (by
      intro c hc
      rcases List.mem_cons.mp hc with hd | hd
      · exact Or.inr hd
      · exact Or.inl (decimal_isDigit hd))
    have ht : toString (Int.negSucc n) = String.ofList ('-' :: (toString (n + 1)).toList) := by
      rw [← String.toList_inj, String.toList_ofList]
      exact negSucc_text n
    rw [ht]
    exact h

mutual

theorem readsBack_writeValue (lawful : Lawful P) : ∀ v : PayloadValue F, ReadsBack P v
  | .record fields => by
    apply readsBack_of_parse "rec" (readBack (writeFields P fields) ++ [.ok (.stop (utf8 "v"))])
    · simp only [writeValue, readBack_cons, readBack_append, readBack_nil, readBackToken,
        List.map_cons, List.map_nil, List.append_nil, List.cons_append]
      rfl
    · intro n r hn
      obtain ⟨n, rfl⟩ : ∃ m, n = m + 1 := ⟨n - 1, by omega⟩
      have h := recFields_writeFields lawful fields n [] r (by
        simp only [List.length_append, List.length_singleton] at hn
        omega)
      rw [List.append_assoc, List.singleton_append, parseValue, if_pos rfl, h]
      rfl
  | .seq items => by
    apply readsBack_of_parse "seq" (readBack (writeItems P items) ++ [.ok (.stop (utf8 "v"))])
    · simp only [writeValue, readBack_cons, readBack_append, readBack_nil, readBackToken,
        List.map_cons, List.map_nil, List.append_nil, List.cons_append]
      rfl
    · intro n r hn
      obtain ⟨n, rfl⟩ : ∃ m, n = m + 1 := ⟨n - 1, by omega⟩
      have h := seqItems_writeItems lawful items n [] r (by
        simp only [List.length_append, List.length_singleton] at hn
        omega)
      rw [List.append_assoc, List.singleton_append, parseValue, if_neg (by decide), if_pos rfl, h]
      rfl
  | .text s => readsBack_scalar "text" s (by decide) (by decide) (by decide) rfl
      rfl rfl
  | .uint n => by
    apply readsBack_scalar "uint" _ (by decide) (by decide) (by decide) rfl rfl
    rw [trimText_natText, scalarValue, if_neg (by decide), if_pos rfl,
      fromStrRadix_toString n.toNat_lt]
    simp only [UInt64.ofNat_toNat, imageValue]
  | .sint n => by
    apply readsBack_scalar "sint" _ (by decide) (by decide) (by decide) rfl rfl
    rw [trimText_intText, scalarValue, if_neg (by decide), if_neg (by decide), if_pos rfl,
      parseSigned_toString _ n.le_toInt n.toInt_lt]
    simp only [Int64.ofInt_toInt, imageValue]
  | .real x => by
    apply readsBack_scalar "real" _ (by decide) (by decide) (by decide) rfl rfl
    rw [lawful.trimmed, scalarValue, if_neg (by decide), if_neg (by decide), if_neg (by decide),
      if_pos rfl, lawful.real]
    rfl
  | .boolean b => by
    apply readsBack_scalar "bool" _ (by decide) (by decide) (by decide) rfl rfl
    cases b <;> rfl
  | .blob bytes => by
    apply readsBack_scalar "blob" _ (by decide) (by decide) (by decide) rfl rfl
    rw [(toHex_solid bytes).2, scalarValue, if_neg (by decide), if_neg (by decide),
      if_neg (by decide), if_neg (by decide), if_neg (by decide), if_pos rfl, fromHex_toHex]
    rfl
  | .nil => readsBack_nil

theorem recFields_writeFields (lawful : Lawful P) : ∀ (fields : List (PayloadField F)) (n : ℕ)
    (acc : List (PayloadField F)) (r : Reader), 2 * (readBack (writeFields P fields)).length + 1 ≤ n →
    recFields P n acc (readBack (writeFields P fields) ++ .ok (.stop (utf8 "v")) :: r) =
      .ok (acc ++ imageFields fields, r)
  | [], n, acc, r, hn => by
    obtain ⟨n, rfl⟩ : ∃ m, n = m + 1 := ⟨n - 1, by omega⟩
    simp only [writeFields, readBack_nil, List.nil_append, recFields, ↓reduceIte, imageFields,
      List.append_nil]
  | (name, value) :: fields, n, acc, r, hn => by
    obtain ⟨n, rfl⟩ : ∃ m, n = m + 1 := ⟨n - 1, by omega⟩
    have hw : readBack (writeFields P ((name, value) :: fields)) =
        .ok (.start (utf8 "f") [(utf8 "n", escape name)]) :: (readBack (writeValue P value) ++
          .ok (.stop (utf8 "f")) :: readBack (writeFields P fields)) := by
      simp [writeFields, readBackToken]
    rw [hw] at hn ⊢
    simp only [List.length_cons, List.length_append] at hn
    have hv := (readsBack_writeValue lawful value).expect n
      (.ok (.stop (utf8 "f")) :: (readBack (writeFields P fields) ++ .ok (.stop (utf8 "v")) :: r))
      (by omega)
    have hf := recFields_writeFields lawful fields n (acc ++ [(escape name, imageValue value)]) r (by omega)
    simp only [List.cons_append, List.append_assoc, recFields, ↓reduceIte, hv, expectEnd_stop,
      attrText_single, hf, imageFields, List.nil_append]

theorem seqItems_writeItems (lawful : Lawful P) : ∀ (items : List (PayloadValue F)) (n : ℕ)
    (acc : List (PayloadValue F)) (r : Reader), 2 * (readBack (writeItems P items)).length + 1 ≤ n →
    seqItems P n acc (readBack (writeItems P items) ++ .ok (.stop (utf8 "v")) :: r) =
      .ok (acc ++ imageItems items, r)
  | [], n, acc, r, hn => by
    obtain ⟨n, rfl⟩ : ∃ m, n = m + 1 := ⟨n - 1, by omega⟩
    simp only [writeItems, readBack_nil, List.nil_append, seqItems, ↓reduceIte, imageItems,
      List.append_nil]
  | v :: items, n, acc, r, hn => by
    obtain ⟨n, rfl⟩ : ∃ m, n = m + 1 := ⟨n - 1, by omega⟩
    rw [writeItems, readBack_append] at hn ⊢
    rw [List.length_append] at hn
    rw [List.append_assoc, (readsBack_writeValue lawful v).item n acc _ (by omega)]
    have hpos : 1 ≤ (readBack (writeValue P v)).length := by
      cases v <;> simp [writeValue, scalar, readBackToken]
    rw [seqItems_writeItems lawful items n _ r (by omega), imageItems, List.append_assoc,
      List.singleton_append]

end

/-! ## The header -/

theorem except_bind_assoc {ε α β γ : Type} (x : Except ε α) (f : α → Except ε β)
    (g : β → Except ε γ) : (x.bind f).bind g = x.bind fun a => (f a).bind g := by
  cases x <;> rfl

def storeText (m : MetaDraft) (tag s : String) : Except Fault MetaDraft :=
  match headerText s with
  | none => .ok m
  | some t => setField m (utf8 tag) t

def storeTarget (m : MetaDraft) : Option Address → Except Fault MetaDraft
  | some a => storeText m "to" a.display
  | none => .ok m

def storeProvenance (m : MetaDraft) (p : Provenance) : Except Fault MetaDraft :=
  if p.isEmpty then .ok m else storeText m "provenance" (provToHex p)

theorem readMeta_textEl {tag : String} (ht : tag ≠ "meta") (m : MetaDraft) (s : String)
    (r : Reader) : readMeta none m (readBack (textEl tag s) ++ r) =
      (storeText m tag s).bind fun m => readMeta none m r := by
  have hstop (m : MetaDraft) : readMeta (some (utf8 tag)) m (.ok (.stop (utf8 tag)) :: r) =
      readMeta none m r := by
    rw [readMeta, if_neg (utf8_ne ht)]
  have hshape : readBack (textEl tag s) ++ r =
      .ok (.start (utf8 tag) []) :: (readBackToken (.text s) ++ .ok (.stop (utf8 tag)) :: r) := by
    simp [textEl, readBackToken]
  rw [hshape, readMeta, readBackToken]
  unfold storeText headerText
  by_cases h : trimText s = ""
  · rw [if_pos h, if_pos h, List.nil_append, hstop]
    rfl
  · rw [if_neg h, if_neg h, List.singleton_append, readMeta]
    change _ = (setField m (utf8 tag) (trim (trimText s))).bind _
    cases setField m (utf8 tag) (trim (trimText s)) with
    | error e => rfl
    | ok m => exact hstop m

theorem readMeta_targetTokens (m : MetaDraft) (t : Option Address) (r : Reader) :
    readMeta none m (readBack (targetTokens t) ++ r) =
      (storeTarget m t).bind fun m => readMeta none m r := by
  cases t with
  | none => rfl
  | some a => exact readMeta_textEl (by decide) m a.display r

theorem readMeta_provenanceTokens (m : MetaDraft) (p : Provenance) (r : Reader) :
    readMeta none m (readBack (provenanceTokens p) ++ r) =
      (storeProvenance m p).bind fun m => readMeta none m r := by
  unfold provenanceTokens storeProvenance
  by_cases hp : p.isEmpty = true
  · rw [if_pos hp, if_pos hp]
    rfl
  · rw [if_neg hp, if_neg hp]
    exact readMeta_textEl (by decide) m _ r

def wireMeta (m : Meta) : Except Fault MetaDraft :=
  (storeText .blank "from" m.fromAddr.display).bind fun d =>
  (storeTarget d m.toAddr).bind fun d =>
  (storeText d "thread" m.thread).bind fun d => storeProvenance d m.provenance

theorem readBack_metaTokens (m : Meta) (r : Reader) :
    ∃ body, readBack (metaTokens m) ++ r = .ok (.start (utf8 "meta") []) :: body ∧
      readMeta none .blank body = (wireMeta m).bind fun d => .ok (d, r) := by
  refine ⟨_, by
    simp only [metaTokens, readBack_cons, readBack_append, List.append_assoc]
    exact List.singleton_append, ?_⟩
  rw [readMeta_textEl (by decide), wireMeta, except_bind_assoc]
  apply congrArg
  funext d
  rw [readMeta_targetTokens, except_bind_assoc]
  apply congrArg
  funext d
  rw [readMeta_textEl (by decide), except_bind_assoc]
  apply congrArg
  funext d
  rw [readMeta_provenanceTokens]
  apply congrArg
  funext d
  rw [readBackToken, List.singleton_append, readMeta, if_pos rfl, readBack_nil, List.nil_append]

theorem storeText_from (s : String) : storeText .blank "from" s =
    (headerAddress s).map fun a => ⟨a, none, none, .empty⟩ := by
  unfold storeText headerAddress
  cases headerText s with
  | none => rfl
  | some t =>
    change setField _ _ t = ((parseAddress t).map some).map _
    rw [setField, if_pos rfl]
    cases parseAddress t <;> rfl

theorem storeText_to (m : MetaDraft) (s : String) (hm : m.toAddr = none) : storeText m "to" s =
    (headerAddress s).map fun a => { m with toAddr := a } := by
  unfold storeText headerAddress
  cases headerText s with
  | none =>
    obtain ⟨_, _, _, _⟩ := m
    subst hm
    rfl
  | some t =>
    change setField _ _ t = ((parseAddress t).map some).map _
    rw [setField, if_neg (utf8_ne (by decide)), if_pos rfl]
    cases parseAddress t <;> rfl

theorem storeText_thread (m : MetaDraft) (s : String) (hm : m.thread = none) :
    storeText m "thread" s = .ok { m with thread := headerText s } := by
  unfold storeText
  cases headerText s with
  | none =>
    obtain ⟨_, _, _, _⟩ := m
    subst hm
    rfl
  | some t =>
    change setField _ _ t = _
    rw [setField, if_neg (utf8_ne (by decide)), if_neg (utf8_ne (by decide)), if_pos rfl]

theorem storeProvenance_eq (m : MetaDraft) (p : Provenance) (hm : m.provenance = .empty) :
    storeProvenance m p = .ok { m with provenance := p } := by
  unfold storeProvenance
  by_cases hp : p.isEmpty = true
  · rw [if_pos hp, Provenance.eq_empty_of_isEmpty hp, ← hm]
  · have ht : headerText (provToHex p) = some (provToHex p) := by
      have hne : provToHex p ≠ "" := by
        intro h
        have hl := congrArg (fun s => s.toList.length) h
        simp [provToHex, hexFixed_length] at hl
      rw [headerText, (provToHex_solid p).2, if_neg hne, (provToHex_solid p).1]
    rw [if_neg hp, storeText, ht]
    change setField _ _ _ = _
    rw [setField, if_neg (utf8_ne (by decide)), if_neg (utf8_ne (by decide)),
      if_neg (utf8_ne (by decide)), if_pos rfl, provFromHex_provToHex]
    rfl

theorem wireMeta_eq (m : Meta) : wireMeta m =
    (headerAddress m.fromAddr.display).bind fun a => (headerTarget m.toAddr).bind fun b =>
      .ok ⟨a, b, headerText m.thread, m.provenance⟩ := by
  unfold wireMeta
  rw [storeText_from]
  cases headerAddress m.fromAddr.display with
  | error e => rfl
  | ok a =>
    have htarget : storeTarget ⟨a, none, none, .empty⟩ m.toAddr =
        (headerTarget m.toAddr).map fun b => ⟨a, b, none, .empty⟩ := by
      cases m.toAddr with
      | none => rfl
      | some t => exact storeText_to ⟨a, none, none, .empty⟩ t.display rfl
    simp only [Except.map, Except.bind] at htarget ⊢
    rw [htarget]
    cases headerTarget m.toAddr with
    | error e => rfl
    | ok b =>
      simp only [storeText_thread ⟨a, b, none, .empty⟩ m.thread rfl]
      rw [storeProvenance_eq ⟨a, b, headerText m.thread, .empty⟩ m.provenance rfl]

/-! ## The envelope -/

/-- Every tag and attribute name the encoder writes. -/
def wireNames : List String :=
  ["message", "xmlns", "meta", "from", "to", "thread", "provenance", "payload", "tag", "v", "k",
    "f", "n"]

theorem isName {n : String} (h : n ∈ wireNames) : IsName n := by
  have hall : wireNames.all (fun n => decide (IsName n)) = true := by decide
  exact of_decide_eq_true (List.all_eq_true.mp hall n h)

theorem balanced_textEl {tag : String} (ht : IsName tag) {st : List String} {rest : List Token}
    (h : Balanced st rest) (s : String) : Balanced st (textEl tag s ++ rest) :=
  .start ht ⟨List.nodup_nil, by simp⟩ (.text h)

theorem attrs_ok {key : String} (hk : IsName key) (value : String) : AttrsOk [(key, value)] :=
  ⟨List.nodup_singleton key, by simpa using hk⟩

theorem balanced_scalar {st : List String} {rest : List Token} (h : Balanced st rest)
    (kind s : String) : Balanced st (scalar kind s ++ rest) :=
  .start (isName (by decide)) (attrs_ok (isName (by decide)) kind) (.text h)

mutual

theorem balanced_writeValue : ∀ (v : PayloadValue F) {st : List String} {rest : List Token},
    Balanced st rest → Balanced st (writeValue P v ++ rest)
  | .record fields, _, _, h => by
    simp only [writeValue, List.cons_append, List.append_assoc, List.nil_append]
    exact .start (isName (by decide)) (attrs_ok (isName (by decide)) "rec") (balanced_writeFields fields (.stop h))
  | .seq items, _, _, h => by
    simp only [writeValue, List.cons_append, List.append_assoc, List.nil_append]
    exact .start (isName (by decide)) (attrs_ok (isName (by decide)) "seq") (balanced_writeItems items (.stop h))
  | .text _, _, _, h => balanced_scalar h _ _
  | .uint _, _, _, h => balanced_scalar h _ _
  | .sint _, _, _, h => balanced_scalar h _ _
  | .real _, _, _, h => balanced_scalar h _ _
  | .boolean _, _, _, h => balanced_scalar h _ _
  | .blob _, _, _, h => balanced_scalar h _ _
  | .nil, _, _, h => .empty (isName (by decide)) (attrs_ok (isName (by decide)) "nil") h

theorem balanced_writeFields : ∀ (fields : List (PayloadField F)) {st : List String}
    {rest : List Token}, Balanced st rest → Balanced st (writeFields P fields ++ rest)
  | [], _, _, h => h
  | (name, value) :: fields, _, _, h => by
    simp only [writeFields, List.cons_append, List.append_assoc]
    exact .start (isName (by decide)) (attrs_ok (isName (by decide)) name)
      (balanced_writeValue value (.stop (balanced_writeFields fields h)))

theorem balanced_writeItems : ∀ (items : List (PayloadValue F)) {st : List String}
    {rest : List Token}, Balanced st rest → Balanced st (writeItems P items ++ rest)
  | [], _, _, h => h
  | v :: items, _, _, h => by
    rw [writeItems, List.append_assoc]
    exact balanced_writeValue v (balanced_writeItems items h)

end

theorem balanced_metaTokens (m : Meta) {st : List String} {rest : List Token}
    (h : Balanced st rest) : Balanced st (metaTokens m ++ rest) := by
  simp only [metaTokens, List.cons_append, List.append_assoc, List.nil_append]
  have hp : Balanced ("meta" :: st) (provenanceTokens m.provenance ++ .stop "meta" :: rest) := by
    unfold provenanceTokens
    by_cases hp : m.provenance.isEmpty = true
    · rw [if_pos hp]
      exact .stop h
    · rw [if_neg hp]
      exact balanced_textEl (isName (by decide)) (.stop h) _
  have thread : IsName "thread" := isName (by decide)
  have ht := balanced_textEl thread hp m.thread
  refine .start (isName (by decide)) ⟨List.nodup_nil, by simp⟩ (balanced_textEl (isName (by decide)) ?_ _)
  cases m.toAddr with
  | none => exact ht
  | some a => exact balanced_textEl (isName (by decide)) ht _

theorem balanced_envelopeTokens (env : Envelope F) : Balanced [] (envelopeTokens P env) := by
  simp only [envelopeTokens, List.cons_append, List.append_assoc]
  exact .start (isName (by decide)) (attrs_ok (isName (by decide)) envelopeNs) (balanced_metaTokens _
    (.start (isName (by decide)) (attrs_ok (isName (by decide)) _) (balanced_writeValue _ (.stop (.stop .nil)))))

theorem decodeLoop_envelope (lawful : Lawful P) (env : Envelope F) (n : ℕ) :
    decodeLoop P (n + 4) .blank (readBack (envelopeTokens P env)) =
      (wireMeta env.header).map fun d =>
        ⟨d, some ⟨escape env.payload.tag, imageValue env.payload.value⟩, true⟩ := by
  have hv := (readsBack_writeValue lawful env.payload.value).expect
  obtain ⟨body, hbody, hmeta⟩ := readBack_metaTokens env.header
    (.ok (.start (utf8 "payload") [(utf8 "tag", escape env.payload.tag)]) ::
      (readBack (writeValue P env.payload.value) ++
        [.ok (.stop (utf8 "payload")), .ok (.stop (utf8 "message"))]))
  have hshape : readBack (envelopeTokens P env) =
      .ok (.start (utf8 "message") [(utf8 "xmlns", escape envelopeNs)]) ::
        .ok (.start (utf8 "meta") []) :: body := by
    rw [← hbody]
    simp [envelopeTokens, readBackToken]
  rw [hshape, decodeLoop, if_pos rfl, decodeLoop, if_neg (utf8_ne (by decide)), if_pos rfl]
  have hblank : (Draft.blank : Draft F).header = .blank := rfl
  simp only [hblank, hmeta]
  cases wireMeta env.header with
  | error e => rfl
  | ok d =>
    simp only [Except.bind]
    rw [decodeLoop, if_neg (utf8_ne (by decide)), if_neg (utf8_ne (by decide)), if_pos rfl,
      hv _ _ (by
        rw [valueFuel, List.length_append]
        omega)]
    simp only [expectEnd_stop, attrText_single]
    rw [decodeLoop, if_pos rfl]
    rfl

theorem decode_encode (lawful : Lawful P) (env : Envelope F) :
    decodeEnvelope P (encodeEnvelope P env) = wireImage env := by
  have hlen : ∃ n, (readBack (envelopeTokens P env)).length + 1 = n + 4 := by
    refine ⟨(readBack (envelopeTokens P env)).length - 3, ?_⟩
    have h : 3 ≤ (readBack (envelopeTokens P env)).length := by
      simp only [envelopeTokens, metaTokens, readBack_cons, readBack_append, readBackToken,
        List.length_append, List.length_cons, List.length_nil, List.cons_append]
      omega
    omega
  obtain ⟨n, hn⟩ := hlen
  rw [decodeEnvelope, encodeEnvelope, lawful.faithful _ (balanced_envelopeTokens env), decodeReader,
    hn, decodeLoop_envelope lawful, wireMeta_eq]
  unfold wireImage
  cases headerAddress env.header.fromAddr.display with
  | error e => rfl
  | ok a =>
    cases headerTarget env.header.toAddr with
    | error e => rfl
    | ok b =>
      cases a with
      | none => rfl
      | some a => cases ht : headerText env.header.thread <;> rfl

end RustPipeline.CodecImage
