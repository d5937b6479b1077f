import RustPipeline.CodecTotality

set_option autoImplicit false

/-!
# Slices of hexadecimal texts

`provFromHex` and `fromHex` check byte lengths and then cut at byte offsets. Decoding panics
exactly when it reaches a text one of these offsets cuts through a character.
-/
namespace RustPipeline.CodecSlices
open Text Xml Wire Numerals Codec CodecImage CodecTotality PlainPlatform

variable {F : Type} (P : Platform F)

/-! ## One text -/

/-- The two bytes at an offset are a text that `from_str_radix` reads. -/
def ReadablePair (s : String) (i : ℕ) : Prop :=
  ∃ pair, slice i (i + 2) s = some pair ∧ (fromStrRadix 16 8 pair).isSome

/-- The offset between the two halves, once the length check has passed. -/
def ProvenanceOnBoundary (s : String) : Prop :=
  (trim s).utf8ByteSize = 32 → Boundary 16 (trim s)

/-- The offset after each pair that is reached, which are those behind readable pairs only. -/
def BlobOnBoundaries (s : String) : Prop :=
  (trim s).utf8ByteSize % 2 = 0 → ∀ k < (trim s).utf8ByteSize / 2,
    (∀ j < k, ReadablePair (trim s) (2 * j)) → Boundary (2 * (k + 1)) (trim s)

theorem boundary_size (s : String) : Boundary s.utf8ByteSize s := by
  refine boundary_iff.mpr ⟨s.toList, [], (List.append_nil _).symm, ?_⟩
  rw [← String.utf8ByteSize_ofList, String.ofList_toList]

theorem provFromHex_panic_iff (s : String) :
    provFromHex s = .error .panic ↔ ¬ ProvenanceOnBoundary s := by
  unfold provFromHex ProvenanceOnBoundary
  dsimp only
  by_cases hl : (trim s).utf8ByteSize = 32
  · rw [if_neg (not_not.mpr hl), imp_iff_right hl]
    have h1 : (slice 0 16 (trim s)).isSome ↔ Boundary 16 (trim s) := by
      rw [slice_isSome (by decide), and_iff_right (boundary_zero _)]
    have h2 : (slice 16 32 (trim s)).isSome ↔ Boundary 16 (trim s) := by
      rw [slice_isSome (by decide), ← hl, and_iff_left (boundary_size _)]
    by_cases hb : Boundary 16 (trim s)
    · obtain ⟨hi, hhi⟩ := Option.isSome_iff_exists.mp (h1.mpr hb)
      obtain ⟨lo, hlo⟩ := Option.isSome_iff_exists.mp (h2.mpr hb)
      refine iff_of_false (fun h => ?_) (not_not.mpr hb)
      rw [hhi, hlo] at h
      dsimp only at h
      split at h
      · cases h
      · split at h <;> cases h
    · have hn : slice 0 16 (trim s) = none := by
        rw [← Option.not_isSome_iff_eq_none, h1]
        exact hb
      rw [hn]
      exact iff_of_true rfl hb
  · rw [if_pos hl]
    refine iff_of_false (fun h => ?_) (not_not.mpr fun h => absurd h hl)
    cases h

theorem hexPairs_panic_iff (s : String) (a n : ℕ) (hstart : Boundary (2 * a) s) :
    hexPairs s ((List.range' a n).map (2 * ·)) = .error .panic ↔
      ∃ k < n, (∀ j < k, ReadablePair s (2 * (a + j))) ∧ ¬ Boundary (2 * (a + k + 1)) s := by
  induction n generalizing a with
  | zero =>
    refine iff_of_false (fun h => ?_) ?_
    · cases h
    · rintro ⟨k, hk, _⟩
      exact Nat.not_lt_zero k hk
  | succ n ih =>
    have hsome : (slice (2 * a) (2 * a + 2) s).isSome ↔ Boundary (2 * (a + 1)) s := by
      rw [slice_isSome (Nat.le_add_right _ _), and_iff_right hstart]
      rfl
    rw [List.range'_succ, List.map_cons, hexPairs]
    cases hp : slice (2 * a) (2 * a + 2) s with
    | none =>
      rw [hp] at hsome
      refine iff_of_true rfl ⟨0, Nat.succ_pos n, fun j hj => absurd hj (Nat.not_lt_zero j), ?_⟩
      intro hb
      exact absurd (hsome.mpr hb) (by simp)
    | some pair =>
      rw [hp] at hsome
      have hb : Boundary (2 * (a + 1)) s := hsome.mp rfl
      dsimp only
      cases hr : fromStrRadix 16 8 pair with
      | none =>
        refine iff_of_false (fun h => ?_) ?_
        · cases h
        · rintro ⟨k, _, hread, hnot⟩
          cases k with
          | zero => exact hnot hb
          | succ k =>
            obtain ⟨q, hq, hqs⟩ := hread 0 (Nat.succ_pos k)
            rw [Nat.add_zero, hp, Option.some_inj] at hq
            subst hq
            simp [hr] at hqs
      | some m =>
        have hpair : ReadablePair s (2 * a) := ⟨pair, hp, by rw [hr]; rfl⟩
        have hmap : (hexPairs s ((List.range' (a + 1) n).map (2 * ·))).map (UInt8.ofNat m :: ·) =
            .error .panic ↔ hexPairs s ((List.range' (a + 1) n).map (2 * ·)) = .error .panic := by
          cases hexPairs s ((List.range' (a + 1) n).map (2 * ·)) <;> simp [Except.map]
        rw [hmap, ih (a + 1) hb]
        constructor
        · rintro ⟨k, hk, hread, hnot⟩
          refine ⟨k + 1, by omega, ?_, ?_⟩
          · intro j hj
            cases j with
            | zero => exact hpair
            | succ j =>
              have h := hread j (by omega)
              rwa [Nat.add_assoc, Nat.add_comm 1 j] at h
          · rwa [Nat.add_assoc a 1 k, Nat.add_comm 1 k] at hnot
        · rintro ⟨k, hk, hread, hnot⟩
          cases k with
          | zero => exact absurd hb hnot
          | succ k =>
            refine ⟨k, by omega, ?_, ?_⟩
            · intro j hj
              have h := hread (j + 1) (by omega)
              rwa [Nat.add_assoc, Nat.add_comm 1 j]
            · rwa [Nat.add_assoc a 1 k, Nat.add_comm 1 k]

theorem fromHex_panic_iff (s : String) : fromHex s = .error .panic ↔ ¬ BlobOnBoundaries s := by
  unfold fromHex BlobOnBoundaries
  dsimp only
  by_cases he : (trim s).utf8ByteSize % 2 = 0
  · have h := hexPairs_panic_iff (trim s) 0 ((trim s).utf8ByteSize / 2) (boundary_zero _)
    rw [← List.range_eq_range'] at h
    rw [if_neg (not_not.mpr he), imp_iff_right he, pairOffsets, h]
    simp only [Nat.zero_add]
    push Not
    exact Iff.rfl
  · rw [if_pos he]
    refine iff_of_false (fun h => ?_) (not_not.mpr fun h => absurd h he)
    cases h

example : fromHex "aéb" = .error .panic := rfl

/-! ## The texts that decoding reaches -/

inductive HexText where
  | provenance (s : String)
  | blob (s : String)

def HexText.OnBoundaries : HexText → Prop
  | .provenance s => ProvenanceOnBoundary s
  | .blob s => BlobOnBoundaries s

def fieldHex (name : Bytes) (s : String) : List HexText :=
  if name = utf8 "provenance" then [.provenance s] else []

/-- The provenance texts of `readMeta`, up to its first error. -/
def metaHex : Option Bytes → MetaDraft → Reader → List HexText
  | _, _, [] => []
  | _, _, .error _ :: _ => []
  | _, m, .ok (.start name _) :: r => metaHex (some name) m r
  | none, m, .ok (.text _) :: r => metaHex none m r
  | some _, _, .ok (.text (.error _)) :: _ => []
  | some name, m, .ok (.text (.ok s)) :: r =>
    fieldHex name (trim s) ++
      match setField m name (trim s) with
      | .ok m => metaHex (some name) m r
      | .error _ => []
  | _, m, .ok (.stop name) :: r => if name = utf8 "meta" then [] else metaHex none m r
  | field, m, .ok _ :: r => metaHex field m r

mutual

/-- The blob texts of `expectValue`, up to its first error. -/
def valueHex : ℕ → Reader → List HexText
  | n + 1, .ok (.start name attrs) :: r =>
    if name = utf8 "v" then kindHex n (attrText attrs "k") r else []
  | n + 1, .ok (.text _) :: r => valueHex n r
  | _, _ => []

def kindHex : ℕ → String → Reader → List HexText
  | 0, _, _ => []
  | n + 1, kind, r =>
    if kind = "rec" then fieldsHex n r
    else if kind = "seq" then itemsHex n r
    else if kind = "blob" then
      match readScalar "" r with
      | .ok (s, _) => [.blob s]
      | .error _ => []
    else []

def fieldsHex : ℕ → Reader → List HexText
  | n + 1, .ok (.start name _) :: r =>
    if name = utf8 "f" then
      valueHex n r ++
        match expectValue P n r with
        | .ok (_, r) =>
          match expectEnd (utf8 "f") r with
          | .ok r => fieldsHex n r
          | .error _ => []
        | .error _ => []
    else fieldsHex n r
  | n + 1, .ok (.stop name) :: r => if name = utf8 "v" then [] else fieldsHex n r
  | n + 1, .ok _ :: r => fieldsHex n r
  | _, _ => []

def itemsHex : ℕ → Reader → List HexText
  | n + 1, .ok (.start name attrs) :: r =>
    if name = utf8 "v" then
      kindHex n (attrText attrs "k") r ++
        match parseValue P n (attrText attrs "k") r with
        | .ok (_, r) => itemsHex n r
        | .error _ => []
    else itemsHex n r
  | n + 1, .ok (.stop name) :: r => if name = utf8 "v" then [] else itemsHex n r
  | n + 1, .ok _ :: r => itemsHex n r
  | _, _ => []

end

def loopHex : ℕ → Draft F → Reader → List HexText
  | 0, _, _ => []
  | _ + 1, _, [] => []
  | _ + 1, _, .error _ :: _ => []
  | n + 1, d, .ok (.start name attrs) :: r =>
    if name = utf8 "message" then loopHex n { d with foundMessage := true } r
    else if name = utf8 "meta" then
      metaHex none d.header r ++
        match readMeta none d.header r with
        | .ok (header, r) => loopHex n { d with header := header } r
        | .error _ => []
    else if name = utf8 "payload" then
      valueHex P (valueFuel r) r ++
        match expectValue P (valueFuel r) r with
        | .ok (value, r) =>
          match expectEnd (utf8 "payload") r with
          | .ok r => loopHex n { d with payload := some ⟨attrText attrs "tag", value⟩ } r
          | .error _ => []
        | .error _ => []
    else []
  | n + 1, d, .ok (.stop name) :: r => if name = utf8 "message" then [] else loopHex n d r
  | n + 1, d, .ok _ :: r => loopHex n d r

/-- The texts handed to `provFromHex` and `fromHex` while a document is decoded. -/
def hexTexts (r : Reader) : List HexText := loopHex P (r.length + 1) .blank r

/-! ## Panics are cut characters -/

def Cuts (ts : List HexText) : Prop := ∃ t ∈ ts, ¬ t.OnBoundaries

theorem not_cuts_nil : ¬ Cuts [] := by
  rintro ⟨t, ht, _⟩
  cases ht

theorem cuts_append {a b : List HexText} : Cuts (a ++ b) ↔ Cuts a ∨ Cuts b := by
  simp only [Cuts, List.mem_append, or_and_right, exists_or]

theorem cuts_singleton (t : HexText) : Cuts [t] ↔ ¬ t.OnBoundaries := by
  simp only [Cuts, List.mem_singleton, exists_eq_left]

/-- A step panics exactly when the texts it reaches are cut. -/
def Traced {α : Type} (x : Except Fault α) (ts : List HexText) : Prop :=
  x = .error .panic ↔ Cuts ts

theorem traced_parse {α : Type} (m : ParseMessage) :
    Traced (.error (.parse m) : Except Fault α) [] := by
  refine iff_of_false (fun h => ?_) not_cuts_nil
  cases h

theorem traced_ok {α : Type} (a : α) : Traced (.ok a) [] := by
  refine iff_of_false (fun h => ?_) not_cuts_nil
  cases h

theorem Traced.map {α β : Type} {x : Except Fault α} {ts : List HexText} (h : Traced x ts)
    (f : α → β) : Traced (x.map f) ts := by
  unfold Traced at h ⊢
  rw [← h]
  cases x <;> simp [Except.map]

theorem Traced.error {α β : Type} {e : Fault} {ts : List HexText}
    (h : Traced (.error e : Except Fault α) ts) :
    Traced (.error e : Except Fault β) (ts ++ []) := by
  unfold Traced at h ⊢
  rw [List.append_nil, ← h]
  simp only [Except.error.injEq]

theorem Traced.ok {α β : Type} {a : α} {x : Except Fault β} {ts us : List HexText}
    (h : Traced (.ok a) ts) (hx : Traced x us) : Traced x (ts ++ us) := by
  unfold Traced at h hx ⊢
  have hts : ¬ Cuts ts := by
    rw [← h]
    intro he
    cases he
  rw [hx, cuts_append, or_iff_right hts]

theorem traced_parseAddress (s : String) : Traced (parseAddress s) [] := by
  unfold parseAddress
  cases Address.parse s with
  | ok a => exact traced_ok a
  | error e => exact traced_parse (.address e)

theorem traced_setField (m : MetaDraft) (name : Bytes) (s : String) :
    Traced (setField m name s) (fieldHex name s) := by
  unfold setField fieldHex
  by_cases h : name = utf8 "provenance"
  · subst h
    rw [if_neg (utf8_ne (by decide)), if_neg (utf8_ne (by decide)), if_neg (utf8_ne (by decide)),
      if_pos rfl, if_pos rfl]
    refine Traced.map ?_ _
    rw [Traced, cuts_singleton]
    exact provFromHex_panic_iff s
  · rw [if_neg h, if_neg h]
    split_ifs
    · exact (traced_parseAddress s).map _
    · exact (traced_parseAddress s).map _
    · exact traced_ok _
    · exact traced_ok m

theorem traced_readMeta (field : Option Bytes) (m : MetaDraft) (r : Reader) :
    Traced (readMeta field m r) (metaHex field m r) := by
  fun_induction readMeta field m r with
  | case1 => exact traced_parse _
  | case2 => exact traced_parse _
  | case3 _ _ _ _ _ ih => exact ih
  | case4 _ _ _ ih => exact ih
  | case5 => exact traced_parse _
  | case6 name m s r m' h ih =>
    have hs := traced_setField m name (trim s)
    rw [h] at hs
    simp only [metaHex, h]
    exact hs.ok ih
  | case7 name m s r e h =>
    have hs := traced_setField m name (trim s)
    rw [h] at hs
    simp only [metaHex, h]
    exact hs.error
  | case8 field m r =>
    rw [metaHex, if_pos rfl]
    exact traced_ok _
  | case9 field m name r h ih =>
    rw [metaHex, if_neg h]
    exact ih
  | case10 field m e r h1 h2 h3 h4 h5 ih =>
    rw [metaHex]
    · exact ih
    all_goals assumption

theorem readScalar_ne_panic (acc : String) (r : Reader) : readScalar acc r ≠ .error .panic := by
  fun_induction readScalar acc r with
  | case1 =>
    intro h
    cases h
  | case2 =>
    intro h
    cases h
  | case3 acc s r ih => exact ih
  | case4 =>
    intro h
    cases h
  | case5 acc r =>
    intro h
    cases h
  | case6 acc name r h ih => exact ih
  | case7 acc e r _ _ _ ih => exact ih

theorem traced_expectEnd (name : Bytes) (r : Reader) : Traced (expectEnd name r) [] := by
  fun_induction expectEnd name r with
  | case1 => exact traced_parse _
  | case2 => exact traced_parse _
  | case3 t r ih => exact ih
  | case4 r => exact traced_ok r
  | case5 => exact traced_parse _
  | case6 => exact traced_parse _

theorem traced_scalarValue (kind s : String) :
    Traced (scalarValue P kind s) (if kind = "blob" then [.blob s] else []) := by
  by_cases hb : kind = "blob"
  · subst hb
    rw [scalarValue, if_neg (by decide), if_neg (by decide), if_neg (by decide),
      if_neg (by decide), if_neg (by decide), if_pos rfl, if_pos rfl]
    refine Traced.map ?_ _
    rw [Traced, cuts_singleton]
    exact fromHex_panic_iff s
  · rw [if_neg hb]
    refine iff_of_false (fun h => ?_) not_cuts_nil
    unfold scalarValue at h
    split_ifs at h
    · split at h <;> cases h
    · split at h <;> cases h
    · split at h <;> cases h

structure ValuesTraced (n : ℕ) : Prop where
  expect (r : Reader) : Traced (expectValue P n r) (valueHex P n r)
  parse (kind : String) (r : Reader) : Traced (parseValue P n kind r) (kindHex P n kind r)
  fields (acc : List (PayloadField F)) (r : Reader) :
    Traced (recFields P n acc r) (fieldsHex P n r)
  items (acc : List (PayloadValue F)) (r : Reader) : Traced (seqItems P n acc r) (itemsHex P n r)

theorem traced_stuck {α : Type} : Traced (.error .stuck : Except Fault α) [] := by
  refine iff_of_false (fun h => ?_) not_cuts_nil
  cases h

theorem traced_expect {n : ℕ} (ih : ValuesTraced P n) (r : Reader) :
    Traced (expectValue P (n + 1) r) (valueHex P (n + 1) r) := by
  cases r with
  | nil => exact traced_parse _
  | cons e r =>
    cases e with
    | error e => exact traced_parse _
    | ok e =>
      cases e with
      | start name attrs =>
        rw [expectValue, valueHex]
        by_cases hv : name = utf8 "v"
        · rw [if_pos hv, if_pos hv]
          exact ih.parse _ r
        · rw [if_neg hv, if_neg hv]
          exact traced_parse _
      | empty name attrs =>
        change Traced (expectValue P (n + 1) (.ok (.empty name attrs) :: r)) []
        rw [expectValue]
        split_ifs
        · exact traced_ok _
        · exact traced_parse _
      | text t => exact ih.expect r
      | stop name => exact traced_parse _
      | other => exact traced_parse _

theorem traced_parseValue {n : ℕ} (ih : ValuesTraced P n) (kind : String) (r : Reader) :
    Traced (parseValue P (n + 1) kind r) (kindHex P (n + 1) kind r) := by
  rw [parseValue, kindHex]
  by_cases h1 : kind = "rec"
  · rw [if_pos h1, if_pos h1]
    exact (ih.fields [] r).map _
  · rw [if_neg h1, if_neg h1]
    by_cases h2 : kind = "seq"
    · rw [if_pos h2, if_pos h2]
      exact (ih.items [] r).map _
    · rw [if_neg h2, if_neg h2]
      have hs := readScalar_ne_panic "" r
      by_cases h3 : kind ∈ scalarKinds
      · rw [if_pos h3]
        cases hr : readScalar "" r with
        | error e =>
          rw [hr] at hs
          have hnone : (if kind = "blob" then ([] : List HexText) else []) = [] := ite_self _
          simp only [hnone]
          refine iff_of_false (fun he => ?_) not_cuts_nil
          cases he
          exact hs rfl
        | ok p => exact (traced_scalarValue P kind p.1).map _
      · have h4 : kind ≠ "blob" := by
          rintro rfl
          exact h3 (by decide)
        rw [if_neg h3, if_neg h4]
        exact traced_parse _

theorem traced_fields {n : ℕ} (ih : ValuesTraced P n) (acc : List (PayloadField F)) (r : Reader) :
    Traced (recFields P (n + 1) acc r) (fieldsHex P (n + 1) r) := by
  cases r with
  | nil => exact traced_parse _
  | cons e r =>
    cases e with
    | error e => exact traced_parse _
    | ok e =>
      cases e with
      | start name attrs =>
        rw [recFields, fieldsHex]
        by_cases hf : name = utf8 "f"
        · rw [if_pos hf, if_pos hf]
          have hv := ih.expect r
          cases h : expectValue P n r with
          | error e =>
            rw [h] at hv
            exact hv.error
          | ok p =>
            rw [h] at hv
            refine hv.ok ?_
            have he := traced_expectEnd (utf8 "f") p.2
            dsimp only
            cases hq : expectEnd (utf8 "f") p.2 with
            | error e =>
              rw [hq] at he
              exact he.error
            | ok q => exact ih.fields _ q
        · rw [if_neg hf, if_neg hf]
          exact ih.fields acc r
      | stop name =>
        rw [recFields, fieldsHex]
        by_cases hv : name = utf8 "v"
        · rw [if_pos hv, if_pos hv]
          exact traced_ok _
        · rw [if_neg hv, if_neg hv]
          exact ih.fields acc r
      | empty name attrs => exact ih.fields acc r
      | text t => exact ih.fields acc r
      | other => exact ih.fields acc r

theorem traced_items {n : ℕ} (ih : ValuesTraced P n) (acc : List (PayloadValue F)) (r : Reader) :
    Traced (seqItems P (n + 1) acc r) (itemsHex P (n + 1) r) := by
  cases r with
  | nil => exact traced_parse _
  | cons e r =>
    cases e with
    | error e => exact traced_parse _
    | ok e =>
      cases e with
      | start name attrs =>
        rw [seqItems, itemsHex]
        by_cases hv : name = utf8 "v"
        · rw [if_pos hv, if_pos hv]
          have hp := ih.parse (attrText attrs "k") r
          cases h : parseValue P n (attrText attrs "k") r with
          | error e =>
            rw [h] at hp
            exact hp.error
          | ok p =>
            rw [h] at hp
            exact hp.ok (ih.items _ p.2)
        · rw [if_neg hv, if_neg hv]
          exact ih.items acc r
      | empty name attrs =>
        rw [seqItems, itemsHex]
        · split_ifs
          · exact ih.items _ r
          · exact ih.items acc r
        all_goals simp
      | stop name =>
        rw [seqItems, itemsHex]
        by_cases hv : name = utf8 "v"
        · rw [if_pos hv, if_pos hv]
          exact traced_ok _
        · rw [if_neg hv, if_neg hv]
          exact ih.items acc r
      | text t => exact ih.items acc r
      | other => exact ih.items acc r

theorem valuesTraced (n : ℕ) : ValuesTraced P n := by
  induction n with
  | zero => exact ⟨fun _ => traced_stuck, fun _ _ => traced_stuck, fun _ _ => traced_stuck,
      fun _ _ => traced_stuck⟩
  | succ n ih =>
    exact ⟨traced_expect P ih, traced_parseValue P ih, traced_fields P ih, traced_items P ih⟩

theorem traced_decodeLoop (n : ℕ) (d : Draft F) (r : Reader) :
    Traced (decodeLoop P n d r) (loopHex P n d r) := by
  induction n generalizing d r with
  | zero => exact traced_stuck
  | succ n ih =>
    cases r with
    | nil => exact traced_ok d
    | cons e r =>
      cases e with
      | error e => exact traced_parse _
      | ok e =>
        cases e with
        | start name attrs =>
          rw [decodeLoop, loopHex]
          by_cases h1 : name = utf8 "message"
          · rw [if_pos h1, if_pos h1]
            exact ih _ r
          by_cases h2 : name = utf8 "meta"
          · rw [if_neg h1, if_neg h1, if_pos h2, if_pos h2]
            have hm := traced_readMeta none d.header r
            cases h : readMeta none d.header r with
            | error e =>
              rw [h] at hm
              exact hm.error
            | ok p =>
              rw [h] at hm
              exact hm.ok (ih _ p.2)
          by_cases h3 : name = utf8 "payload"
          · rw [if_neg h1, if_neg h1, if_neg h2, if_neg h2, if_pos h3, if_pos h3]
            have hv := (valuesTraced P (valueFuel r)).expect r
            cases h : expectValue P (valueFuel r) r with
            | error e =>
              rw [h] at hv
              exact hv.error
            | ok p =>
              rw [h] at hv
              refine hv.ok ?_
              have he := traced_expectEnd (utf8 "payload") p.2
              dsimp only
              cases hq : expectEnd (utf8 "payload") p.2 with
              | error e =>
                rw [hq] at he
                exact he.error
              | ok q => exact ih _ q
          · rw [if_neg h1, if_neg h1, if_neg h2, if_neg h2, if_neg h3, if_neg h3]
            exact traced_parse _
        | stop name =>
          rw [decodeLoop, loopHex]
          by_cases h1 : name = utf8 "message"
          · rw [if_pos h1, if_pos h1]
            exact traced_ok d
          · rw [if_neg h1, if_neg h1]
            exact ih d r
        | empty name attrs => exact ih d r
        | text t => exact ih d r
        | other => exact ih d r

theorem finish_ne_panic (d : Draft F) : d.finish ≠ .error .panic := by
  intro h
  unfold Draft.finish at h
  split at h
  · split at h
    · cases h
    · split at h
      · cases h
      · split at h <;> cases h
  · cases h

theorem decodeEnvelope_panic_iff (raw : Bytes) :
    decodeEnvelope P raw = .error .panic ↔ Cuts (hexTexts P (P.xml.read raw)) := by
  have h := traced_decodeLoop P ((P.xml.read raw).length + 1) .blank (P.xml.read raw)
  unfold decodeEnvelope decodeReader hexTexts
  unfold Traced at h
  rw [← h]
  cases decodeLoop P ((P.xml.read raw).length + 1) .blank (P.xml.read raw) with
  | ok d => exact iff_of_false (finish_ne_panic d) (fun h => by cases h)
  | error e => simp only [Except.error.injEq]

/-- Decoding returns exactly on the documents none of whose hexadecimal texts is cut. -/
theorem decodeEnvelope_returns_iff (raw : Bytes) :
    ((∃ env, decodeEnvelope P raw = .ok env) ∨ ∃ e, decodeEnvelope P raw = .error (.err e)) ↔
      ∀ t ∈ hexTexts P (P.xml.read raw), t.OnBoundaries := by
  have hcuts : (∀ t ∈ hexTexts P (P.xml.read raw), t.OnBoundaries) ↔
      ¬ Cuts (hexTexts P (P.xml.read raw)) := by
    simp only [Cuts, not_exists, not_and, not_not]
  rw [hcuts, ← decodeEnvelope_panic_iff]
  have hstuck := decodeEnvelope_ne_stuck P raw
  cases h : decodeEnvelope P raw with
  | ok env =>
    refine iff_of_true (Or.inl ⟨env, rfl⟩) ?_
    intro he
    cases he
  | error e =>
    cases e with
    | err e =>
      refine iff_of_true (Or.inr ⟨e, rfl⟩) ?_
      intro he
      cases he
    | panic =>
      refine iff_of_false ?_ (not_not.mpr rfl)
      rintro (⟨env, he⟩ | ⟨e, he⟩) <;> cases he
    | stuck => exact absurd h hstuck

/-! ## A provenance text cut in the middle -/

/-- Thirty-two bytes, of which the sixteenth and the seventeenth are one character. -/
def cutProvenance : String := "aaaaaaaaaaaaaaaéaaaaaaaaaaaaaaa"

def cutDocument : List Token :=
  .start "message" [] :: .start "meta" [] :: textEl "provenance" cutProvenance ++
    [.stop "meta", .stop "message"]

theorem balanced_cutDocument : Balanced [] cutDocument := by
  have h : Balanced [] (.start "message" [] :: .start "meta" [] ::
      (textEl "provenance" cutProvenance ++ [.stop "meta", .stop "message"])) := by
    have hattrs : AttrsOk [] := ⟨List.nodup_nil, by simp⟩
    exact .start (isName (by decide)) hattrs (.start (isName (by decide)) hattrs
      (balanced_textEl (isName (by decide)) (.stop (.stop .nil)) _))
  exact h

theorem decodeEnvelope_panics :
    decodeEnvelope plain (plain.xml.write cutDocument) = .error .panic ∧
      ¬ ((∃ env, decodeEnvelope plain (plain.xml.write cutDocument) = .ok env) ∨
        ∃ e, decodeEnvelope plain (plain.xml.write cutDocument) = .error (.err e)) := by
  have h : decodeEnvelope plain (plain.xml.write cutDocument) = .error .panic := by
    rw [decodeEnvelope, plain_lawful.faithful _ balanced_cutDocument]
    rfl
  refine ⟨h, ?_⟩
  rw [h]
  rintro (⟨env, he⟩ | ⟨e, he⟩) <;> cases he

end RustPipeline.CodecSlices
