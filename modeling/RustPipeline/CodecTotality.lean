import RustPipeline.PlainPlatform

set_option autoImplicit false

/-!
# What decoding returns

The decoder never runs out of fuel, and the thread id it returns has no white space around it.
-/
namespace RustPipeline.CodecTotality
open Text Xml Wire Numerals Codec

variable {F : Type} (P : Platform F)

/-! ## Fuel -/

/-- The step ends within its fuel and leaves at most `k` events. -/
def Settles {α : Type} (x : Except Fault (α × Reader)) (k : ℕ) : Prop :=
  match x with
  | .ok p => p.2.length ≤ k
  | .error e => e ≠ .stuck

theorem Settles.mono {α : Type} {x : Except Fault (α × Reader)} {j k : ℕ} (h : Settles x j)
    (hjk : j ≤ k) : Settles x k := by
  cases x with
  | error e => exact h
  | ok p => exact Nat.le_trans h hjk

theorem Settles.map {α β : Type} {x : Except Fault (α × Reader)} {k : ℕ} (h : Settles x k)
    (f : α → β) : Settles (x.map fun p => (f p.1, p.2)) k := by
  cases x with
  | error e => exact h
  | ok p => exact h

theorem parse_ne_stuck (m : ParseMessage) : Fault.parse m ≠ .stuck := by
  intro h
  cases h

theorem provFromHex_ne_stuck (s : String) : provFromHex s ≠ .error .stuck := by
  intro h
  unfold provFromHex at h
  dsimp only at h
  split_ifs at h
  · cases h
  · split at h
    · cases h
    · split at h
      · cases h
      · split at h
        · cases h
        · split at h <;> cases h

theorem hexPairs_ne_stuck (s : String) (is : List ℕ) : hexPairs s is ≠ .error .stuck := by
  induction is with
  | nil =>
    intro h
    cases h
  | cons i is ih =>
    intro h
    rw [hexPairs] at h
    split at h
    · cases h
    · split at h
      · cases h
      · cases hp : hexPairs s is with
        | ok bs => simp [hp, Except.map] at h
        | error e =>
          simp only [hp, Except.map, Except.error.injEq] at h
          subst h
          exact ih hp

theorem fromHex_ne_stuck (s : String) : fromHex s ≠ .error .stuck := by
  intro h
  unfold fromHex at h
  dsimp only at h
  split_ifs at h
  · cases h
  · exact hexPairs_ne_stuck _ _ h

theorem scalarValue_ne_stuck (kind s : String) : scalarValue P kind s ≠ .error .stuck := by
  intro h
  unfold scalarValue at h
  split_ifs at h
  · split at h <;> cases h
  · split at h <;> cases h
  · split at h <;> cases h
  · cases hb : fromHex s with
    | ok bs => simp [hb, Except.map] at h
    | error e =>
      simp only [hb, Except.map, Except.error.injEq] at h
      subst h
      exact fromHex_ne_stuck s hb

theorem parseAddress_ne_stuck (s : String) : parseAddress s ≠ .error .stuck := by
  intro h
  unfold parseAddress at h
  split at h <;> cases h

theorem map_ne_stuck {α β : Type} {x : Except Fault α} (h : x ≠ .error .stuck) (f : α → β) :
    x.map f ≠ .error .stuck := by
  cases x with
  | ok a =>
    intro he
    cases he
  | error e =>
    intro he
    simp only [Except.map, Except.error.injEq] at he
    subst he
    exact h rfl

theorem setField_ne_stuck (m : MetaDraft) (name : Bytes) (s : String) :
    setField m name s ≠ .error .stuck := by
  unfold setField
  split_ifs
  · exact map_ne_stuck (parseAddress_ne_stuck s) _
  · exact map_ne_stuck (parseAddress_ne_stuck s) _
  · intro h
    cases h
  · exact map_ne_stuck (provFromHex_ne_stuck s) _
  · intro h
    cases h

theorem readScalar_settles (acc : String) (r : Reader) : Settles (readScalar acc r) r.length := by
  fun_induction readScalar acc r with
  | case1 => exact parse_ne_stuck _
  | case2 => exact parse_ne_stuck _
  | case3 acc s r ih => exact ih.mono (Nat.le_succ _)
  | case4 => exact parse_ne_stuck _
  | case5 acc r => exact Nat.le_succ _
  | case6 acc name r h ih => exact ih.mono (Nat.le_succ _)
  | case7 acc e r _ _ _ ih => exact ih.mono (Nat.le_succ _)

theorem expectEnd_settles (name : Bytes) (r : Reader) :
    Settles ((expectEnd name r).map fun r => ((), r)) r.length := by
  fun_induction expectEnd name r with
  | case1 => exact parse_ne_stuck _
  | case2 => exact parse_ne_stuck _
  | case3 t r ih => exact ih.mono (Nat.le_succ _)
  | case4 r => exact Nat.le_succ _
  | case5 => exact parse_ne_stuck _
  | case6 => exact parse_ne_stuck _

theorem readMeta_settles (field : Option Bytes) (m : MetaDraft) (r : Reader) :
    Settles (readMeta field m r) r.length := by
  fun_induction readMeta field m r with
  | case1 => exact parse_ne_stuck _
  | case2 => exact parse_ne_stuck _
  | case3 _ _ _ _ _ ih => exact ih.mono (Nat.le_succ _)
  | case4 _ _ _ ih => exact ih.mono (Nat.le_succ _)
  | case5 => exact parse_ne_stuck _
  | case6 _ _ _ _ _ _ ih => exact ih.mono (Nat.le_succ _)
  | case7 m name s r e h =>
    change e ≠ .stuck
    rintro rfl
    exact setField_ne_stuck _ _ _ h
  | case8 => exact Nat.le_succ _
  | case9 _ _ _ _ _ ih => exact ih.mono (Nat.le_succ _)
  | case10 _ _ _ _ _ _ _ _ _ ih => exact ih.mono (Nat.le_succ _)

/-- What one unit of fuel more has to bring for each of the four value readers. -/
structure Fueled (n : ℕ) : Prop where
  expect (r : Reader) (hn : 2 * r.length + 1 ≤ n) : Settles (expectValue P n r) r.length
  parse (kind : String) (r : Reader) (hn : 2 * r.length + 2 ≤ n) :
    Settles (parseValue P n kind r) r.length
  fields (acc : List (PayloadField F)) (r : Reader) (hn : 2 * r.length + 1 ≤ n) :
    Settles (recFields P n acc r) r.length
  items (acc : List (PayloadValue F)) (r : Reader) (hn : 2 * r.length + 1 ≤ n) :
    Settles (seqItems P n acc r) r.length

theorem expect_settles {n : ℕ} (ih : Fueled P n) (r : Reader) (hn : 2 * r.length + 1 ≤ n + 1) :
    Settles (expectValue P (n + 1) r) r.length := by
  cases r with
  | nil => exact parse_ne_stuck _
  | cons e r =>
    rw [List.length_cons] at hn ⊢
    cases e with
    | error e => exact parse_ne_stuck _
    | ok e =>
      cases e with
      | start name attrs =>
        rw [expectValue]
        split_ifs
        · exact (ih.parse _ r (by omega)).mono (Nat.le_succ _)
        · exact parse_ne_stuck _
      | empty name attrs =>
        rw [expectValue]
        split_ifs
        · exact Nat.le_succ _
        · exact parse_ne_stuck _
      | text t => exact (ih.expect r (by omega)).mono (Nat.le_succ _)
      | stop name => exact parse_ne_stuck _
      | other => exact parse_ne_stuck _

theorem parse_settles {n : ℕ} (ih : Fueled P n) (kind : String) (r : Reader)
    (hn : 2 * r.length + 2 ≤ n + 1) : Settles (parseValue P (n + 1) kind r) r.length := by
  rw [parseValue]
  split_ifs
  · exact (ih.fields [] r (by omega)).map PayloadValue.record
  · exact (ih.items [] r (by omega)).map PayloadValue.seq
  · have hs := readScalar_settles "" r
    cases h : readScalar "" r with
    | error e =>
      rw [h] at hs
      exact hs
    | ok p =>
      rw [h] at hs
      have hv := scalarValue_ne_stuck P kind p.1
      change Settles ((scalarValue P kind p.1).map fun v => (v, p.2)) r.length
      cases hk : scalarValue P kind p.1 with
      | error e =>
        rw [hk] at hv
        rintro rfl
        exact hv rfl
      | ok v => exact hs
  · exact parse_ne_stuck _

theorem fields_settles {n : ℕ} (ih : Fueled P n) (acc : List (PayloadField F)) (r : Reader)
    (hn : 2 * r.length + 1 ≤ n + 1) : Settles (recFields P (n + 1) acc r) r.length := by
  cases r with
  | nil => exact parse_ne_stuck _
  | cons e r =>
    rw [List.length_cons] at hn ⊢
    have hskip := (ih.fields acc r (by omega)).mono (Nat.le_succ _)
    cases e with
    | error e => exact parse_ne_stuck _
    | ok e =>
      cases e with
      | start name attrs =>
        rw [recFields]
        split_ifs
        · have hv := ih.expect r (by omega)
          cases h : expectValue P n r with
          | error e =>
            rw [h] at hv
            exact hv
          | ok p =>
            rw [h] at hv
            change p.2.length ≤ r.length at hv
            have he := expectEnd_settles (utf8 "f") p.2
            simp only
            cases hq : expectEnd (utf8 "f") p.2 with
            | error e =>
              rw [hq] at he
              exact he
            | ok q =>
              rw [hq] at he
              change q.length ≤ p.2.length at he
              exact (ih.fields _ q (by omega)).mono (by omega)
        · exact hskip
      | stop name =>
        rw [recFields]
        split_ifs
        · exact Nat.le_succ _
        · exact hskip
      | empty name attrs => exact hskip
      | text t => exact hskip
      | other => exact hskip

theorem items_settles {n : ℕ} (ih : Fueled P n) (acc : List (PayloadValue F)) (r : Reader)
    (hn : 2 * r.length + 1 ≤ n + 1) : Settles (seqItems P (n + 1) acc r) r.length := by
  cases r with
  | nil => exact parse_ne_stuck _
  | cons e r =>
    rw [List.length_cons] at hn ⊢
    have hskip (acc : List (PayloadValue F)) : Settles (seqItems P n acc r) (r.length + 1) :=
      (ih.items acc r (by omega)).mono (Nat.le_succ _)
    cases e with
    | error e => exact parse_ne_stuck _
    | ok e =>
      cases e with
      | start name attrs =>
        rw [seqItems]
        split_ifs
        · have hv := ih.parse (attrText attrs "k") r (by omega)
          cases h : parseValue P n (attrText attrs "k") r with
          | error e =>
            rw [h] at hv
            exact hv
          | ok p =>
            rw [h] at hv
            change p.2.length ≤ r.length at hv
            exact (ih.items _ p.2 (by omega)).mono (by omega)
        · exact hskip acc
      | empty name attrs =>
        rw [seqItems]
        split_ifs
        · exact hskip _
        · exact hskip acc
      | stop name =>
        rw [seqItems]
        split_ifs
        · exact Nat.le_succ _
        · exact hskip acc
      | text t => exact hskip acc
      | other => exact hskip acc

theorem fueled (n : ℕ) : Fueled P n := by
  induction n with
  | zero =>
    constructor
    · intro r hn
      omega
    · intro kind r hn
      omega
    · intro acc r hn
      omega
    · intro acc r hn
      omega
  | succ n ih => exact ⟨expect_settles P ih, parse_settles P ih, fields_settles P ih, items_settles P ih⟩

theorem decodeLoop_ne_stuck (n : ℕ) (d : Draft F) (r : Reader) (hn : r.length + 1 ≤ n) :
    decodeLoop P n d r ≠ .error .stuck := by
  induction n generalizing d r with
  | zero => omega
  | succ n ih =>
    cases r with
    | nil =>
      intro h
      cases h
    | cons e r =>
      rw [List.length_cons] at hn
      have hskip := ih d r (by omega)
      cases e with
      | error e =>
        intro h
        cases h
      | ok e =>
        cases e with
        | start name attrs =>
          rw [decodeLoop]
          split_ifs
          · exact ih _ r (by omega)
          · have hm := readMeta_settles none d.header r
            cases h : readMeta none d.header r with
            | error e =>
              rw [h] at hm
              rintro ⟨⟩
              exact hm rfl
            | ok p =>
              rw [h] at hm
              change p.2.length ≤ r.length at hm
              exact ih _ p.2 (by omega)
          · have hv := (fueled P (valueFuel r)).expect r (Nat.le_refl _)
            cases h : expectValue P (valueFuel r) r with
            | error e =>
              rw [h] at hv
              rintro ⟨⟩
              exact hv rfl
            | ok p =>
              rw [h] at hv
              change p.2.length ≤ r.length at hv
              have he := expectEnd_settles (utf8 "payload") p.2
              simp only
              cases hq : expectEnd (utf8 "payload") p.2 with
              | error e =>
                rw [hq] at he
                rintro ⟨⟩
                exact he rfl
              | ok q =>
                rw [hq] at he
                change q.length ≤ p.2.length at he
                exact ih _ q (by omega)
          · intro h
            cases h
        | stop name =>
          rw [decodeLoop]
          split_ifs
          · intro h
            cases h
          · exact hskip
        | empty name attrs => exact hskip
        | text t => exact hskip
        | other => exact hskip

theorem finish_ne_stuck (d : Draft F) : d.finish ≠ .error .stuck := by
  intro h
  unfold Draft.finish at h
  split at h
  · split at h
    · cases h
    · split at h
      · cases h
      · split at h <;> cases h
  · cases h

/-- Decoding ends on every input. -/
theorem decodeEnvelope_ne_stuck (raw : Bytes) : decodeEnvelope P raw ≠ .error .stuck := by
  intro h
  unfold decodeEnvelope decodeReader at h
  cases hl : decodeLoop P ((P.xml.read raw).length + 1) .blank (P.xml.read raw) with
  | ok d =>
    rw [hl] at h
    exact finish_ne_stuck d h
  | error e =>
    rw [hl] at h
    simp only [Except.error.injEq] at h
    subst h
    exact decodeLoop_ne_stuck P _ _ _ (Nat.le_refl _) hl

/-! ## Header texts are trimmed -/

/-- Storing a trimmed text in a header field keeps the property. -/
def Kept (K : MetaDraft → Prop) : Prop :=
  ∀ m m' name s, K m → trim s = s → setField m name s = .ok m' → K m'

theorem readMeta_keeps {K : MetaDraft → Prop} (hK : Kept K) {field : Option Bytes}
    {m m' : MetaDraft} {r r' : Reader} (hm : K m) (h : readMeta field m r = .ok (m', r')) : K m' := by
  fun_induction readMeta field m r with
  | case1 => cases h
  | case2 => cases h
  | case3 _ _ _ _ _ ih => exact ih hm h
  | case4 _ _ _ ih => exact ih hm h
  | case5 => cases h
  | case6 name m s r m1 hset ih => exact ih (hK m m1 name _ hm (trim_idem s) hset) h
  | case7 => cases h
  | case8 =>
    cases h
    exact hm
  | case9 _ _ _ _ _ ih => exact ih hm h
  | case10 _ _ _ _ _ _ _ _ _ ih => exact ih hm h

theorem decodeLoop_keeps {K : MetaDraft → Prop} (hK : Kept K) {n : ℕ} {d d' : Draft F} {r : Reader}
    (hd : K d.header) (h : decodeLoop P n d r = .ok d') : K d'.header := by
  induction n generalizing d r with
  | zero => cases h
  | succ n ih =>
    cases r with
    | nil =>
      cases h
      exact hd
    | cons e r =>
      cases e with
      | error e => cases h
      | ok e =>
        cases e with
        | start name attrs =>
          rw [decodeLoop] at h
          split_ifs at h
          · exact ih (d := { d with foundMessage := true }) hd h
          · cases hm : readMeta none d.header r with
            | error e => simp [hm] at h
            | ok p =>
              simp only [hm] at h
              exact ih (d := { d with header := p.1 }) (readMeta_keeps hK hd hm) h
          · cases hv : expectValue P (valueFuel r) r with
            | error e => simp [hv] at h
            | ok p =>
              simp only [hv] at h
              cases hq : expectEnd (utf8 "payload") p.2 with
              | error e => simp [hq] at h
              | ok q =>
                simp only [hq] at h
                exact ih (d := { d with payload := some ⟨attrText attrs "tag", p.1⟩ }) hd h
        | stop name =>
          rw [decodeLoop] at h
          split_ifs at h
          · cases h
            exact hd
          · exact ih hd h
        | empty name attrs => exact ih hd h
        | text t => exact ih hd h
        | other => exact ih hd h

theorem decodeEnvelope_keeps {K : MetaDraft → Prop} (hK : Kept K) (h0 : K .blank) {raw : Bytes}
    {env : Envelope F} (h : decodeEnvelope P raw = .ok env) : ∃ m : MetaDraft, K m ∧
      m.fromAddr = some env.header.fromAddr ∧ m.thread = some env.header.thread := by
  unfold decodeEnvelope decodeReader at h
  cases hl : decodeLoop P ((P.xml.read raw).length + 1) .blank (P.xml.read raw) with
  | error e => simp [hl] at h
  | ok d =>
    refine ⟨d.header, decodeLoop_keeps P hK h0 hl, ?_⟩
    simp only [hl, Draft.finish] at h
    split at h
    · split at h
      · cases h
      · next sender hsender =>
        split at h
        · cases h
        · next thread hthread =>
          split at h
          · cases h
          · cases h
            exact ⟨hsender, hthread⟩
    · cases h

def TrimmedThread (m : MetaDraft) : Prop := ∀ t ∈ m.thread, trim t = t

theorem trimmedThread_kept : Kept TrimmedThread := by
  intro m m' name s hm hs h
  unfold setField at h
  split_ifs at h
  · obtain ⟨a, _, rfl⟩ := map_eq_ok h
    exact hm
  · obtain ⟨a, _, rfl⟩ := map_eq_ok h
    exact hm
  · cases h
    intro t ht
    rw [← Option.some_inj.mp ht]
    exact hs
  · obtain ⟨a, _, rfl⟩ := map_eq_ok h
    exact hm
  · cases h
    exact hm

theorem decodeEnvelope_thread {raw : Bytes} {env : Envelope F}
    (h : decodeEnvelope P raw = .ok env) : trim env.header.thread = env.header.thread := by
  have h0 : TrimmedThread .blank := by
    intro t ht
    cases ht
  obtain ⟨m, hm, _, ht⟩ := decodeEnvelope_keeps P trimmedThread_kept h0 h
  exact hm _ ht

/-- The sender is what a trimmed text spells. -/
def SpelledSender (m : MetaDraft) : Prop :=
  ∀ a ∈ m.fromAddr, ∃ s, Address.parse s = .ok a ∧ trim s = s

theorem spelledSender_kept : Kept SpelledSender := by
  intro m m' name s hm hs h
  unfold setField at h
  split_ifs at h
  · obtain ⟨a, ha, rfl⟩ := map_eq_ok h
    intro b hb
    rw [← Option.some_inj.mp hb]
    refine ⟨s, ?_, hs⟩
    unfold parseAddress at ha
    split at ha
    · next hp =>
      rw [hp, ← Except.ok.inj ha]
    · cases ha
  · obtain ⟨a, _, rfl⟩ := map_eq_ok h
    exact hm
  · cases h
    exact hm
  · obtain ⟨a, _, rfl⟩ := map_eq_ok h
    exact hm
  · cases h
    exact hm

theorem decodeEnvelope_sender {raw : Bytes} {env : Envelope F} (h : decodeEnvelope P raw = .ok env) :
    ∃ s, Address.parse s = .ok env.header.fromAddr ∧ trim s = s := by
  have h0 : SpelledSender .blank := by
    intro a ha
    cases ha
  obtain ⟨m, hm, hf, _⟩ := decodeEnvelope_keeps P spelledSender_kept h0 h
  exact hm _ hf

end RustPipeline.CodecTotality
