import RustPipeline.Codec

set_option autoImplicit false

/-!
# Attribute values on their way through the decoder

Apart from the kinds of values, attribute values are only stored: a reader whose other attribute
values are replaced is decoded to the same envelope with its tag and field names replaced.
-/
namespace RustPipeline.Relabelling
open Text Xml Wire Codec

variable {F : Type} {P : Platform F} (g : String → String)

/-! ## Readers and envelopes with replaced names -/

def relabelAttr (a : Bytes × String) : Bytes × String :=
  if a.1 = utf8 "k" then a else (a.1, g a.2)

def relabelEvent : Event → Event
  | .start n as => .start n (as.map (relabelAttr g))
  | .empty n as => .empty n (as.map (relabelAttr g))
  | e => e

def relabel (r : Reader) : Reader := r.map (Except.map (relabelEvent g))

mutual

def renameValue : PayloadValue F → PayloadValue F
  | .record fields => .record (renameFields fields)
  | .seq items => .seq (renameItems items)
  | .text s => .text s
  | .uint n => .uint n
  | .sint n => .sint n
  | .real x => .real x
  | .boolean b => .boolean b
  | .blob bytes => .blob bytes
  | .nil => .nil

def renameFields : List (PayloadField F) → List (PayloadField F)
  | [] => []
  | (name, value) :: fields => (g name, renameValue value) :: renameFields fields

def renameItems : List (PayloadValue F) → List (PayloadValue F)
  | [] => []
  | v :: items => renameValue v :: renameItems items

end

def renamePayload (p : Payload F) : Payload F := ⟨g p.tag, renameValue g p.value⟩

def renameEnvelope (env : Envelope F) : Envelope F := ⟨env.header, renamePayload g env.payload⟩

theorem renameEnvelope_eq_iff {env out : Envelope F} : renameEnvelope g env = out ↔
    env.header = out.header ∧ g env.payload.tag = out.payload.tag ∧
      renameValue g env.payload.value = out.payload.value := by
  obtain ⟨header, ⟨tag, v⟩⟩ := out
  simp [renameEnvelope, renamePayload]

def renameDraft (d : Draft F) : Draft F := { d with payload := d.payload.map (renamePayload g) }

/-- One result is the other with its value replaced, or both are errors. -/
inductive Follows {α β : Type} (φ : α → β) : Except Fault α → Except Fault β → Prop where
  | ok (a : α) : Follows φ (.ok a) (.ok (φ a))
  | error (e e' : Fault) : Follows φ (.error e) (.error e')

theorem Follows.or {α β : Type} {φ : α → β} {x : Except Fault α} {y : Except Fault β}
    (h : Follows φ x y) :
    (∃ a, x = .ok a ∧ y = .ok (φ a)) ∨ ∃ e e', x = .error e ∧ y = .error e' := by
  cases h with
  | ok a => exact Or.inl ⟨a, rfl, rfl⟩
  | error e e' => exact Or.inr ⟨e, e', rfl, rfl⟩

theorem Follows.map {α β γ δ : Type} {φ : α → β} {x : Except Fault α} {y : Except Fault β}
    (h : Follows φ x y) {f : α → γ} {f' : β → δ} {ψ : γ → δ} (hf : ∀ a, f' (φ a) = ψ (f a)) :
    Follows ψ (x.map f) (y.map f') := by
  cases h with
  | ok a =>
    change Follows ψ (.ok (f a)) (.ok (f' (φ a)))
    rw [hf]
    exact .ok _
  | error e e' => exact .error e e'

theorem Follows.refl {α : Type} {φ : α → α} {x : Except Fault α}
    (h : ∀ a, x = .ok a → φ a = a) : Follows φ x x := by
  cases x with
  | error e => exact .error e e
  | ok a =>
    have ha : Follows φ (.ok a) (.ok (φ a)) := .ok a
    rwa [h a rfl] at ha

theorem Follows.eq_ok {α β : Type} {φ : α → β} {x : Except Fault α} {y : Except Fault β}
    (h : Follows φ x y) {b : β} : y = .ok b ↔ ∃ a, x = .ok a ∧ φ a = b := by
  cases h with
  | ok a => simp
  | error e e' => simp

/-! ## Attributes -/

variable {g}

theorem relabelAttr_fst (a : Bytes × String) : (relabelAttr g a).1 = a.1 := by
  unfold relabelAttr
  split_ifs <;> rfl

theorem getAttr_relabel (as : List (Bytes × String)) (key : String) :
    getAttr (as.map (relabelAttr g)) key =
      (as.find? fun a => a.1 = utf8 key).map fun a => (relabelAttr g a).2 := by
  rw [getAttr, List.find?_map, Option.map_map]
  simp only [Function.comp_def, relabelAttr_fst]

theorem attrText_kind (as : List (Bytes × String)) :
    attrText (as.map (relabelAttr g)) "k" = attrText as "k" := by
  rw [attrText, attrText, getAttr_relabel, getAttr]
  cases h : as.find? fun a => a.1 = utf8 "k" with
  | none => rfl
  | some a =>
    have ha := List.find?_some h
    rw [decide_eq_true_eq] at ha
    simp [relabelAttr, ha]

theorem attrText_name (hg : g "" = "") (as : List (Bytes × String)) {key : String}
    (hk : key ≠ "k") : attrText (as.map (relabelAttr g)) key = g (attrText as key) := by
  rw [attrText, attrText, getAttr_relabel, getAttr]
  cases h : as.find? fun a => a.1 = utf8 key with
  | none => exact hg.symm
  | some a =>
    have ha := List.find?_some h
    rw [decide_eq_true_eq] at ha
    have hne : a.1 ≠ utf8 "k" := by
      rw [ha, ne_eq, utf8_inj]
      exact hk
    simp [relabelAttr, hne]

/-! ## Steps -/

/-- What a step returns beside the rest of the reader is replaced too. -/
def both {α : Type} (g : String → String) (φ : α → α) (p : α × Reader) : α × Reader :=
  (φ p.1, relabel g p.2)

theorem readScalar_follows (acc : String) (r : Reader) :
    Follows (both g id) (readScalar acc r) (readScalar acc (relabel g r)) := by
  induction r generalizing acc with
  | nil => exact .error _ _
  | cons x r ih =>
    change Follows _ _ (readScalar acc (x.map (relabelEvent g) :: relabel g r))
    cases x with
    | error e => exact .error _ _
    | ok ev =>
      cases ev with
      | start n as => exact ih acc
      | empty n as => exact ih acc
      | other => exact ih acc
      | text t =>
        cases t with
        | error e => exact .error _ _
        | ok s => exact ih (acc ++ s)
      | stop n =>
        change Follows _ (readScalar acc (.ok (.stop n) :: r))
          (readScalar acc (.ok (.stop n) :: relabel g r))
        rw [readScalar, readScalar]
        split_ifs
        · exact .ok (acc, r)
        · exact ih acc

theorem expectEnd_follows (name : Bytes) (r : Reader) :
    Follows (relabel g) (expectEnd name r) (expectEnd name (relabel g r)) := by
  induction r with
  | nil => exact .error _ _
  | cons x r ih =>
    change Follows _ _ (expectEnd name (x.map (relabelEvent g) :: relabel g r))
    cases x with
    | error e => exact .error _ _
    | ok ev =>
      cases ev with
      | start n as => exact .error _ _
      | empty n as => exact .error _ _
      | other => exact .error _ _
      | text t => exact ih
      | stop n =>
        change Follows _ (expectEnd name (.ok (.stop n) :: r))
          (expectEnd name (.ok (.stop n) :: relabel g r))
        rw [expectEnd, expectEnd]
        split_ifs
        · exact .ok r
        · exact .error _ _

theorem renameFields_concat (fields : List (PayloadField F)) (name : String)
    (value : PayloadValue F) : renameFields g (fields ++ [(name, value)]) =
      renameFields g fields ++ [(g name, renameValue g value)] := by
  induction fields with
  | nil => rfl
  | cons f fields ih =>
    change (g f.1, renameValue g f.2) :: renameFields g (fields ++ [(name, value)]) = _
    rw [ih]
    rfl

theorem renameItems_concat (items : List (PayloadValue F)) (v : PayloadValue F) :
    renameItems g (items ++ [v]) = renameItems g items ++ [renameValue g v] := by
  induction items with
  | nil => rfl
  | cons w items ih =>
    change renameValue g w :: renameItems g (items ++ [v]) = _
    rw [ih]
    rfl

theorem emptyValue_rename (kind : String) :
    renameValue g (emptyValue kind : PayloadValue F) = emptyValue kind := by
  unfold emptyValue
  split_ifs <;> rfl

theorem scalarValue_rename {kind s : String} {v : PayloadValue F}
    (h : scalarValue P kind s = .ok v) : renameValue g v = v := by
  unfold scalarValue at h
  split_ifs at h
  · cases h
    rfl
  · split at h <;> cases h
    rfl
  · split at h <;> cases h
    rfl
  · split at h <;> cases h
    rfl
  · cases h
    rfl
  · obtain ⟨bytes, _, rfl⟩ := map_eq_ok h
    rfl
  · cases h
    rfl

/-- Reading with so much fuel follows the replaced names. -/
structure Commutes (P : Platform F) (g : String → String) (n : ℕ) : Prop where
  expect (r : Reader) : Follows (both g (renameValue g)) (expectValue P n r)
    (expectValue P n (relabel g r))
  parse (kind : String) (r : Reader) : Follows (both g (renameValue g)) (parseValue P n kind r)
    (parseValue P n kind (relabel g r))
  fields (acc : List (PayloadField F)) (r : Reader) : Follows (both g (renameFields g))
    (recFields P n acc r) (recFields P n (renameFields g acc) (relabel g r))
  items (acc : List (PayloadValue F)) (r : Reader) : Follows (both g (renameItems g))
    (seqItems P n acc r) (seqItems P n (renameItems g acc) (relabel g r))

theorem Commutes.expect_succ {n : ℕ} (h : Commutes P g n) (r : Reader) :
    Follows (both g (renameValue g)) (expectValue P (n + 1) r)
      (expectValue P (n + 1) (relabel g r)) := by
  cases r with
  | nil => exact .error _ _
  | cons x r =>
    change Follows _ _ (expectValue P (n + 1) (x.map (relabelEvent g) :: relabel g r))
    cases x with
    | error e => exact .error _ _
    | ok ev =>
      cases ev with
      | start name as =>
        change Follows _ _ (expectValue P (n + 1)
          (.ok (.start name (as.map (relabelAttr g))) :: relabel g r))
        rw [expectValue, expectValue, attrText_kind]
        split_ifs
        · exact h.parse _ r
        · exact .error _ _
      | empty name as =>
        change Follows _ _ (expectValue P (n + 1)
          (.ok (.empty name (as.map (relabelAttr g))) :: relabel g r))
        rw [expectValue, expectValue, attrText_kind]
        split_ifs
        · have hv : Follows (both g (renameValue (F := F) g)) (.ok (emptyValue (attrText as "k"), r))
              (.ok (both g (renameValue g) (emptyValue (attrText as "k"), r))) := .ok _
          rwa [both, emptyValue_rename] at hv
        · exact .error _ _
      | text t => exact h.expect r
      | stop name => exact .error _ _
      | other => exact .error _ _

theorem Commutes.parse_succ {n : ℕ} (h : Commutes P g n) (kind : String) (r : Reader) :
    Follows (both g (renameValue g)) (parseValue P (n + 1) kind r)
      (parseValue P (n + 1) kind (relabel g r)) := by
  rw [parseValue, parseValue]
  split_ifs
  · exact (h.fields [] r).map fun p => rfl
  · exact (h.items [] r).map fun p => rfl
  · rcases (readScalar_follows (g := g) "" r).or with ⟨⟨s, r'⟩, hx, hy⟩ | ⟨e, e', hx, hy⟩
    · rw [hx, hy]
      have hs : Follows (renameValue g) (scalarValue P kind s) (scalarValue P kind s) :=
        Follows.refl fun v hv => scalarValue_rename hv
      exact hs.map fun v => rfl
    · rw [hx, hy]
      exact .error _ _
  · exact .error _ _

theorem Commutes.fields_succ (hg : g "" = "") {n : ℕ} (h : Commutes P g n)
    (acc : List (PayloadField F)) (r : Reader) : Follows (both g (renameFields g))
      (recFields P (n + 1) acc r) (recFields P (n + 1) (renameFields g acc) (relabel g r)) := by
  cases r with
  | nil => exact .error _ _
  | cons x r =>
    change Follows _ _
      (recFields P (n + 1) (renameFields g acc) (x.map (relabelEvent g) :: relabel g r))
    cases x with
    | error e => exact .error _ _
    | ok ev =>
      cases ev with
      | start name as =>
        change Follows _ _ (recFields P (n + 1) (renameFields g acc)
          (.ok (.start name (as.map (relabelAttr g))) :: relabel g r))
        rw [recFields, recFields, attrText_name hg as (by decide)]
        split_ifs
        · rcases (h.expect r).or with ⟨⟨v, r'⟩, hx, hy⟩ | ⟨e, e', hx, hy⟩
          · rw [hx, hy]
            dsimp only [both]
            rcases (expectEnd_follows (g := g) (utf8 "f") r').or with
              ⟨r'', hx', hy'⟩ | ⟨e, e', hx', hy'⟩
            · rw [hx', hy']
              have hnext := h.fields (acc ++ [(attrText as "n", v)]) r''
              rwa [renameFields_concat] at hnext
            · rw [hx', hy']
              exact .error _ _
          · rw [hx, hy]
            exact .error _ _
        · exact h.fields acc r
      | stop name =>
        change Follows _ _
          (recFields P (n + 1) (renameFields g acc) (.ok (.stop name) :: relabel g r))
        rw [recFields, recFields]
        split_ifs
        · exact .ok (acc, r)
        · exact h.fields acc r
      | empty name as => exact h.fields acc r
      | text t => exact h.fields acc r
      | other => exact h.fields acc r

theorem Commutes.items_succ {n : ℕ} (h : Commutes P g n) (acc : List (PayloadValue F))
    (r : Reader) : Follows (both g (renameItems g)) (seqItems P (n + 1) acc r)
      (seqItems P (n + 1) (renameItems g acc) (relabel g r)) := by
  cases r with
  | nil => exact .error _ _
  | cons x r =>
    change Follows _ _
      (seqItems P (n + 1) (renameItems g acc) (x.map (relabelEvent g) :: relabel g r))
    cases x with
    | error e => exact .error _ _
    | ok ev =>
      cases ev with
      | start name as =>
        change Follows _ _ (seqItems P (n + 1) (renameItems g acc)
          (.ok (.start name (as.map (relabelAttr g))) :: relabel g r))
        rw [seqItems, seqItems, attrText_kind]
        split_ifs
        · rcases (h.parse (attrText as "k") r).or with ⟨⟨v, r'⟩, hx, hy⟩ | ⟨e, e', hx, hy⟩
          · rw [hx, hy]
            have hnext := h.items (acc ++ [v]) r'
            rwa [renameItems_concat] at hnext
          · rw [hx, hy]
            exact .error _ _
        · exact h.items acc r
      | empty name as =>
        change Follows _ _ (seqItems P (n + 1) (renameItems g acc)
          (.ok (.empty name (as.map (relabelAttr g))) :: relabel g r))
        rw [seqItems, seqItems, attrText_kind]
        split_ifs
        · have hnext := h.items (acc ++ [emptyValue (attrText as "k")]) r
          rwa [renameItems_concat, emptyValue_rename] at hnext
        · exact h.items acc r
      | stop name =>
        change Follows _ _
          (seqItems P (n + 1) (renameItems g acc) (.ok (.stop name) :: relabel g r))
        rw [seqItems, seqItems]
        split_ifs
        · exact .ok (acc, r)
        · exact h.items acc r
      | text t => exact h.items acc r
      | other => exact h.items acc r

theorem commutes (hg : g "" = "") (n : ℕ) : Commutes P g n := by
  induction n with
  | zero =>
    exact ⟨fun r => .error _ _, fun kind r => .error _ _, fun acc r => .error _ _,
      fun acc r => .error _ _⟩
  | succ n ih => exact ⟨ih.expect_succ, ih.parse_succ, ih.fields_succ hg, ih.items_succ⟩

/-! ## The envelope -/

theorem readMeta_follows (field : Option Bytes) (m : MetaDraft) (r : Reader) :
    Follows (both g id) (readMeta field m r) (readMeta field m (relabel g r)) := by
  induction r generalizing field m with
  | nil => cases field <;> exact .error _ _
  | cons x r ih =>
    change Follows _ _ (readMeta field m (x.map (relabelEvent g) :: relabel g r))
    cases x with
    | error e => cases field <;> exact .error _ _
    | ok ev =>
      cases ev with
      | start name as =>
        cases field with
        | none => exact ih (some name) m
        | some f => exact ih (some name) m
      | empty name as =>
        cases field with
        | none => exact ih none m
        | some f => exact ih (some f) m
      | other =>
        cases field with
        | none => exact ih none m
        | some f => exact ih (some f) m
      | text t =>
        cases field with
        | none => exact ih none m
        | some f =>
          cases t with
          | error e => exact .error _ _
          | ok s =>
            change Follows _ (readMeta (some f) m (.ok (.text (.ok s)) :: r))
              (readMeta (some f) m (.ok (.text (.ok s)) :: relabel g r))
            rw [readMeta, readMeta]
            cases setField m f (trim s) with
            | error e => exact .error _ _
            | ok m' => exact ih (some f) m'
      | stop name =>
        change Follows _ (readMeta field m (.ok (.stop name) :: r))
          (readMeta field m (.ok (.stop name) :: relabel g r))
        cases field with
        | none =>
          rw [readMeta, readMeta]
          split_ifs
          · exact .ok (m, r)
          · exact ih none m
        | some f =>
          rw [readMeta, readMeta]
          split_ifs
          · exact .ok (m, r)
          · exact ih none m

theorem relabel_length (r : Reader) : (relabel g r).length = r.length := List.length_map _

theorem decodeLoop_follows (hg : g "" = "") (n : ℕ) (d : Draft F) (r : Reader) :
    Follows (renameDraft g) (decodeLoop P n d r)
      (decodeLoop P n (renameDraft g d) (relabel g r)) := by
  induction n generalizing d r with
  | zero => exact .error _ _
  | succ n ih =>
    cases r with
    | nil => exact .ok d
    | cons x r =>
      change Follows _ _
        (decodeLoop P (n + 1) (renameDraft g d) (x.map (relabelEvent g) :: relabel g r))
      cases x with
      | error e => exact .error _ _
      | ok ev =>
        cases ev with
        | start name as =>
          change Follows _ _ (decodeLoop P (n + 1) (renameDraft g d)
            (.ok (.start name (as.map (relabelAttr g))) :: relabel g r))
          rw [decodeLoop, decodeLoop, attrText_name hg as (by decide)]
          split_ifs
          · exact ih _ r
          · have hd : (renameDraft g d).header = d.header := rfl
            rw [hd]
            rcases (readMeta_follows (g := g) none d.header r).or with
              ⟨⟨m, r'⟩, hx, hy⟩ | ⟨e, e', hx, hy⟩
            · rw [hx, hy]
              exact ih _ r'
            · rw [hx, hy]
              exact .error _ _
          · rw [valueFuel, valueFuel, relabel_length]
            rcases ((commutes (P := P) hg (2 * r.length + 1)).expect r).or with
              ⟨⟨v, r'⟩, hx, hy⟩ | ⟨e, e', hx, hy⟩
            · rw [hx, hy]
              dsimp only [both]
              rcases (expectEnd_follows (g := g) (utf8 "payload") r').or with
                ⟨r'', hx', hy'⟩ | ⟨e, e', hx', hy'⟩
              · rw [hx', hy']
                exact ih _ r''
              · rw [hx', hy']
                exact .error _ _
            · rw [hx, hy]
              exact .error _ _
          · exact .error _ _
        | stop name =>
          change Follows _ _
            (decodeLoop P (n + 1) (renameDraft g d) (.ok (.stop name) :: relabel g r))
          rw [decodeLoop, decodeLoop]
          split_ifs
          · exact .ok d
          · exact ih d r
        | empty name as => exact ih d r
        | text t => exact ih d r
        | other => exact ih d r

theorem finish_follows (d : Draft F) :
    Follows (renameEnvelope g) d.finish (renameDraft g d).finish := by
  obtain ⟨⟨a, b, thread, p⟩, payload, found⟩ := d
  cases found with
  | false => exact .error _ _
  | true =>
    cases a with
    | none => exact .error _ _
    | some a =>
      cases thread with
      | none => exact .error _ _
      | some thread =>
        cases payload with
        | none => exact .error _ _
        | some payload => exact .ok (⟨⟨a, b, thread, p⟩, payload⟩ : Envelope F)

theorem decodeReader_follows (hg : g "" = "") (r : Reader) :
    Follows (renameEnvelope g) (decodeReader P r) (decodeReader P (relabel g r)) := by
  have hloop := decodeLoop_follows (P := P) hg (r.length + 1) .blank r
  rw [decodeReader, decodeReader, relabel_length]
  have hblank : renameDraft g (Draft.blank : Draft F) = .blank := rfl
  rw [hblank] at hloop
  rcases hloop.or with ⟨d, hx, hy⟩ | ⟨e, e', hx, hy⟩
  · rw [hx, hy]
    exact finish_follows d
  · rw [hx, hy]
    exact .error _ _

end RustPipeline.Relabelling
