import RustPipeline.Error

set_option autoImplicit false

/-!
# Schema validation

Schemas, the check of a decoded value against one, and the registry that picks one by tag.
-/
namespace RustPipeline.Validation
open Wire

variable {F : Type}

structure FieldSchema where
  required : Bool
  deriving DecidableEq

/-- The fields are the entries of a map, in some order. -/
structure PayloadSchema where
  rootTag : String
  fields : List (String × FieldSchema)
  strict : Bool
  nodup : (fields.map Prod.fst).Nodup

def PayloadSchema.declares (s : PayloadSchema) (name : String) : Bool :=
  (s.fields.map Prod.fst).contains name

def presentNames : PayloadValue F → List String
  | .record fields => fields.map Prod.fst
  | _ => []

def validatePayloadValue (value : PayloadValue F) (schema : PayloadSchema) :
    Except PipelineError Unit :=
  let present := presentNames value
  match if schema.strict then present.find? (fun n => !schema.declares n) else none with
  | some n => .error (.validation (.unexpectedElement n schema.rootTag))
  | none =>
    match schema.fields.find? (fun f => f.2.required && !present.contains f.1) with
    | some f => .error (.validation (.missingElement f.1 schema.rootTag))
    | none => .ok ()

def permissiveSchema (rootTag : String) : PayloadSchema := ⟨rootTag, [], false, List.nodup_nil⟩

structure SchemaRegistry where
  schemas : String → Option PayloadSchema

namespace SchemaRegistry

def new : SchemaRegistry := ⟨fun _ => none⟩

def register (r : SchemaRegistry) (s : PayloadSchema) : SchemaRegistry :=
  ⟨Function.update r.schemas s.rootTag (some s)⟩

/-- The schema a tag is checked against. -/
def inForce (r : SchemaRegistry) (tag : String) : PayloadSchema :=
  (r.schemas tag).getD (permissiveSchema tag)

def validateValue (r : SchemaRegistry) (tag : String) (value : PayloadValue F) :
    Except PipelineError Unit :=
  match r.schemas tag with
  | some schema => validatePayloadValue value schema
  | none => validatePayloadValue value (permissiveSchema tag)

theorem validateValue_eq (r : SchemaRegistry) (tag : String) (value : PayloadValue F) :
    r.validateValue tag value = validatePayloadValue value (r.inForce tag) := by
  unfold validateValue inForce
  cases r.schemas tag <;> rfl

end SchemaRegistry

/-! ## What a schema accepts -/

def Requires (s : PayloadSchema) (name : String) : Prop :=
  ∃ f, (name, f) ∈ s.fields ∧ f.required = true

def Declares (s : PayloadSchema) (name : String) : Prop := name ∈ s.fields.map Prod.fst

theorem Requires.declares {s : PayloadSchema} {name : String} (h : Requires s name) :
    Declares s name := by
  obtain ⟨f, hf, _⟩ := h
  exact List.mem_map_of_mem hf

theorem declares_iff (s : PayloadSchema) (name : String) :
    s.declares name = true ↔ Declares s name := by
  rw [PayloadSchema.declares, List.contains_iff_mem, Declares]

theorem validatePayloadValue_ok_iff (value : PayloadValue F) (s : PayloadSchema) :
    validatePayloadValue value s = .ok () ↔
      (s.strict = true → ∀ n ∈ presentNames value, Declares s n) ∧
        ∀ n, Requires s n → n ∈ presentNames value := by
  have hstrict : (if s.strict then (presentNames value).find? (fun n => !s.declares n) else none) =
      none ↔ (s.strict = true → ∀ n ∈ presentNames value, Declares s n) := by
    cases s.strict with
    | false => simp
    | true => simp [declares_iff]
  have hrequired : s.fields.find? (fun f => f.2.required && !(presentNames value).contains f.1) =
      none ↔ ∀ n, Requires s n → n ∈ presentNames value := by
    rw [List.find?_eq_none]
    constructor
    · rintro h n ⟨f, hf, hr⟩
      have := h (n, f) hf
      simpa [hr] using this
    · rintro h ⟨n, f⟩ hf
      by_cases hr : f.required = true
      · simpa [hr] using h n ⟨f, hf, hr⟩
      · simp [hr]
  rw [← hstrict, ← hrequired]
  unfold validatePayloadValue
  dsimp only
  cases (if s.strict then (presentNames value).find? (fun n => !s.declares n) else none) with
  | some n => simp
  | none =>
    cases s.fields.find? (fun f => f.2.required && !(presentNames value).contains f.1) with
    | some f => simp
    | none => simp

/-! ## Comparing schemas -/

/-- Every field the second schema asks for is asked for, and what it excludes is excluded. -/
def AtLeastAsStrict (s' s : PayloadSchema) : Prop :=
  (∀ n, Requires s n → Requires s' n) ∧
    (s.strict = true → s'.strict = true ∧ ∀ n, Declares s' n → Declares s n)

theorem AtLeastAsStrict.refl (s : PayloadSchema) : AtLeastAsStrict s s :=
  ⟨fun _ h => h, fun h => ⟨h, fun _ h => h⟩⟩

/-- A record that holds exactly the named fields. -/
def recordOf (names : List String) : PayloadValue F := .record (names.map fun n => (n, .nil))

theorem presentNames_recordOf (names : List String) :
    presentNames (recordOf names : PayloadValue F) = names := by
  simp [presentNames, recordOf, Function.comp_def]

def requiredNames (s : PayloadSchema) : List String :=
  (s.fields.filter fun f => f.2.required).map Prod.fst

theorem mem_requiredNames (s : PayloadSchema) (n : String) :
    n ∈ requiredNames s ↔ Requires s n := by
  simp [requiredNames, Requires]

theorem recordOf_accepted {s : PayloadSchema} {extra : List String}
    (h : s.strict = true → ∀ n ∈ extra, Declares s n) :
    validatePayloadValue (recordOf (requiredNames s ++ extra) : PayloadValue F) s = .ok () := by
  rw [validatePayloadValue_ok_iff, presentNames_recordOf]
  constructor
  · intro hs n hn
    rw [List.mem_append, mem_requiredNames] at hn
    rcases hn with hn | hn
    · exact hn.declares
    · exact h hs n hn
  · intro n hn
    exact List.mem_append_left extra ((mem_requiredNames s n).mpr hn)

/-- One schema accepts no more values than another exactly when it is at least as strict. -/
theorem atLeastAsStrict_iff (s' s : PayloadSchema) :
    (∀ v : PayloadValue F, validatePayloadValue v s' = .ok () → validatePayloadValue v s = .ok ()) ↔
      AtLeastAsStrict s' s := by
  constructor
  · intro h
    have hacc (extra : List String) (he : s'.strict = true → ∀ n ∈ extra, Declares s' n) :=
      (validatePayloadValue_ok_iff _ s).mp (h _ (recordOf_accepted he))
    simp only [presentNames_recordOf] at hacc
    constructor
    · intro n hn
      have hmem := (hacc [] (fun _ _ hm => absurd hm List.not_mem_nil)).2 n hn
      rw [List.append_nil, mem_requiredNames] at hmem
      exact hmem
    · intro hs
      have hstrict : s'.strict = true := by
        by_contra hlax
        obtain ⟨n, hn⟩ := Infinite.exists_notMem_finset (s.fields.map Prod.fst).toFinset
        have hd := (hacc [n] (fun he => absurd he hlax)).1 hs n
          (List.mem_append_right _ (List.mem_singleton.mpr rfl))
        exact hn (List.mem_toFinset.mpr hd)
      refine ⟨hstrict, fun n hn => ?_⟩
      have he : s'.strict = true → ∀ m ∈ [n], Declares s' m := by
        intro _ m hm
        rw [List.mem_singleton.mp hm]
        exact hn
      exact (hacc [n] he).1 hs n (List.mem_append_right _ (List.mem_singleton.mpr rfl))
  · rintro ⟨hreq, hstrict⟩ v hv
    rw [validatePayloadValue_ok_iff] at hv ⊢
    constructor
    · intro hs n hn
      exact (hstrict hs).2 n (hv.1 (hstrict hs).1 n hn)
    · intro n hn
      exact hv.2 n (hreq n hn)

end RustPipeline.Validation
