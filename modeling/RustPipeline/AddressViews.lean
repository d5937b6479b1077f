import RustPipeline.Wire

set_option autoImplicit false

/-!
# The views of an address

All of them hang on the index of the organism, which cutting the address behind the organism
leaves where it is. Only the cut itself needs a segment to be there.
-/
namespace RustPipeline.AddressViews
open Wire Address

theorem organismIndex_instanceAddress (a : Address) :
    a.instanceAddress.organismIndex = a.organismIndex := by
  have hsplit := List.take_append_drop (a.organismIndex + 1) a.segments
  have hp : a.instanceAddress.segments <+: a.segments := List.take_prefix _ _
  have hi : a.organismIndex = (a.segments.findIdx? fun s => s.key.isSome).getD 0 := rfl
  change (a.instanceAddress.segments.findIdx? fun s => s.key.isSome).getD 0 = _
  cases h : a.segments.findIdx? fun s => s.key.isSome with
  | none =>
    rw [hi, h, hp.findIdx?_eq_none h]
  | some i =>
    rw [h, Option.getD_some] at hi
    rw [hi]
    cases hc : a.instanceAddress.segments.findIdx? fun s => s.key.isSome with
    | some j =>
      have hj := hp.findIdx?_eq_some hc
      rw [h, Option.some_inj] at hj
      exact hj.symm
    | none =>
      -- The cut is behind the index, so the key found there is not cut off.
      rw [← hsplit, List.findIdx?_append] at h
      change (a.instanceAddress.segments.findIdx? _).or _ = _ at h
      rw [hc, Option.none_or, Option.map_eq_some_iff] at h
      obtain ⟨k, hk, hki⟩ := h
      have hl := (List.findIdx?_eq_some_iff_getElem.mp hk).choose
      rw [List.length_drop] at hl
      rw [List.length_take] at hki
      omega

theorem segment_instanceAddress (a : Address) :
    a.instanceAddress.segments[a.organismIndex]? = a.segments[a.organismIndex]? := by
  change (a.segments.take (a.organismIndex + 1))[a.organismIndex]? = _
  rw [List.getElem?_take, if_pos (Nat.lt_succ_self _)]

theorem namespaceName_isSome (a : Address) : a.namespaceName.isSome = true := by
  unfold namespaceName
  split_ifs with h
  · cases hs : a.segments with
    | nil =>
      rw [organismIndex, hs] at h
      exact absurd h (by decide)
    | cons s rest => rfl
  · rfl

theorem namespaceName_instanceAddress (a : Address) :
    a.instanceAddress.namespaceName = a.namespaceName := by
  unfold namespaceName
  rw [organismIndex_instanceAddress]
  change (if _ then (a.segments.take (a.organismIndex + 1))[0]?.map _ else _) = _
  rw [List.getElem?_take, if_pos (Nat.succ_pos _)]

theorem organismIndex_lt_iff (a : Address) :
    a.organismIndex < a.segments.length ↔ a.segments ≠ [] := by
  constructor
  · intro h he
    rw [he] at h
    exact absurd h (Nat.not_lt_zero _)
  · intro h
    unfold organismIndex
    cases hi : a.segments.findIdx? fun s => s.key.isSome with
    | none => exact List.length_pos_iff.mpr h
    | some i => exact (List.findIdx?_eq_some_iff_getElem.mp hi).choose

theorem instanceAddress_idem (a : Address) :
    a.instanceAddress.instanceAddress = a.instanceAddress := by
  rw [instanceAddress, organismIndex_instanceAddress, instanceAddress, List.take_take,
    Nat.min_self]

/-- Every view returns, and they fit together: the instance address keeps what names the instance,
    and with the buffer and what is behind it makes up the address. -/
structure Consistent (a i : Address) : Prop where
  cut : a.instanceAddressOrPanic = some i
  again : i.instanceAddressOrPanic = some i
  namespaceReturns : a.namespaceName.isSome = true
  organism : i.organism = a.organism
  instanceKey : i.instanceKey = a.instanceKey
  namespaceName : i.namespaceName = a.namespaceName
  cacheKeys : i.cacheKeys = a.cacheKeys
  noBuffer : i.buffer = none
  whole : a.segments = i.segments ++ a.buffer.toList ++ a.segments.drop (a.organismIndex + 2)

theorem consistent_instanceAddress {a : Address} (h : a.segments ≠ []) :
    Consistent a a.instanceAddress := by
  have hl := (organismIndex_lt_iff a).mpr h
  have hi := organismIndex_instanceAddress a
  have hs := segment_instanceAddress a
  refine ⟨if_pos hl, ?_, namespaceName_isSome a, ?_, ?_, namespaceName_instanceAddress a, ?_, ?_,
    ?_⟩
  · rw [instanceAddressOrPanic, hi, instanceAddress_idem, if_pos]
    change a.organismIndex < (a.segments.take (a.organismIndex + 1)).length
    rw [List.length_take]
    omega
  · rw [Address.organism, hi, hs, Address.organism]
  · rw [Address.instanceKey, hi, hs, Address.instanceKey]
  · rw [Address.cacheKeys, hi, hs, Address.cacheKeys]
  · rw [buffer, hi, List.getElem?_eq_none_iff]
    change (a.segments.take (a.organismIndex + 1)).length ≤ _
    rw [List.length_take]
    omega
  · change _ = a.segments.take (a.organismIndex + 1) ++ a.segments[a.organismIndex + 1]?.toList ++ _
    rw [← List.take_add_one, List.take_append_drop]

theorem Consistent.segments_ne_nil {a i : Address} (h : Consistent a i) : a.segments ≠ [] := by
  have hcut := h.cut
  unfold instanceAddressOrPanic at hcut
  split_ifs at hcut with hl
  exact (organismIndex_lt_iff a).mp hl

/-- The views of an address fit together unless it has no segments; then the slice of
    `instance_address` is out of range. -/
theorem views_consistent_iff (a : Address) : (∃ i, Consistent a i) ↔ a.segments ≠ [] := by
  constructor
  · intro h
    obtain ⟨i, hc⟩ := h
    exact hc.segments_ne_nil
  · intro h
    exact ⟨a.instanceAddress, consistent_instanceAddress h⟩

theorem views_not_consistent : ¬ ∀ a : Address, ∃ i, Consistent a i := by
  intro h
  obtain ⟨i, hc⟩ := h ⟨[]⟩
  exact hc.segments_ne_nil rfl

end RustPipeline.AddressViews
