import RustPipeline.CodecImage
import RustPipeline.Foundation.BitSet

set_option autoImplicit false

/-!
# Provenance as a set

The two words of a provenance value are one vector of 128 bits, so every operation is the one on
sets of labels below 128.
-/
namespace RustPipeline.ProvenanceSet
open Wire Provenance BitSet Codec

/-- The labels a provenance value carries. -/
def labels (p : Provenance) : Set UInt8 := {bit | p.containsBit bit = true}

/-- The labels there are. -/
def representable : Set UInt8 := {bit | bit < 128}

/-- Both words as one vector, the high one in front. -/
def bits (p : Provenance) : BitVec (64 + 64) := p.bitsHi.toBitVec ++ p.bitsLo.toBitVec

/-! ## One word -/

theorem mask_toBitVec {k : UInt64} (h : k < 64) :
    ((1 : UInt64) <<< k).toBitVec = BitVec.twoPow 64 k.toNat := by
  have hk : k.toNat % 64 = k.toNat := Nat.mod_eq_of_lt h
  apply BitVec.eq_of_toNat_eq
  rw [UInt64.toNat_toBitVec, UInt64.toNat_shiftLeft, hk, BitVec.toNat_twoPow, UInt64.toNat_one,
    Nat.one_shiftLeft]

theorem test_word (x k : UInt64) (h : k < 64) :
    (x &&& 1 <<< k != 0) = true ↔ k.toNat ∈ members x.toBitVec := by
  rw [bne_iff_ne, ne_eq, ← UInt64.toBitVec_inj, UInt64.toBitVec_and, mask_toBitVec h]
  exact and_twoPow_ne_zero_iff _ _

theorem small_toNat {bit : UInt8} (h : bit < 64) : bit.toUInt64 < 64 := by
  rw [UInt64.lt_iff_toNat_lt, UInt8.toNat_toUInt64]
  exact h

theorem sub_toNat {bit : UInt8} (h : ¬ bit < 64) : (bit - 64).toNat = bit.toNat - 64 := by
  rw [UInt8.toNat_sub_of_le]
  · rfl
  · exact UInt8.not_lt.mp h

theorem sub_lt {bit : UInt8} (h : ¬ bit < 64) (h' : bit < 128) : bit - 64 < 64 := by
  have hn : bit.toNat < 128 := h'
  rw [UInt8.lt_iff_toNat_lt, sub_toNat h]
  change bit.toNat - 64 < 64
  omega

/-! ## Both words -/

theorem bits_inj {p q : Provenance} : bits p = bits q ↔ p = q := by
  constructor
  · intro h
    obtain ⟨plo, phi⟩ := p
    obtain ⟨qlo, qhi⟩ := q
    have hlo := congrArg (BitVec.extractLsb' 0 64) h
    have hhi := congrArg (BitVec.extractLsb' 64 64) h
    simp only [bits, BitVec.extractLsb'_append_eq_right] at hlo
    simp only [bits, BitVec.extractLsb'_append_eq_left] at hhi
    rw [UInt64.toBitVec_inj] at hlo hhi
    rw [hlo, hhi]
  · intro h
    rw [h]

theorem containsBit_iff (p : Provenance) (bit : UInt8) :
    p.containsBit bit = true ↔ bit.toNat ∈ members (bits p) := by
  unfold containsBit
  rw [bits, mem_members_append]
  by_cases h : bit < 64
  · have hn : bit.toNat < 64 := h
    rw [if_pos h, test_word _ _ (small_toNat h), UInt8.toNat_toUInt64, if_pos hn]
  · have hn : ¬ bit.toNat < 64 := h
    rw [if_neg h, if_neg hn]
    by_cases h' : bit < 128
    · rw [if_pos h', test_word _ _ (small_toNat (sub_lt h h')), UInt8.toNat_toUInt64, sub_toNat h]
    · have hn' : ¬ bit.toNat < 128 := h'
      rw [if_neg h']
      refine iff_of_false Bool.false_ne_true fun hm => ?_
      have := lt_of_mem hm
      omega

theorem bits_empty : bits empty = 0#128 := rfl

theorem bits_union (p q : Provenance) : bits (p.union q) = bits p ||| bits q := by
  simp only [bits, union, UInt64.toBitVec_or, BitVec.or_append]

theorem bits_unionWith (p q : Provenance) : bits (p.unionWith q) = bits p ||| bits q :=
  bits_union p q

theorem bits_intersects (p q : Provenance) :
    p.intersects q = true ↔ bits p &&& bits q ≠ 0#128 := by
  have hz : (0#128 : BitVec (64 + 64)) = (0 : UInt64).toBitVec ++ (0 : UInt64).toBitVec := rfl
  have hand : bits p &&& bits q = bits ⟨p.bitsLo &&& q.bitsLo, p.bitsHi &&& q.bitsHi⟩ := by
    simp only [bits, UInt64.toBitVec_and, BitVec.and_append]
  rw [hand, ← bits_empty, ne_eq, bits_inj, intersects, Bool.or_eq_true, bne_iff_ne, bne_iff_ne,
    empty, Provenance.mk.injEq, not_and_or]

theorem isEmpty_iff (p : Provenance) : p.isEmpty = true ↔ bits p = 0#128 := by
  rw [← bits_empty, bits_inj]
  constructor
  · exact eq_empty_of_isEmpty
  · intro h
    rw [h]
    rfl

/-- A label of 128 and above is shifted out of the vector. -/
theorem bits_setBit (p : Provenance) (bit : UInt8) :
    bits (p.setBit bit) = bits p ||| BitVec.twoPow 128 bit.toNat := by
  apply members_inj.mp
  ext i
  rw [members_or, Set.mem_union, mem_members_twoPow]
  unfold setBit
  by_cases h : bit < 64
  · have hn : bit.toNat < 64 := h
    rw [if_pos h, bits, bits, mem_members_append, mem_members_append, UInt64.toBitVec_or,
      mask_toBitVec (small_toNat h), members_or, Set.mem_union, mem_members_twoPow,
      UInt8.toNat_toUInt64]
    split_ifs with hi
    · have hlt : bit.toNat < 128 := by omega
      tauto
    · have hne : bit.toNat ≠ i := by omega
      tauto
  · have hn : ¬ bit.toNat < 64 := h
    rw [if_neg h]
    by_cases h' : bit < 128
    · have hn' : bit.toNat < 128 := h'
      rw [if_pos h', bits, bits, mem_members_append, mem_members_append, UInt64.toBitVec_or,
        mask_toBitVec (small_toNat (sub_lt h h')), members_or, Set.mem_union, mem_members_twoPow,
        UInt8.toNat_toUInt64, sub_toNat h]
      split_ifs with hi
      · have hne : bit.toNat ≠ i := by omega
        tauto
      · have he : bit.toNat - 64 = i - 64 ↔ bit.toNat = i := by omega
        have hlt : bit.toNat - 64 < 64 := by omega
        tauto
    · have hn' : ¬ bit.toNat < 128 := h'
      rw [if_neg h']
      tauto

/-! ## Labels -/

theorem mem_labels (p : Provenance) (bit : UInt8) :
    bit ∈ labels p ↔ bit.toNat ∈ members (bits p) :=
  containsBit_iff p bit

theorem labels_subset (p : Provenance) : labels p ⊆ representable := by
  intro bit h
  exact lt_of_mem ((mem_labels p bit).mp h)

theorem members_bits (p : Provenance) : members (bits p) = UInt8.toNat '' labels p := by
  ext i
  constructor
  · intro hi
    have hlt := lt_of_mem hi
    have hb : (UInt8.ofNat i).toNat = i := by
      rw [UInt8.toNat_ofNat']
      omega
    refine ⟨UInt8.ofNat i, ?_, hb⟩
    rw [mem_labels, hb]
    exact hi
  · intro h
    obtain ⟨bit, hbit, rfl⟩ := h
    exact (mem_labels p bit).mp hbit

theorem toNat_injective : Function.Injective UInt8.toNat := fun _ _ => UInt8.toNat_inj.mp

theorem labels_eq_iff {p : Provenance} {s : Set UInt8} :
    labels p = s ↔ members (bits p) = UInt8.toNat '' s := by
  rw [members_bits, toNat_injective.image_injective.eq_iff]

/-- Equal sets, equal values. -/
theorem labels_inj {p q : Provenance} : labels p = labels q ↔ p = q := by
  rw [labels_eq_iff, ← members_bits, members_inj, bits_inj]

/-- Every set of representable labels is carried by some value. -/
theorem exists_labels {s : Set UInt8} (h : s ⊆ representable) : ∃ p, labels p = s := by
  have hlt : ∀ i ∈ UInt8.toNat '' s, i < 64 + 64 := by
    rintro i ⟨bit, hbit, rfl⟩
    exact h hbit
  obtain ⟨x, hx⟩ := exists_members hlt
  refine ⟨⟨⟨x.extractLsb' 0 64⟩, ⟨x.extractLsb' 64 64⟩⟩, ?_⟩
  rw [labels_eq_iff, ← hx, bits, BitVec.extractLsb'_append_extractLsb']

theorem labels_setBit (p : Provenance) (bit : UInt8) :
    labels (p.setBit bit) = if bit < 128 then insert bit (labels p) else labels p := by
  ext b
  have h : b ∈ labels (p.setBit bit) ↔ b ∈ labels p ∨ (bit.toNat < 128 ∧ bit = b) := by
    rw [mem_labels, bits_setBit, members_or, Set.mem_union, mem_members_twoPow, mem_labels,
      UInt8.toNat_inj]
  rw [h]
  split_ifs with hb
  · have hn : bit.toNat < 128 := hb
    rw [Set.mem_insert_iff, eq_comm (b := bit)]
    tauto
  · have hn : ¬ bit.toNat < 128 := hb
    tauto

theorem labels_union (p q : Provenance) : labels (p.union q) = labels p ∪ labels q := by
  ext b
  rw [Set.mem_union, mem_labels, bits_union, members_or, Set.mem_union, mem_labels, mem_labels]

theorem intersects_iff (p q : Provenance) :
    p.intersects q = true ↔ (labels p ∩ labels q).Nonempty := by
  rw [bits_intersects, ne_eq, eq_zero_iff, members_and,
    members_bits, members_bits, ← Set.image_inter toNat_injective, Set.image_eq_empty, ← ne_eq,
    Set.nonempty_iff_ne_empty]

theorem isEmpty_iff_labels (p : Provenance) : p.isEmpty = true ↔ labels p = ∅ := by
  rw [isEmpty_iff, eq_zero_iff, members_bits, Set.image_eq_empty]

/-- Provenance is a set of the labels below 128, on the wire as well. -/
theorem provenance_is_set (p q : Provenance) (bit : UInt8) :
    labels p ⊆ representable ∧ (labels p = labels q ↔ p = q) ∧
      labels (p.setBit bit) = (if bit < 128 then insert bit (labels p) else labels p) ∧
      labels (p.withBit bit) = (if bit < 128 then insert bit (labels p) else labels p) ∧
      labels (p.union q) = labels p ∪ labels q ∧ labels (p.unionWith q) = labels p ∪ labels q ∧
      (p.intersects q = true ↔ (labels p ∩ labels q).Nonempty) ∧
      (p.isEmpty = true ↔ labels p = ∅) ∧ provFromHex (provToHex p) = .ok p :=
  ⟨labels_subset p, labels_inj, labels_setBit p bit, labels_setBit p bit, labels_union p q,
    labels_union p q, intersects_iff p q, isEmpty_iff_labels p, CodecImage.provFromHex_provToHex p⟩

end RustPipeline.ProvenanceSet
