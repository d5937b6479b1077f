import RustPipeline.Foundation.Text

set_option autoImplicit false

/-!
# Texts joined at a separator

`str::split` and `[str]::join` for a one-character separator. Appending a part to a joined text
and cutting the last part off again are inverse exactly when the part is free of the separator.
-/
namespace RustPipeline.Separated

/-- `s.split(sep).collect()`. -/
def split (sep : Char) (s : String) : List String := (s.toList.splitOn sep).map String.ofList

/-- `parts.join(sep)`. -/
def join (sep : Char) (parts : List String) : String :=
  String.ofList ([sep].intercalate (parts.map String.toList))

variable {sep : Char}

theorem split_ne_nil (sep : Char) (s : String) : split sep s ≠ [] := by
  simp [split]

theorem join_split (sep : Char) (s : String) : join sep (split sep s) = s := by
  have h : (split sep s).map String.toList = s.toList.splitOn sep := by
    simp [split, List.map_map, Function.comp_def]
  rw [join, h, List.intercalate_splitOn, String.ofList_toList]

theorem split_of_notMem {s : String} (h : sep ∉ s.toList) : split sep s = [s] := by
  rw [split, List.splitOn_eq_singleton h, List.map_singleton, String.ofList_toList]

theorem split_append (s t : String) :
    split sep (s ++ String.singleton sep ++ t) = split sep s ++ split sep t := by
  have h : (s ++ String.singleton sep ++ t).toList = s.toList ++ sep :: t.toList := by simp
  rw [split, h, List.splitOn_append_cons_self, List.map_append]
  rfl

theorem split_append_part {s t : String} (h : sep ∉ t.toList) :
    split sep (s ++ String.singleton sep ++ t) = split sep s ++ [t] := by
  rw [split_append, split_of_notMem h]

/-- A text that holds the separator splits around its last occurrence. -/
theorem exists_last_part {t : String} (h : sep ∈ t.toList) :
    ∃ a b, t = a ++ String.singleton sep ++ b ∧ sep ∉ b.toList := by
  obtain ⟨b, a, hb, hn⟩ := List.eq_append_cons_of_mem (List.mem_reverse.mpr h)
  refine ⟨String.ofList a.reverse, String.ofList b.reverse, ?_, by simpa using hn⟩
  have ht : t.toList = a.reverse ++ sep :: b.reverse := by
    have := congrArg List.reverse hb
    simpa using this
  rw [← String.toList_inj]
  simp [ht]

theorem length_split_of_mem {t : String} (h : sep ∈ t.toList) : 2 ≤ (split sep t).length := by
  obtain ⟨a, b, rfl, hb⟩ := exists_last_part h
  rw [split_append_part hb, List.length_append, List.length_singleton]
  have := List.length_pos_iff.mpr (split_ne_nil sep a)
  omega

theorem mem_iff_length_split {t : String} : sep ∈ t.toList ↔ 2 ≤ (split sep t).length := by
  refine ⟨length_split_of_mem, fun h => ?_⟩
  by_contra hn
  rw [split_of_notMem hn] at h
  simp at h

/-- The text with its last part and the separator before it cut off. -/
def parent (sep : Char) (s : String) : String := join sep (split sep s).dropLast

theorem parent_append_part (s : String) {t : String} (h : sep ∉ t.toList) :
    parent sep (s ++ String.singleton sep ++ t) = s := by
  rw [parent, split_append_part h, List.dropLast_concat, join_split]

/-- Cutting undoes appending exactly for the parts that are free of the separator. -/
theorem parent_append_iff (s t : String) :
    parent sep (s ++ String.singleton sep ++ t) = s ↔ sep ∉ t.toList := by
  refine ⟨fun h ht => ?_, parent_append_part s⟩
  obtain ⟨a, b, rfl, hb⟩ := exists_last_part ht
  have he : s ++ String.singleton sep ++ (a ++ String.singleton sep ++ b) =
      s ++ String.singleton sep ++ a ++ String.singleton sep ++ b := by
    simp only [String.append_assoc]
  rw [he, parent_append_part _ hb] at h
  have := congrArg (fun x => x.toList.length) h
  simp at this

/-! ## Two parts -/

/-- The first pair of parts joined, with the separator inside its first part taken for the one
    between the parts, is the second pair. -/
def Recut (sep : Char) (a b c d : String) : Prop :=
  ∃ w, a = c ++ String.singleton sep ++ w ∧ d = w ++ String.singleton sep ++ b

theorem Recut.ne {a b c d : String} (h : Recut sep a b c d) : a ≠ c := by
  obtain ⟨w, ha, _⟩ := h
  intro he
  have := congrArg (fun x => x.toList.length) (he.symm.trans ha)
  simp at this

theorem append_recut {a b c d : String} (h : Recut sep a b c d) :
    a ++ String.singleton sep ++ b = c ++ String.singleton sep ++ d := by
  obtain ⟨w, rfl, rfl⟩ := h
  simp only [String.append_assoc]

theorem append_eq_append_iff {a b c d : String} :
    a ++ String.singleton sep ++ b = c ++ String.singleton sep ++ d ↔
      (a = c ∧ b = d) ∨ Recut sep a b c d ∨ Recut sep c d a b := by
  constructor
  · intro h
    have hl : a.toList ++ sep :: b.toList = c.toList ++ sep :: d.toList := by
      have := congrArg String.toList h
      simpa using this
    have hback : ∀ {x y z w : String} {l : List Char}, x.toList = y.toList ++ sep :: l →
        z.toList = l ++ sep :: w.toList → Recut sep x w y z := by
      intro x y z w l hx hz
      refine ⟨.ofList l, ?_, ?_⟩
      · rw [← String.toList_inj, hx]
        simp
      · rw [← String.toList_inj, hz]
        simp
    rcases List.append_eq_append_iff.mp hl with ⟨l, hc, hb⟩ | ⟨l, ha, hd⟩
    · cases l with
      | nil =>
        rw [List.nil_append, List.cons.injEq] at hb
        rw [List.append_nil] at hc
        exact .inl ⟨(String.toList_inj.mp hc).symm, String.toList_inj.mp hb.2⟩
      | cons x l =>
        rw [List.cons_append, List.cons.injEq] at hb
        rw [← hb.1] at hc
        exact .inr (.inr (hback hc hb.2))
    · cases l with
      | nil =>
        rw [List.nil_append, List.cons.injEq] at hd
        rw [List.append_nil] at ha
        exact .inl ⟨String.toList_inj.mp ha, (String.toList_inj.mp hd.2).symm⟩
      | cons x l =>
        rw [List.cons_append, List.cons.injEq] at hd
        rw [← hd.1] at ha
        exact .inr (.inl (hback ha hd.2))
  · intro h
    rcases h with ⟨rfl, rfl⟩ | h | h
    · rfl
    · exact append_recut h
    · exact (append_recut h).symm

end RustPipeline.Separated
