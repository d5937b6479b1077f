import RustPipeline.PythonAddress

set_option autoImplicit false

/-!
# The parts of an address text

Both readers cut a text at the dots outside brackets. What each makes of a part, and which texts
each accepts, is said here about the parts alone.
-/
namespace RustPipeline.AddressParts
open Text Wire AddressText PythonAddress

/-- The parts between the dots outside brackets, or none where the brackets do not pair. The
    first argument counts the brackets that are open, the second is the part being read. -/
def parts : ℕ → List Char → List Char → Option (List (List Char))
  | depth, current, [] => if depth = 0 then some [current] else none
  | depth, current, c :: cs =>
    if c = '[' then parts (depth + 1) (current ++ [c]) cs
    else if c = ']' then if depth = 0 then none else parts (depth - 1) (current ++ [c]) cs
    else if c = '.' ∧ depth = 0 then (parts depth [] cs).map (current :: ·)
    else parts depth (current ++ [c]) cs

/-- What stands outside the brackets of a part and inside the last of them, whether its end is
    inside, and whether a bracket opens inside another. -/
structure Outline where
  outside : List Char
  lastKey : Option (List Char)
  inside : Bool
  nested : Bool

def Outline.blank : Outline := ⟨[], none, false, false⟩

def Outline.step (o : Outline) (c : Char) : Outline :=
  if c = '[' then { o with lastKey := some [], inside := true, nested := o.nested || o.inside }
  else if c = ']' then { o with inside := false }
  else if o.inside then { o with lastKey := o.lastKey.map (· ++ [c]) }
  else { o with outside := o.outside ++ [c] }

def outline (part : List Char) : Outline := part.foldl Outline.step .blank

theorem outline_concat (part : List Char) (c : Char) :
    outline (part ++ [c]) = (outline part).step c := by
  rw [outline, List.foldl_append]
  rfl

theorem step_nested {o : Outline} (h : o.nested = true) (c : Char) :
    (o.step c).nested = true := by
  unfold Outline.step
  split_ifs
  · simp [h]
  · exact h
  · exact h
  · exact h

theorem nested_append {part : List Char} (h : (outline part).nested = true) (cs : List Char) :
    (outline (part ++ cs)).nested = true := by
  induction cs generalizing part with
  | nil => rwa [List.append_nil]
  | cons c cs ih =>
    rw [← List.singleton_append, ← List.append_assoc]
    refine ih ?_
    rw [outline_concat]
    exact step_nested h c

/-- The first part begins with what has been read of it. -/
theorem parts_head {depth : ℕ} {current cs : List Char} {ps : List (List Char)}
    (h : parts depth current cs = some ps) : ∃ more rest, ps = (current ++ more) :: rest := by
  induction cs generalizing depth current ps with
  | nil =>
    rw [parts] at h
    split_ifs at h
    rw [Option.some_inj] at h
    exact ⟨[], [], by rw [← h, List.append_nil]⟩
  | cons c cs ih =>
    rw [parts] at h
    split_ifs at h
    · obtain ⟨more, rest, hp⟩ := ih h
      exact ⟨c :: more, rest, by rw [hp, List.append_assoc]; rfl⟩
    · obtain ⟨more, rest, hp⟩ := ih h
      exact ⟨c :: more, rest, by rw [hp, List.append_assoc]; rfl⟩
    · obtain ⟨rest, _, hp⟩ := Option.map_eq_some_iff.mp h
      exact ⟨[], rest, by rw [← hp, List.append_nil]⟩
    · obtain ⟨more, rest, hp⟩ := ih h
      exact ⟨c :: more, rest, by rw [hp, List.append_assoc]; rfl⟩

/-! ## The Rust reader -/

/-- A part that begins with a name and ends with its bracket, if it has any. -/
structure Closed (part : List Char) : Prop where
  ne : part ≠ []
  head : part.head? ≠ some '['
  last : '[' ∈ part → part.getLast? = some ']'

/-- The segment of a part: cut at the first bracket. -/
def segmentOf (part : List Char) : Segment :=
  match part.dropWhile (· != '[') with
  | [] => ⟨.ofList part, none⟩
  | _ :: rest => ⟨.ofList (part.takeWhile (· != '[')), some (.ofList rest.dropLast)⟩

theorem takeWhile_eq_nil_iff_head {part : List Char} (hne : part ≠ []) :
    part.takeWhile (· != '[') = [] ↔ part.head? = some '[' := by
  cases part with
  | nil => exact absurd rfl hne
  | cons c cs =>
    rw [List.takeWhile_cons, List.head?_cons, Option.some_inj]
    by_cases h : c = '['
    · simp [h]
    · simp [h]

theorem parseSegment_ok_iff (part : List Char) (whole : String) (s : Segment) :
    Address.parseSegment part whole = .ok s ↔ Closed part ∧ s = segmentOf part := by
  unfold Address.parseSegment segmentOf
  by_cases hne : part = []
  · rw [if_pos hne]
    exact iff_of_false (by simp) fun h => h.1.ne hne
  rw [if_neg hne]
  have hmem : '[' ∈ part ↔ part.dropWhile (· != '[') ≠ [] := by
    rw [ne_eq, List.dropWhile_eq_nil_iff]
    constructor
    · intro h hall
      simpa using hall '[' h
    · intro h
      by_contra hn
      exact h fun c hc => by simpa using fun he : c = '[' => hn (he ▸ hc)
  cases hd : part.dropWhile (· != '[') with
  | nil =>
    have hno : '[' ∉ part := fun hm => hmem.mp hm hd
    have hcl : Closed part := by
      refine ⟨hne, fun hh => ?_, fun hm => absurd hm hno⟩
      exact hno (List.mem_of_mem_head? hh)
    dsimp only
    rw [Except.ok.injEq]
    exact ⟨fun h => ⟨hcl, h.symm⟩, fun h => h.2.symm⟩
  | cons c rest =>
    dsimp only
    have hin : '[' ∈ part := hmem.mpr (by rw [hd]; exact List.cons_ne_nil c rest)
    split_ifs with hname hlast
    · refine iff_of_false (by simp) fun h => h.1.head ?_
      exact (takeWhile_eq_nil_iff_head hne).mp hname
    · rw [Except.ok.injEq]
      have hcl : Closed part :=
        ⟨hne, fun hh => hname ((takeWhile_eq_nil_iff_head hne).mpr hh), fun _ => hlast⟩
      exact ⟨fun h => ⟨hcl, h.symm⟩, fun h => h.2.symm⟩
    · exact iff_of_false (by simp) fun h => hlast (h.1.last hin)

theorem scan_ok_iff (whole : String) (cs : List Char) (depth : ℕ) (current : List Char)
    (segments out : List Segment) :
    Address.scan whole cs depth current segments = .ok out ↔ ∃ ps,
      parts depth current cs = some ps ∧ (∀ p ∈ ps, Closed p) ∧
        out = segments ++ ps.map segmentOf := by
  induction cs generalizing depth current segments with
  | nil =>
    rw [Address.scan, parts]
    by_cases hd : depth = 0
    · rw [if_neg (not_not.mpr hd), if_pos hd]
      constructor
      · intro h
        obtain ⟨s, hs, rfl⟩ := map_eq_ok h
        obtain ⟨hcl, rfl⟩ := (parseSegment_ok_iff _ _ _).mp hs
        exact ⟨[current], rfl, by simpa using hcl, rfl⟩
      · intro h
        obtain ⟨ps, hps, hcl, rfl⟩ := h
        rw [Option.some_inj] at hps
        subst hps
        rw [(parseSegment_ok_iff current whole _).mpr ⟨hcl _ List.mem_cons_self, rfl⟩]
        rfl
    · rw [if_pos hd, if_neg hd]
      simp
  | cons c cs ih =>
    rw [Address.scan, parts]
    split_ifs with h1 h2 h3 h4
    · exact ih _ _ _
    · simp
    · exact ih _ _ _
    · constructor
      · intro h
        cases hs : Address.parseSegment current whole with
        | error e => simp [hs] at h
        | ok s =>
          simp only [hs] at h
          obtain ⟨hcl, rfl⟩ := (parseSegment_ok_iff _ _ _).mp hs
          obtain ⟨ps, hps, hall, rfl⟩ := (ih _ _ _).mp h
          refine ⟨current :: ps, by rw [hps]; rfl, ?_, by simp⟩
          intro p hp
          rcases List.mem_cons.mp hp with rfl | hp
          · exact hcl
          · exact hall p hp
      · intro h
        obtain ⟨ps, hps, hall, rfl⟩ := h
        obtain ⟨rest, hrest, rfl⟩ := Option.map_eq_some_iff.mp hps
        rw [(parseSegment_ok_iff current whole _).mpr ⟨hall _ List.mem_cons_self, rfl⟩]
        refine (ih _ _ _).mpr ⟨rest, hrest, fun p hp => hall p (List.mem_cons_of_mem _ hp), ?_⟩
        simp
    · exact ih _ _ _

theorem parse_ok_iff {s : String} (hs : s ≠ "") (a : Address) :
    Address.parse s = .ok a ↔ ∃ ps, parts 0 [] s.toList = some ps ∧ (∀ p ∈ ps, Closed p) ∧
      a = ⟨ps.map segmentOf⟩ := by
  rw [Address.parse, if_neg hs]
  constructor
  · intro h
    obtain ⟨out, hout, rfl⟩ := map_eq_ok h
    obtain ⟨ps, hps, hcl, rfl⟩ := (scan_ok_iff _ _ _ _ _ _).mp hout
    exact ⟨ps, hps, hcl, rfl⟩
  · intro h
    obtain ⟨ps, hps, hcl, rfl⟩ := h
    rw [(scan_ok_iff s s.toList 0 [] [] _).mpr ⟨ps, hps, hcl, rfl⟩]
    rfl

/-! ## The Python reader -/

/-- The segment of a part: all that stands outside brackets, and the last of them. -/
def pySegment (part : List Char) : Segment :=
  ⟨.ofList (outline part).outside, (outline part).lastKey.map .ofList⟩

/-- A last part without a name is dropped. -/
def kept : List (List Char) → List (List Char)
  | [] => []
  | [p] => if (outline p).outside = [] then [] else [p]
  | p :: q :: ps => p :: kept (q :: ps)

/-- No bracket opens inside another, and only the last part may lack a name. -/
structure Readable (ps : List (List Char)) : Prop where
  flat : ∀ p ∈ ps, (outline p).nested = false
  named : ∀ p ∈ ps.dropLast, (outline p).outside ≠ []

theorem kept_cons (p : List Char) {ps : List (List Char)} (h : ps ≠ []) :
    kept (p :: ps) = p :: kept ps := by
  cases ps with
  | nil => exact absurd rfl h
  | cons q ps => rw [kept]

theorem readable_cons (p : List Char) {ps : List (List Char)} (h : ps ≠ []) :
    Readable (p :: ps) ↔
      ((outline p).nested = false ∧ (outline p).outside ≠ []) ∧ Readable ps := by
  constructor
  · intro hr
    refine ⟨⟨hr.flat p List.mem_cons_self, hr.named p ?_⟩, ?_, ?_⟩
    · rw [List.dropLast_cons_of_ne_nil h]
      exact List.mem_cons_self
    · exact fun q hq => hr.flat q (List.mem_cons_of_mem p hq)
    · intro q hq
      refine hr.named q ?_
      rw [List.dropLast_cons_of_ne_nil h]
      exact List.mem_cons_of_mem p hq
  · intro hr
    refine ⟨fun q hq => ?_, fun q hq => ?_⟩
    · rcases List.mem_cons.mp hq with rfl | hq
      · exact hr.1.1
      · exact hr.2.flat q hq
    · rw [List.dropLast_cons_of_ne_nil h] at hq
      rcases List.mem_cons.mp hq with rfl | hq
      · exact hr.1.2
      · exact hr.2.named q hq

theorem parts_ne_nil {depth : ℕ} {current cs : List Char} {ps : List (List Char)}
    (h : parts depth current cs = some ps) : ps ≠ [] := by
  obtain ⟨more, rest, hp⟩ := parts_head h
  rw [hp]
  exact List.cons_ne_nil _ _

/-- The state of the Python loop is the outline of the part it is reading. -/
theorem parseLoop_ok_iff (cs current : List Char) (segs out : List Segment)
    (hflat : (outline current).nested = false) :
    parseLoop cs (outline current).outside (outline current).lastKey (outline current).inside segs =
      .ok out ↔ ∃ ps, parts (outline current).inside.toNat current cs = some ps ∧ Readable ps ∧
        out = segs ++ (kept ps).map pySegment ∧ out ≠ [] := by
  induction cs generalizing current segs with
  | nil =>
    rw [parseLoop, parts]
    cases hin : (outline current).inside with
    | true => simp
    | false =>
      have hr : Readable [current] := ⟨by simpa using hflat, by simp⟩
      have hk : segs ++ (kept [current]).map pySegment = if (outline current).outside = [] then segs
          else segs ++ [pySegment current] := by
        rw [kept]
        split_ifs
        · rw [List.map_nil, List.append_nil]
        · rfl
      simp only [Bool.false_eq_true, ↓reduceIte, Bool.toNat_false]
      change (if (if (outline current).outside = [] then segs else segs ++ [pySegment current]) = []
        then _ else Except.ok (if (outline current).outside = [] then segs
          else segs ++ [pySegment current])) = _ ↔ _
      rw [← hk]
      constructor
      · intro h
        split_ifs at h with he
        rw [Except.ok.injEq] at h
        exact ⟨[current], rfl, hr, h.symm, h ▸ he⟩
      · intro h
        obtain ⟨ps, hps, _, rfl, hne⟩ := h
        rw [Option.some_inj] at hps
        subst hps
        rw [if_neg hne]
  | cons c cs ih =>
    have hstep := outline_concat current c
    rw [parseLoop, parts]
    by_cases h1 : c = '['
    · rw [if_pos h1, if_pos h1]
      rw [Outline.step, if_pos h1] at hstep
      cases hin : (outline current).inside with
      | true =>
        -- The part being read nests, which no readable part does.
        rw [if_pos rfl]
        refine iff_of_false (by simp) ?_
        intro h
        obtain ⟨ps, hps, hr, _⟩ := h
        obtain ⟨more, rest, hp⟩ := parts_head hps
        have hn : (outline (current ++ [c])).nested = true := by
          rw [hstep, hin, Bool.or_true]
        have := hr.flat _ (by rw [hp]; exact List.mem_cons_self)
        rw [nested_append hn] at this
        cases this
      | false =>
        have hn : (outline (current ++ [c])).nested = false := by
          rw [hstep, hin, hflat]
          rfl
        have := ih (current ++ [c]) segs hn
        rw [hstep] at this
        rw [if_neg Bool.false_ne_true]
        exact this
    · rw [if_neg h1, if_neg h1]
      rw [Outline.step, if_neg h1] at hstep
      by_cases h2 : c = ']'
      · rw [if_pos h2, if_pos h2]
        rw [if_pos h2] at hstep
        have hn : (outline (current ++ [c])).nested = false := by
          rw [hstep, hflat]
        have := ih (current ++ [c]) segs hn
        rw [hstep] at this
        cases hin : (outline current).inside with
        | true => exact this
        | false => simp
      · rw [if_neg h2, if_neg h2]
        rw [if_neg h2] at hstep
        have hn : (outline (current ++ [c])).nested = false := by
          rw [hstep]
          split_ifs
          · exact hflat
          · exact hflat
        have hnext := ih (current ++ [c]) segs hn
        rw [hstep] at hnext
        cases hin : (outline current).inside with
        | true =>
          rw [hin, if_pos rfl] at hnext
          simpa using hnext
        | false =>
          rw [hin, if_neg Bool.false_ne_true] at hnext
          by_cases h3 : c = '.'
          · simp only [h3, Bool.toNat_false, and_self, ↓reduceIte]
            by_cases hname : (outline current).outside = []
            · rw [if_pos hname]
              refine iff_of_false (by simp) ?_
              intro h
              obtain ⟨ps, hps, hr, _⟩ := h
              obtain ⟨rest, hrest, rfl⟩ := Option.map_eq_some_iff.mp hps
              exact ((readable_cons current (parts_ne_nil hrest)).mp hr).1.2 hname
            · rw [if_neg hname]
              have hblank := ih [] (segs ++ [pySegment current]) rfl
              change parseLoop cs [] none false (segs ++ [pySegment current]) = _ ↔ _
              refine hblank.trans ?_
              change (∃ ps, parts 0 [] cs = some ps ∧ _) ↔ _
              constructor
              · intro h
                obtain ⟨ps, hps, hr, rfl, hne⟩ := h
                have hnil := parts_ne_nil hps
                refine ⟨current :: ps, by rw [hps]; rfl,
                  (readable_cons current hnil).mpr ⟨⟨hflat, hname⟩, hr⟩, ?_, hne⟩
                rw [kept_cons current hnil]
                simp
              · intro h
                obtain ⟨ps, hps, hr, rfl, hne⟩ := h
                obtain ⟨rest, hrest, rfl⟩ := Option.map_eq_some_iff.mp hps
                have hnil := parts_ne_nil hrest
                refine ⟨rest, hrest, ((readable_cons current hnil).mp hr).2, ?_, hne⟩
                rw [kept_cons current hnil]
                simp
          · simpa [h3] using hnext

theorem py_parse_ok_iff {s : String} (hs : s ≠ "") (ht : strip s = s) (a : Address) :
    PythonAddress.parse s = .ok a ↔ ∃ ps, parts 0 [] s.toList = some ps ∧ Readable ps ∧
      kept ps ≠ [] ∧ a = ⟨(kept ps).map pySegment⟩ := by
  have hloop := parseLoop_ok_iff s.toList [] [] a.segments rfl
  unfold PythonAddress.parse
  rw [ht]
  dsimp only
  rw [if_neg hs]
  constructor
  · intro h
    obtain ⟨out, hout, rfl⟩ := map_eq_ok h
    obtain ⟨ps, hps, hr, he, hne⟩ := hloop.mp hout
    rw [List.nil_append] at he
    refine ⟨ps, hps, hr, fun hk => ?_, congrArg Address.mk he⟩
    rw [hk] at he
    exact hne he
  · intro h
    obtain ⟨ps, hps, hr, hk, rfl⟩ := h
    have hout := hloop.mpr ⟨ps, hps, hr, rfl, by simpa using hk⟩
    change parseLoop s.toList [] none false [] = _ at hout
    rw [hout]
    rfl

end RustPipeline.AddressParts
