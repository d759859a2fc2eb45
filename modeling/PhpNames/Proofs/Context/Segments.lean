/-
  PhpNames.Proofs.Context.Segments — the grammar of names.

      segment    any characters but separators and blanks, at least one
      relative   segments with single separators between them
      full       a separator, and a relative name

  A name is taken apart at its first separator (`splitSegment?_eq_some_iff`) and names are put
  together with a separator between them (`RelativeName.join`, `FullName.join`).  At both ends of a
  relative name stands a character of a segment (`RelativeName.ends`), so no separator is doubled
  where names are joined (`FullName.separators`).
-/
import Mathlib.Data.List.Chain
import Mathlib.Data.List.TakeWhile
import PhpNames.Context.Namespace

namespace PhpNames

/-! ## §1. The first segment. -/

/-- A segment, a separator and a rest are split at that separator. -/
theorem splitSegment?_append {head : String} (h : separator ∉ head.toList) (rest : String) :
    splitSegment? (head ++ "\\" ++ rest) = some (head, rest) := by
  have hchars : (head ++ "\\" ++ rest).toList = head.toList ++ separator :: rest.toList := by
    simp [separator]
  have hpass : ∀ c ∈ head.toList, (c != separator) = true := by
    intro c hc
    have hne : c ≠ separator := fun heq => h (heq ▸ hc)
    simpa using hne
  unfold splitSegment?
  dsimp only
  rw [hchars]
  -- both scans pass over `head` and stop at the separator
  rw [List.dropWhile_append_of_pos hpass, List.takeWhile_append_of_pos hpass]
  simp

/-- A name is split at its first separator. -/
theorem splitSegment?_eq_some_iff {name head rest : String} :
    splitSegment? name = some (head, rest) ↔
      name = head ++ "\\" ++ rest ∧ separator ∉ head.toList := by
  constructor
  · intro h
    unfold splitSegment? at h
    dsimp only at h
    split at h
    · cases h
    · next c cs hdrop =>
      obtain ⟨rfl, rfl⟩ := Prod.mk.inj (Option.some.inj h)
      -- the scan stops at a character that it does not pass
      have hsep : c = separator := by
        have hstop := List.head?_dropWhile_not (· != separator) name.toList
        rw [hdrop] at hstop
        simpa using hstop
      have hname := List.takeWhile_append_dropWhile (p := (· != separator)) (l := name.toList)
      rw [hdrop, hsep] at hname
      constructor
      · rw [← String.toList_inj]
        simpa [separator] using hname.symm
      · intro hmem
        rw [String.toList_ofList] at hmem
        simpa using List.mem_takeWhile_imp hmem
  · rintro ⟨rfl, h⟩
    exact splitSegment?_append h rest

/-- Only a name without a separator cannot be split. -/
theorem splitSegment?_eq_none_iff {name : String} :
    splitSegment? name = none ↔ separator ∉ name.toList := by
  unfold splitSegment?
  dsimp only
  split
  · next hdrop =>
    rw [List.dropWhile_eq_nil_iff] at hdrop
    refine iff_of_true rfl ?_
    intro hmem
    simpa using hdrop separator hmem
  · next c cs hdrop =>
    refine iff_of_false (by simp) ?_
    intro hnot
    -- without a separator nothing would be left
    have hnil : name.toList.dropWhile (· != separator) = [] := by
      rw [List.dropWhile_eq_nil_iff]
      intro d hd
      have hne : d ≠ separator := fun heq => hnot (heq ▸ hd)
      simpa using hne
    rw [hnil] at hdrop
    cases hdrop

/-! ## §2. The grammar. -/

/-- Whether a character may stand in a segment. -/
def isSegmentChar (c : Char) : Bool := c != separator && !Text.isBlank c

/-- A segment of a name. -/
def IsSegment (s : String) : Prop := s ≠ "" ∧ s.toList.all isSegmentChar = true

instance (s : String) : Decidable (IsSegment s) :=
  inferInstanceAs (Decidable (s ≠ "" ∧ s.toList.all isSegmentChar = true))

/-- A relative name: one or more segments, with single separators between them. -/
inductive RelativeName : String → Prop where
  | segment {s : String} (hs : IsSegment s) : RelativeName s
  | cons {s r : String} (hs : IsSegment s) (hr : RelativeName r) : RelativeName (s ++ "\\" ++ r)

/-- A full name: a separator, and a relative name. -/
inductive FullName : String → Prop where
  | root {r : String} (hr : RelativeName r) : FullName ("\\" ++ r)

/-- A separator is no character of a segment. -/
theorem ne_separator_of_isSegmentChar {c : Char} (h : isSegmentChar c = true) : c ≠ separator := by
  rintro rfl
  cases h

/-- A blank is no character of a segment. -/
theorem not_isBlank_of_isSegmentChar {c : Char} (h : isSegmentChar c = true) :
    Text.isBlank c = false := by
  simpa using (Bool.and_eq_true_iff.mp h).2

theorem IsSegment.isSegmentChar_of_mem {s : String} (h : IsSegment s) {c : Char}
    (hc : c ∈ s.toList) : isSegmentChar c = true := List.all_eq_true.mp h.2 c hc

theorem IsSegment.toList_ne_nil {s : String} (h : IsSegment s) : s.toList ≠ [] := by
  simpa using h.1

/-- A segment has no separator in it. -/
theorem IsSegment.separator_notMem {s : String} (h : IsSegment s) : separator ∉ s.toList := by
  intro hmem
  exact ne_separator_of_isSegmentChar (h.isSegmentChar_of_mem hmem) rfl

/-! ## §3. Putting names together, and taking them apart. -/

/-- Two relative names with a separator between them are one. -/
theorem RelativeName.join {r s : String} (hr : RelativeName r) (hs : RelativeName s) :
    RelativeName (r ++ "\\" ++ s) := by
  induction hr with
  | segment ht => exact .cons ht hs
  | @cons t u ht _ ih =>
    have hassoc : t ++ "\\" ++ u ++ "\\" ++ s = t ++ "\\" ++ (u ++ "\\" ++ s) := by
      simp [String.append_assoc]
    -- the grammar builds a name from its first segment
    rw [hassoc]
    exact .cons ht ih

/-- A full name that is continued by a relative one is a full name. -/
theorem FullName.join {f s : String} (hf : FullName f) (hs : RelativeName s) :
    FullName (f ++ "\\" ++ s) := by
  cases hf with
  | @root r hr =>
    have hassoc : "\\" ++ r ++ "\\" ++ s = "\\" ++ (r ++ "\\" ++ s) := by
      simp [String.append_assoc]
    rw [hassoc]
    exact .root (hr.join hs)

/-- What comes after the first segment is a relative name again. -/
theorem RelativeName.rest {n head rest : String} (hn : RelativeName n)
    (hsplit : splitSegment? n = some (head, rest)) : RelativeName rest := by
  cases hn with
  | segment hs =>
    rw [splitSegment?_eq_none_iff.mpr hs.separator_notMem] at hsplit
    cases hsplit
  | cons hs hr =>
    rw [splitSegment?_append hs.separator_notMem] at hsplit
    obtain ⟨rfl, rfl⟩ := Prod.mk.inj (Option.some.inj hsplit)
    exact hr

/-! ## §4. Where the separators of a name stand. -/

theorem RelativeName.toList_ne_nil {n : String} (h : RelativeName n) : n.toList ≠ [] := by
  cases h with
  | segment hs => exact hs.toList_ne_nil
  | cons hs hr => simp

/-- Both ends of a relative name are characters of a segment. -/
theorem RelativeName.ends {n : String} (h : RelativeName n) :
    (∀ c ∈ n.toList.head?, isSegmentChar c = true) ∧
      ∀ c ∈ n.toList.getLast?, isSegmentChar c = true := by
  induction h with
  | segment hs =>
    exact ⟨fun c hc => hs.isSegmentChar_of_mem (List.mem_of_mem_head? hc),
      fun c hc => hs.isSegmentChar_of_mem (List.mem_of_mem_getLast? hc)⟩
  | @cons s r hs hr ih =>
    rw [String.toList_append, String.toList_append]
    constructor
    · -- the name starts as its first segment
      intro c hc
      rw [List.append_assoc, List.head?_append_of_ne_nil _ hs.toList_ne_nil] at hc
      exact hs.isSegmentChar_of_mem (List.mem_of_mem_head? hc)
    · -- and ends as its last one
      intro c hc
      rw [List.getLast?_append_of_ne_nil _ hr.toList_ne_nil] at hc
      exact ih.2 c hc

/-- Not both of two neighbours are separators. -/
def Apart (c d : Char) : Prop := ¬(c = separator ∧ d = separator)

/-- In a segment no separator follows another, since there is none. -/
theorem IsSegment.isChain {s : String} (h : IsSegment s) : s.toList.IsChain Apart := by
  apply List.Pairwise.isChain
  apply List.pairwise_of_forall_mem_list
  intro c hc d _ hboth
  exact ne_separator_of_isSegmentChar (h.isSegmentChar_of_mem hc) hboth.1

/-- A separator that two names are joined by has characters of segments on both sides. -/
theorem isChain_apart_join {s r : List Char} (hs : s.IsChain Apart) (hr : r.IsChain Apart)
    (hlast : ∀ c ∈ s.getLast?, isSegmentChar c = true)
    (hhead : ∀ c ∈ r.head?, isSegmentChar c = true) : (s ++ separator :: r).IsChain Apart := by
  rw [List.isChain_append, List.isChain_cons]
  refine ⟨hs, ⟨?_, hr⟩, ?_⟩
  · intro d hd hboth
    exact ne_separator_of_isSegmentChar (hhead d hd) hboth.2
  · intro c hc d _ hboth
    exact ne_separator_of_isSegmentChar (hlast c hc) hboth.1

/-- In a relative name no separator follows another. -/
theorem RelativeName.isChain {n : String} (h : RelativeName n) : n.toList.IsChain Apart := by
  induction h with
  | segment hs => exact hs.isChain
  | @cons s r hs hr ih =>
    have hsegment : RelativeName s := .segment hs
    have hchars : (s ++ "\\" ++ r).toList = s.toList ++ separator :: r.toList := by
      simp [separator]
    rw [hchars]
    exact isChain_apart_join hs.isChain ih hsegment.ends.2 hr.ends.1

/-- A full name starts with one separator, ends with none, and none is doubled. -/
theorem FullName.separators {f : String} (h : FullName f) :
    f.toList.head? = some separator ∧ f.toList.getLast? ≠ some separator ∧
      ¬ [separator, separator] <:+: f.toList := by
  cases h with
  | @root r hr =>
    have hchars : ("\\" ++ r).toList = separator :: r.toList := by simp [separator]
    rw [hchars]
    refine ⟨rfl, ?_, ?_⟩
    · intro hlast
      have hend : separator ∈ r.toList.getLast? := by
        rwa [← List.singleton_append, List.getLast?_append_of_ne_nil _ hr.toList_ne_nil] at hlast
      exact ne_separator_of_isSegmentChar (hr.ends.2 separator hend) rfl
    · intro hdoubled
      -- a separator in front of a relative name is followed by none
      have hchain : (separator :: r.toList).IsChain Apart :=
        isChain_apart_join .nil hr.isChain (by simp) hr.ends.1
      have htwo := hchain.infix hdoubled
      rw [List.isChain_cons] at htwo
      exact htwo.1 separator rfl ⟨rfl, rfl⟩

end PhpNames
