/-
  PhpNames.Proofs.UnionType.FirstSeen — the atoms of a union, in the order of their first
  occurrences.

  Every union is built by adding atoms one at a time to those that are there.  Seen as a whole, its
  atoms are a sequence of written atoms of which each repetition has been erased:

    • `atoms_ofAtoms`, `atoms_ofText` — the non-blank parts of what was written,
    • `atoms_union` — the atoms of both,
    • `atoms_nullable` — the marked atoms.

  Repetitions may be erased at once or at the end (`eraseDups_append_eraseDups`,
  `eraseDups_map_eraseDups`), so an operation on the whole sequence may be read off the parts.
-/
import Mathlib.Data.List.Induction
import PhpNames.Proofs.Text.Trimmed
import PhpNames.UnionType.Basic

namespace PhpNames

/-! ## §1. Erasing repetitions. -/

section EraseDups

variable {α β : Type} [BEq α] [LawfulBEq α] [BEq β] [LawfulBEq β]

/-- The last element is kept unless it was there before. -/
theorem eraseDups_concat (l : List α) (a : α) [Decidable (a ∈ l)] :
    (l ++ [a]).eraseDups = if a ∈ l then l.eraseDups else l.eraseDups ++ [a] := by
  rw [List.eraseDups_append]
  split
  · next h => simp [List.removeAll, h]
  · next h => simp [List.removeAll, h, List.eraseDups_cons]

theorem eraseDups_eq_self {l : List α} (h : l.Nodup) : l.eraseDups = l := by
  induction l using List.reverseRecOn with
  | nil => rfl
  | append_singleton l a ih =>
    rw [List.nodup_append] at h
    obtain ⟨hl, -, hne⟩ := h
    have ha : a ∉ l := fun hmem => hne a hmem a (List.mem_singleton_self a) rfl
    rw [eraseDups_concat, if_neg ha, ih hl]

theorem eraseDups_eraseDups (l : List α) : l.eraseDups.eraseDups = l.eraseDups := by
  -- from the back: whether the last element stays depends on which elements are before it only
  induction l using List.reverseRecOn with
  | nil => rfl
  | append_singleton l a ih =>
    by_cases h : a ∈ l
    · rw [eraseDups_concat, if_pos h, ih]
    · rw [eraseDups_concat, if_neg h, eraseDups_concat, if_neg (by simpa using h), ih]

/-- What is appended is compared with the elements before it, not with how often they occur. -/
theorem eraseDups_eraseDups_append (l m : List α) :
    (l.eraseDups ++ m).eraseDups = (l ++ m).eraseDups := by
  induction m using List.reverseRecOn with
  | nil => simpa using eraseDups_eraseDups l
  | append_singleton m a ih =>
    rw [← List.append_assoc, ← List.append_assoc, eraseDups_concat, eraseDups_concat, ih]
    simp

/-- Repetitions in the second list may be erased beforehand. -/
theorem eraseDups_append_eraseDups (l m : List α) :
    (l ++ m.eraseDups).eraseDups = (l ++ m).eraseDups := by
  induction m using List.reverseRecOn with
  | nil => rfl
  | append_singleton m a ih =>
    rw [← List.append_assoc, eraseDups_concat (l ++ m), eraseDups_concat m]
    by_cases h : a ∈ m
    · have hlm : a ∈ l ++ m := List.mem_append_right l h
      rw [if_pos h, if_pos hlm, ih]
    · -- `a` is still there at the end, and it may be in `l` nevertheless
      rw [if_neg h, ← List.append_assoc, eraseDups_concat, ih]
      simp

/-- Lists may be joined from the left, and repetitions erased at each step. -/
theorem eraseDups_append_append (l m k : List α) :
    (l ++ (m ++ k)).eraseDups = ((l ++ m.eraseDups).eraseDups ++ k).eraseDups := by
  rw [eraseDups_append_eraseDups, eraseDups_eraseDups_append, List.append_assoc]

/-- Repetitions may be erased before a function is applied, and again afterwards. -/
theorem eraseDups_map_eraseDups (f : α → β) (l : List α) :
    (l.eraseDups.map f).eraseDups = (l.map f).eraseDups := by
  induction l using List.reverseRecOn with
  | nil => rfl
  | append_singleton l a ih =>
    rw [List.map_append, List.map_singleton, eraseDups_concat l]
    by_cases h : a ∈ l
    · have hfa : f a ∈ l.map f := List.mem_map_of_mem h
      rw [if_pos h, eraseDups_concat, if_pos hfa, ih]
    · -- `f` may take `a` to where it took an element before
      have hmem : f a ∈ l.eraseDups.map f ↔ f a ∈ l.map f := by
        rw [List.mem_map, List.mem_map]
        simp only [List.mem_eraseDups]
      rw [if_neg h, List.map_append, List.map_singleton, eraseDups_concat, eraseDups_concat, ih]
      simp only [hmem]

end EraseDups

namespace UnionType

/-! ## §2. Atoms. -/

/-- An atom has no blanks around it and is not empty. -/
def IsAtom (a : String) : Prop := a ≠ "" ∧ Text.trim a = a

/-- The atoms among written ones: without the blanks around them, and without the blank ones. -/
def writtenAtoms (written : List String) : List String :=
  (written.map Text.trim).filter (· ≠ "")

/-- The atoms of a type text, in order and with repetitions: its non-blank parts. -/
def textAtoms (text : String) : List String := writtenAtoms (parts text)

/-- The atoms among written ones are those that are not blank. -/
theorem mem_writtenAtoms {written : List String} {a : String} :
    a ∈ writtenAtoms written ↔ ∃ w ∈ written, Text.trim w ≠ "" ∧ Text.trim w = a := by
  unfold writtenAtoms
  simp only [List.mem_filter, List.mem_map, decide_eq_true_eq]
  constructor
  · rintro ⟨⟨w, hw, rfl⟩, hne⟩
    exact ⟨w, hw, hne, rfl⟩
  · rintro ⟨w, hw, hne, rfl⟩
    exact ⟨⟨w, hw, rfl⟩, hne⟩

/-- What is left of a written atom has no blanks around it and is not empty. -/
theorem isAtom_of_mem_writtenAtoms {written : List String} {a : String}
    (h : a ∈ writtenAtoms written) : IsAtom a := by
  obtain ⟨w, -, hne, rfl⟩ := mem_writtenAtoms.mp h
  exact ⟨hne, Text.trim_trim w⟩

/-- Atoms are written as themselves. -/
theorem writtenAtoms_eq_self {l : List String} (h : ∀ a ∈ l, IsAtom a) : writtenAtoms l = l := by
  have hmap : l.map Text.trim = l.map id :=
    List.map_congr_left fun a ha => (h a ha).2
  unfold writtenAtoms
  rw [hmap, List.map_id, List.filter_eq_self]
  intro a ha
  simpa using (h a ha).1

theorem writtenAtoms_cons (w : String) (ws : List String) :
    writtenAtoms (w :: ws) =
      if Text.trim w = "" then writtenAtoms ws else Text.trim w :: writtenAtoms ws := by
  unfold writtenAtoms
  rw [List.map_cons, List.filter_cons]
  split <;> simp_all

/-! ## §3. The atoms of a union, by how it was made. -/

/-- An atom is put behind the others if it is not there. -/
theorem atoms_insert_eq_eraseDups (u : UnionType) (a : String) :
    (u.insert a).atoms = (u.atoms ++ [a]).eraseDups := by
  rw [atoms_insert, eraseDups_concat, eraseDups_eq_self u.nodup]

theorem atoms_foldl_insert (l : List String) (u : UnionType) :
    (l.foldl insert u).atoms = (u.atoms ++ l).eraseDups := by
  induction l generalizing u with
  | nil =>
    rw [List.append_nil, eraseDups_eq_self u.nodup]
    rfl
  | cons a l ih =>
    show (l.foldl insert (u.insert a)).atoms = _
    rw [ih, atoms_insert_eq_eraseDups, eraseDups_eraseDups_append, List.append_assoc]
    rfl

/-- Adding written atoms is putting in the atoms among them. -/
theorem foldl_addAtom (written : List String) (u : UnionType) :
    written.foldl addAtom u = (writtenAtoms written).foldl insert u := by
  induction written generalizing u with
  | nil => rfl
  | cons w ws ih =>
    show ws.foldl addAtom (u.addAtom w) = _
    rw [ih, writtenAtoms_cons]
    unfold addAtom
    split <;> rfl

/-- **The atoms of a list** are the first occurrences of the atoms that are written in it. -/
theorem atoms_ofAtoms (written : List String) :
    (ofAtoms written).atoms = (writtenAtoms written).eraseDups := by
  unfold ofAtoms
  rw [foldl_addAtom, atoms_foldl_insert]
  rfl

/-- The atoms of a text are the first occurrences of its atoms. -/
theorem atoms_ofText (text : String) : (ofText text).atoms = (textAtoms text).eraseDups :=
  atoms_ofAtoms (parts text)

/-- The atoms of a union of two are those of both, in order of their first occurrences. -/
theorem atoms_union (u v : UnionType) : (u.union v).atoms = (u.atoms ++ v.atoms).eraseDups :=
  atoms_foldl_insert v.atoms u

/-! ## §4. Unions of atoms. -/

/-- Every member of the union is an atom. -/
def WellFormed (u : UnionType) : Prop := ∀ a ∈ u.atoms, IsAtom a

theorem wellFormed_empty : empty.WellFormed := by
  simp [WellFormed]

/-- Whatever is written, the atoms of a union have no blanks around them and none is empty. -/
theorem wellFormed_ofAtoms (written : List String) : (ofAtoms written).WellFormed := by
  intro a ha
  rw [atoms_ofAtoms, List.mem_eraseDups] at ha
  exact isAtom_of_mem_writtenAtoms ha

theorem wellFormed_ofText (text : String) : (ofText text).WellFormed :=
  wellFormed_ofAtoms (parts text)

/-- The union of two has the atoms of both. -/
theorem mem_union {u v : UnionType} {a : String} :
    a ∈ (u.union v).atoms ↔ a ∈ u.atoms ∨ a ∈ v.atoms := by
  rw [atoms_union, List.mem_eraseDups, List.mem_append]

/-- The union of two well-formed unions is well formed. -/
theorem WellFormed.union {u v : UnionType} (hu : u.WellFormed) (hv : v.WellFormed) :
    (u.union v).WellFormed := by
  intro a ha
  rcases mem_union.mp ha with ha | ha
  · exact hu a ha
  · exact hv a ha

theorem wellFormed_nullable (u : UnionType) : u.nullable.WellFormed :=
  wellFormed_ofAtoms (u.atoms.map markNull)

/-- Reading the atoms of a union again gives the union. -/
theorem ofAtoms_atoms {u : UnionType} (h : u.WellFormed) : ofAtoms u.atoms = u := by
  ext1
  rw [atoms_ofAtoms, writtenAtoms_eq_self h, eraseDups_eq_self u.nodup]

/-! ## §5. Marked atoms. -/

/-- An atom admits null if it has a mark, or if it is one of two words in whatever letter case. -/
theorem admitsNull_iff {a : String} :
    admitsNull a = true ↔
      a.toList.head? = some '?' ∨ Text.lower a = "null" ∨ Text.lower a = "mixed" := by
  have hnull : Text.lower "null" = "null" := by decide +kernel
  have hmixed : Text.lower "mixed" = "mixed" := by decide +kernel
  simp [admitsNull, Text.sameLetters_iff, hnull, hmixed, or_assoc]

/-- **What a mark writes**: the atom as it stands if it admits null, or else a `?` and the atom. -/
theorem markNull_eq (a : String) :
    markNull a =
      if a.toList.head? = some '?' ∨ Text.lower a = "null" ∨ Text.lower a = "mixed" then a
      else "?" ++ a :=
  if_congr admitsNull_iff rfl rfl

theorem toList_markNull (a : String) :
    (markNull a).toList = if admitsNull a then a.toList else '?' :: a.toList := by
  unfold markNull
  split <;> simp

theorem admitsNull_markNull (a : String) : admitsNull (markNull a) = true := by
  unfold markNull
  split
  · assumption
  · simp [admitsNull]

theorem markNull_markNull (a : String) : markNull (markNull a) = markNull a := by
  show (if admitsNull (markNull a) then markNull a else "?" ++ markNull a) = markNull a
  rw [if_pos (admitsNull_markNull a)]

/-- A mark is no blank, so an atom that gets one has no blanks around it either. -/
theorem isAtom_markNull {a : String} (h : IsAtom a) : IsAtom (markNull a) := by
  unfold markNull
  split
  · exact h
  · obtain ⟨hne, htrim⟩ := h
    rw [Text.trim_eq_self_iff] at htrim
    refine ⟨by simp, ?_⟩
    rw [Text.trim_eq_self_iff, String.toList_append]
    constructor
    · intro c hc
      obtain rfl : '?' = c := by simpa using hc
      rfl
    · -- `a` is not empty, so it ends as before
      intro c hc
      have hchars : a.toList ≠ [] := by simpa using hne
      rw [List.getLast?_append_of_ne_nil _ hchars] at hc
      exact htrim.2 c hc

/-- Atoms that become equal when they are marked are one. -/
theorem atoms_nullable {u : UnionType} (h : u.WellFormed) :
    u.nullable.atoms = (u.atoms.map markNull).eraseDups := by
  have hmarked : ∀ a ∈ u.atoms.map markNull, IsAtom a := by
    intro a ha
    obtain ⟨b, hb, rfl⟩ := List.mem_map.mp ha
    exact isAtom_markNull (h b hb)
  -- nothing is trimmed or dropped any more, but two atoms may have become one
  unfold nullable
  rw [atoms_ofAtoms, writtenAtoms_eq_self hmarked]

end UnionType

end PhpNames
