/-
  PhpNames.Proofs.UnionType.Joining — joining unions, and comparing them.

  Joining keeps the atoms of the first union in front, so it is not commutative: `A|B` and `B|A`
  are the same type with two texts.  All other laws of a join hold of the atoms in their order, and
  with it of the texts:

      (u ∪ v) ∪ w = u ∪ (v ∪ w)        u ∪ u = u        u ∪ ∅ = u = ∅ ∪ u

  The order that belongs to the join is inclusion (`union_eq_self_iff_includes`), and being the same
  type is inclusion in both directions (`sameType_iff_includes`).

  A text tells what has been joined.  New atoms make the text longer (`text_union_eq_iff`), and a
  `|` between two type texts joins what they stand for (`ofText_append`).
-/
import Mathlib.Data.List.Perm.Subperm
import PhpNames.Proofs.UnionType.Made

namespace PhpNames.UnionType

/-! ## §1. Joining, with the atoms in their order. -/

/-- Joining is associative, in the order of the atoms too. -/
theorem union_assoc (u v w : UnionType) : (u.union v).union w = u.union (v.union w) := by
  ext1
  rw [atoms_union, atoms_union, atoms_union, atoms_union, eraseDups_eraseDups_append,
    eraseDups_append_eraseDups, List.append_assoc]

/-- The empty union is neutral on the left. -/
theorem empty_union (u : UnionType) : empty.union u = u := by
  ext1
  rw [atoms_union, atoms_empty, List.nil_append, eraseDups_eq_self u.nodup]

/-- Inclusion is the order of the join: nothing is added where everything is there. -/
theorem union_eq_self_iff_includes {u v : UnionType} :
    u.union v = u ↔ u.includes v = true := by
  have hnew : (u.union v).atoms = u.atoms ↔ v.atoms.filter (· ∉ u.atoms) = [] := by
    rw [atoms_union_eq_append, List.append_right_eq_self]
  rw [includes_iff, UnionType.ext_iff, hnew, List.filter_eq_nil_iff]
  simp [mem_def]

theorem includes_refl (u : UnionType) : u.includes u = true :=
  includes_iff.mpr fun _ ha => ha

/-- A union joined with itself is itself. -/
theorem union_self (u : UnionType) : u.union u = u :=
  union_eq_self_iff_includes.mpr (includes_refl u)

theorem union_empty (u : UnionType) : u.union empty = u := rfl

/-- A union of two includes what has its atoms in one or the other. -/
theorem includes_union_iff {u v w : UnionType} :
    (u.union v).includes w = true ↔ ∀ a ∈ w, a ∈ u ∨ a ∈ v := by
  rw [includes_iff]
  simp only [mem_def, mem_union]

/-! ## §2. The same type. -/

/-- Without repetitions, as many atoms and no other ones are all of them. -/
theorem sameType_iff_perm {u v : UnionType} : u.sameType v = true ↔ u.atoms.Perm v.atoms := by
  unfold sameType
  rw [Bool.and_eq_true, beq_iff_eq, includes_iff]
  constructor
  · rintro ⟨hsize, hsub⟩
    exact (List.subperm_of_subset u.nodup hsub).perm_of_length_le hsize.ge
  · intro hperm
    exact ⟨hperm.length_eq, fun a ha => hperm.mem_iff.mp ha⟩

/-- Two unions are the same type if each includes the other. -/
theorem sameType_iff_includes {u v : UnionType} :
    u.sameType v = true ↔ u.includes v = true ∧ v.includes u = true := by
  rw [sameType_iff_perm, List.perm_ext_iff_of_nodup u.nodup v.nodup, includes_iff, includes_iff]
  constructor
  · intro h
    exact ⟨fun a ha => (h a).mpr ha, fun a ha => (h a).mp ha⟩
  · rintro ⟨huv, hvu⟩ a
    exact ⟨hvu a, huv a⟩

/-- In the other order the union of two is the same type, though its atoms may be in another order.
    -/
theorem sameType_union_comm (u v : UnionType) : (u.union v).sameType (v.union u) = true := by
  rw [sameType_iff_includes, includes_union_iff, includes_union_iff]
  exact ⟨fun a ha => (mem_union.mp ha).symm, fun a ha => (mem_union.mp ha).symm⟩

/-! ## §3. What the text shows. -/

theorem intercalate_singleton_cons {α : Type} (sep : α) (first : List α) (rest : List (List α)) :
    [sep].intercalate (first :: rest) = first ++ rest.flatMap (sep :: ·) := by
  induction rest generalizing first with
  | nil => rw [List.intercalate_singleton, List.flatMap_nil, List.append_nil]
  | cons second rest ih =>
    rw [List.intercalate_cons_cons, ih, List.flatMap_cons, List.append_assoc]
    rfl

/-- The text is the first atom, and every other one behind a `|`. -/
theorem toList_text_cons {u : UnionType} {a : String} {rest : List String}
    (h : u.atoms = a :: rest) :
    u.text.toList = a.toList ++ rest.flatMap (fun b => '|' :: b.toList) := by
  unfold text
  rw [String.toList_ofList, h, List.map_cons, intercalate_singleton_cons, List.flatMap_map]

/-- Only the union without atoms has no text, because no atom is empty. -/
theorem eq_empty_of_text_eq_empty {u : UnionType} (h : u.WellFormed) (htext : u.text = "") :
    u = empty := by
  ext1
  cases hu : u.atoms with
  | nil => rfl
  | cons a rest =>
    have hchars : u.text.toList = [] := by rw [htext, String.toList_empty]
    rw [toList_text_cons hu, List.append_eq_nil_iff, String.toList_eq_nil_iff] at hchars
    have ha : IsAtom a := h a (by rw [hu]; exact List.mem_cons_self)
    exact absurd hchars.1 ha.1

/-- Joining leaves the text alone exactly when nothing is added.  In a union of atoms nothing can
    be added that would not be seen. -/
theorem text_union_eq_iff {u v : UnionType} (hv : v.WellFormed) :
    (u.union v).text = u.text ↔ u.includes v = true := by
  rw [← union_eq_self_iff_includes]
  constructor
  · intro htext
    cases hu : u.atoms with
    | nil =>
      obtain rfl : u = empty := UnionType.ext hu
      rw [empty_union] at htext ⊢
      exact eq_empty_of_text_eq_empty hv htext
    | cons a rest =>
      -- what is added stands behind the text of `u`, each atom with a `|` in front
      have hatoms : (u.union v).atoms = a :: (rest ++ v.atoms.filter (· ∉ u.atoms)) := by
        rw [atoms_union_eq_append, hu, List.cons_append]
      have hchars := congrArg String.toList htext
      rw [toList_text_cons hatoms, toList_text_cons hu, List.flatMap_append, ← List.append_assoc,
        List.append_right_eq_self, List.flatMap_eq_nil_iff] at hchars
      have hnone : v.atoms.filter (· ∉ u.atoms) = [] := by
        rw [List.eq_nil_iff_forall_not_mem]
        intro b hb
        exact List.cons_ne_nil _ _ (hchars b hb)
      ext1
      rw [atoms_union_eq_append, hnone, List.append_nil]
  · intro h
    rw [h]

/-! ## §4. Type texts, joined. -/

/-- A `|` between two texts divides their parts. -/
theorem parts_append (s t : String) : parts (s ++ "|" ++ t) = parts s ++ parts t := by
  have hchars : (s ++ "|" ++ t).toList = s.toList ++ '|' :: t.toList := by simp
  unfold parts
  rw [hchars, List.splitOn_append_cons_self, List.map_append]

/-- So the atoms of the two texts follow each other. -/
theorem textAtoms_append (s t : String) :
    textAtoms (s ++ "|" ++ t) = textAtoms s ++ textAtoms t := by
  unfold textAtoms writtenAtoms
  rw [parts_append, List.map_append, List.filter_append]

/-- A `|` between type texts joins the unions. -/
theorem ofText_append (s t : String) :
    ofText (s ++ "|" ++ t) = (ofText s).union (ofText t) := by
  ext1
  rw [atoms_union, atoms_ofText, atoms_ofText, atoms_ofText, textAtoms_append,
    eraseDups_eraseDups_append, eraseDups_append_eraseDups]

/-! ## §5. The laws together. -/

/-- **Unions form a semilattice with reproducible texts**.  Equality of unions is equality of their
    atoms in order, from which the texts are equal too; what depends on the order in which unions
    are joined is the order of the atoms, and they are the same type. -/
theorem union_semilattice (u v w : UnionType) (hv : Made v) :
    (u.union v).union w = u.union (v.union w) ∧
    (u.union u = u ∧ u.union empty = u ∧ empty.union u = u) ∧
    (u.union v).sameType (v.union u) = true ∧
    (u.sameType v = true ↔ u.includes v = true ∧ v.includes u = true) ∧
    (u.includes v = true ↔ (u.union v).text = u.text) ∧
    ((u.union v).includes w = true ↔ ∀ a ∈ w, a ∈ u ∨ a ∈ v) ∧
    ∀ s t : String, ofText (s ++ "|" ++ t) = (ofText s).union (ofText t) :=
  ⟨union_assoc u v w, ⟨union_self u, union_empty u, empty_union u⟩, sameType_union_comm u v,
    sameType_iff_includes, (text_union_eq_iff hv.wellFormed).symm, includes_union_iff,
    ofText_append⟩

/-- `B` is in both unions, in one of them twice and with blanks around it. -/
theorem union_semilattice_overlap :
    ∃ u v w : UnionType, Made v ∧
      (u.union v).text = "A|B|?C" ∧ (v.union u).text = "B|?C|A" ∧
      (u.union v).sameType (v.union u) = true ∧
      (u.union v).union w = u.union (v.union w) ∧
      (u.union v).text ≠ u.text ∧ ¬u.includes v = true := by
  let u : UnionType := ofText "A| B"
  let v : UnionType := ofAtoms [" B\t", "?C", "B"]
  let w : UnionType := ofText "C||A"
  have hv : Made v := .ofAtoms _
  obtain ⟨hassoc, -, hcomm, -, hincludes, -, -⟩ := union_semilattice u v w hv
  have hlonger : (u.union v).text ≠ u.text := by decide +kernel
  exact ⟨u, v, w, hv, by decide +kernel, by decide +kernel, hcomm, hassoc, hlonger,
    mt hincludes.mp hlonger⟩

end PhpNames.UnionType
