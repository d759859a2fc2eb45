/-
  PhpNames.Proofs.UnionType.Marking — unions made to admit null.

  Marking goes atom by atom, and two atoms may become one: `int|?int` has one atom afterwards.
  Whether repetitions are erased before or after the marking makes no difference, so marking
  commutes with joining, in the order of the atoms (`nullable_union`).  That it keeps inclusions
  follows from this, and it is done once and for all (`nullable_nullable`).

  What a union is for is not changed by a mark, which is no part of a bare name: the marked union is
  empty, or native, exactly when the union was.  And each of its atoms admits null, so every union
  that has one of them does.
-/
import PhpNames.Proofs.UnionType.Joining
import PhpNames.Proofs.UnionType.NativeNames

namespace PhpNames.UnionType

variable {u v : UnionType}

/-! ## §1. Marking and joining. -/

/-- The atoms of the nullable union are the marked ones. -/
theorem mem_nullable (hu : u.WellFormed) {a : String} :
    a ∈ u.nullable.atoms ↔ ∃ b ∈ u.atoms, markNull b = a := by
  rw [atoms_nullable hu, List.mem_eraseDups, List.mem_map]

/-- A union that admits null stays as it is. -/
theorem nullable_nullable (hu : u.WellFormed) : u.nullable.nullable = u.nullable := by
  have htwice : markNull ∘ markNull = markNull := funext markNull_markNull
  ext1
  rw [atoms_nullable (wellFormed_nullable u), atoms_nullable hu, eraseDups_map_eraseDups,
    List.map_map, htwice]

/-- An atom that both unions have is marked once or twice, and kept once. -/
theorem nullable_union (hu : u.WellFormed) (hv : v.WellFormed) :
    (u.union v).nullable = u.nullable.union v.nullable := by
  ext1
  rw [atoms_nullable (hu.union hv), atoms_union u v, eraseDups_map_eraseDups, List.map_append,
    atoms_union u.nullable, atoms_nullable hu, atoms_nullable hv, eraseDups_eraseDups_append,
    eraseDups_append_eraseDups]

/-- Inclusion is the order of the join, with which marking commutes. -/
theorem includes_nullable (hu : u.WellFormed) (hv : v.WellFormed) (h : u.includes v = true) :
    u.nullable.includes v.nullable = true := by
  rw [← union_eq_self_iff_includes] at h ⊢
  rw [← nullable_union hu hv, h]

/-! ## §2. What is kept. -/

/-- Only the empty union becomes empty. -/
theorem isEmpty_nullable (hu : u.WellFormed) : u.nullable.isEmpty = u.isEmpty := by
  unfold isEmpty
  rw [atoms_nullable hu]
  cases u.atoms with
  | nil => rfl
  | cons a rest => simp [List.eraseDups_cons]

/-- Marks do not matter for being native. -/
theorem isNative_nullable (hu : u.WellFormed) : u.nullable.isNative = u.isNative := by
  have hall : u.nullable.atoms.all isNativeTypeName = u.atoms.all isNativeTypeName := by
    rw [Bool.eq_iff_iff, List.all_eq_true, List.all_eq_true]
    constructor
    · intro h a ha
      rw [← isNativeTypeName_markNull]
      exact h (markNull a) ((mem_nullable hu).mpr ⟨a, ha, rfl⟩)
    · intro h a ha
      obtain ⟨b, hb, rfl⟩ := (mem_nullable hu).mp ha
      rw [isNativeTypeName_markNull]
      exact h b hb
  unfold isNative
  rw [isEmpty_nullable hu, hall]

/-! ## §3. Null. -/

theorem isNullable_of_mem {a : String} (ha : a ∈ u) (h : admitsNull a = true) :
    u.isNullable = true := List.any_eq_true.mpr ⟨a, ha, h⟩

/-- Each atom of the nullable union admits null. -/
theorem admitsNull_of_mem_nullable (hu : u.WellFormed) {a : String} (ha : a ∈ u.nullable) :
    admitsNull a = true := by
  obtain ⟨b, -, rfl⟩ := (mem_nullable hu).mp ha
  exact admitsNull_markNull b

/-- An atom is the only one of its own union. -/
theorem mem_ofAtoms_singleton {a : String} (h : IsAtom a) : a ∈ ofAtoms [a] := by
  rw [mem_def, atoms_ofAtoms, writtenAtoms_eq_self (by simpa using h)]
  simp

/-- A nullable union has null among its values unless it is empty. -/
theorem isNullable_nullable_iff (hu : u.WellFormed) :
    u.nullable.isNullable = true ↔ u.isEmpty = false := by
  constructor
  · intro h
    obtain ⟨a, ha, -⟩ := List.any_eq_true.mp h
    rw [← isEmpty_nullable hu]
    exact List.isEmpty_eq_false_iff.mpr (List.ne_nil_of_mem ha)
  · intro h
    rw [← isEmpty_nullable hu] at h
    obtain ⟨a, ha⟩ := List.exists_mem_of_ne_nil _ (List.isEmpty_eq_false_iff.mp h)
    exact isNullable_of_mem ha (admitsNull_of_mem_nullable hu ha)

/-! ## §4. The laws together. -/

/-- **Marking is an idempotent, monotone homomorphism of the join** that keeps being empty and
    being native.  Each atom of a marked union makes every union that has it admit null, so a
    marked union admits null unless it is empty. -/
theorem nullable_homomorphism (hu : Made u) (hv : Made v) :
    u.nullable.nullable = u.nullable ∧
    (u.union v).nullable = u.nullable.union v.nullable ∧
    (u.includes v = true → u.nullable.includes v.nullable = true) ∧
    u.nullable.isEmpty = u.isEmpty ∧
    u.nullable.isNative = u.isNative ∧
    (∀ a ∈ u.nullable, (ofAtoms [a]).isNullable = true ∧
      ∀ w : UnionType, a ∈ w → w.isNullable = true) ∧
    (u.nullable.isNullable = true ↔ u.isEmpty = false) := by
  have hu' : u.WellFormed := hu.wellFormed
  have hv' : v.WellFormed := hv.wellFormed
  refine ⟨nullable_nullable hu', nullable_union hu' hv', includes_nullable hu' hv',
    isEmpty_nullable hu', isNative_nullable hu', ?_, isNullable_nullable_iff hu'⟩
  intro a ha
  have hnull : admitsNull a = true := admitsNull_of_mem_nullable hu' ha
  have hatom : IsAtom a := wellFormed_nullable u a ha
  exact ⟨isNullable_of_mem (mem_ofAtoms_singleton hatom) hnull,
    fun w hw => isNullable_of_mem hw hnull⟩

/-- `int` and `?int` become one atom, in both orders of marking and joining; `MIXED` and `Null` are
    left alone. -/
theorem nullable_homomorphism_collision :
    ∃ u v : UnionType, Made u ∧ Made v ∧
      (u.union v).size = 5 ∧ (u.union v).nullable.text = "?int|MIXED|Null|?float[]" ∧
      (u.union v).nullable = u.nullable.union v.nullable ∧
      u.nullable.nullable = u.nullable ∧
      u.nullable.isNative = true ∧ u.isNative = true ∧
      u.isEmpty = false ∧ u.nullable.isNullable = true := by
  let u : UnionType := ofText "int|MIXED|?int"
  let v : UnionType := ofAtoms ["Null ", "float[]", "?int"]
  have hu : Made u := .ofText _
  have hv : Made v := .ofAtoms _
  have hne : u.isEmpty = false := by decide +kernel
  have hnative : u.isNative = true := by decide +kernel
  obtain ⟨htwice, hjoin, -, -, hkeeps, -, hnull⟩ := nullable_homomorphism hu hv
  exact ⟨u, v, hu, hv, by decide +kernel, by decide +kernel, hjoin, htwice, hkeeps.trans hnative,
    hnative, hne, hnull.mpr hne⟩

end PhpNames.UnionType
