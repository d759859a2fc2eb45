/-
  PhpNames.Proofs.UnionType.NativeNames — what native names are made of.

  The bare name in a type name stands between one `?` at the start and the `[]` pairs at the end.
  Nothing but these marks is taken off (`mem_bareTypeName`), so a native name is made of letters and
  marks (`isAlpha_or_mark_of_mem`), and one with a separator in it is not native
  (`not_isNativeTypeName_of_separator`).  The mark that admits null is one that is taken off: an
  atom is native with it exactly when it is native without it (`isNativeTypeName_markNull`).
-/
import PhpNames.Proofs.Text.Lowered
import PhpNames.UnionType.Basic

namespace PhpNames

/-! ## §1. Bare names. -/

/-- Only a mark is taken off in front. -/
theorem mem_dropNullMark {c : Char} {cs : List Char} (h : c ∈ cs) (hc : c ≠ '?') :
    c ∈ dropNullMark cs := by
  unfold dropNullMark
  split
  · exact (List.mem_cons.mp h).resolve_left hc
  · exact h

/-- Only brackets are taken off behind. -/
theorem mem_dropArrayMarks {c : Char} {cs : List Char} (h : c ∈ cs) (hopen : c ≠ '[')
    (hclose : c ≠ ']') : c ∈ dropArrayMarks cs := by
  fun_induction dropArrayMarks cs with
  | case1 cs ih =>
    -- a pair is dropped from the front, and `c` is neither of the two
    have hrest : c ∈ '[' :: cs := (List.mem_cons.mp h).resolve_left hclose
    exact ih ((List.mem_cons.mp hrest).resolve_left hopen)
  | case2 => exact h

/-- Only marks are taken off a type name. -/
theorem mem_bareTypeName {c : Char} {name : String} (h : c ∈ name.toList) (hnull : c ≠ '?')
    (hopen : c ≠ '[') (hclose : c ≠ ']') : c ∈ (bareTypeName name).toList := by
  unfold bareTypeName
  rw [String.toList_ofList, List.mem_reverse]
  refine mem_dropArrayMarks ?_ hopen hclose
  rw [List.mem_reverse]
  exact mem_dropNullMark h hnull

theorem dropNullMark_of_head?_ne {cs : List Char} (h : cs.head? ≠ some '?') :
    dropNullMark cs = cs := by
  unfold dropNullMark
  split
  · exact absurd rfl h
  · rfl

/-- A mark in front of a name is taken off again. -/
theorem bareTypeName_nullMark {name : String} (h : name.toList.head? ≠ some '?') :
    bareTypeName ("?" ++ name) = bareTypeName name := by
  have hmarked : dropNullMark ("?" ++ name).toList = name.toList := by
    rw [String.toList_append]
    rfl
  unfold bareTypeName
  rw [hmarked, dropNullMark_of_head?_ne h]

/-! ## §2. Native names. -/

/-- A native word is one of the native names, in any letter case. -/
def IsNativeWord (word : String) : Prop :=
  ∃ native ∈ nativeTypeNames, Text.lower native = Text.lower word

/-- A name is native if a native word is left without its marks. -/
theorem isNativeTypeName_iff_isNativeWord {name : String} :
    isNativeTypeName name = true ↔ IsNativeWord (bareTypeName name) := by
  unfold isNativeTypeName IsNativeWord
  simp only [List.any_eq_true, Text.sameLetters_iff]

/-- The native words have letters only. -/
theorem isAlpha_of_mem_native {native : String} (h : native ∈ nativeTypeNames) {c : Char}
    (hc : c ∈ native.toList) : c.isAlpha = true := by
  have hall : ∀ native ∈ nativeTypeNames, native.toList.all Char.isAlpha = true := by decide
  exact List.all_eq_true.mp (hall native h) c hc

/-- The spellings of native words in other letter case have letters only. -/
theorem IsNativeWord.isAlpha_of_mem {word : String} (h : IsNativeWord word) {c : Char}
    (hc : c ∈ word.toList) : c.isAlpha = true := by
  obtain ⟨native, hnative, hletters⟩ := h
  have hlower : c.toLower ∈ (Text.lower word).toList := by
    rw [Text.toList_lower]
    exact List.mem_map_of_mem hc
  rw [← hletters, Text.toList_lower] at hlower
  obtain ⟨d, hd, hsame⟩ := List.mem_map.mp hlower
  rw [← Text.isAlpha_toLower, ← hsame, Text.isAlpha_toLower]
  exact isAlpha_of_mem_native hnative hd

/-- A native type name is made of letters and marks. -/
theorem isAlpha_or_mark_of_mem {name : String} (h : isNativeTypeName name = true) {c : Char}
    (hc : c ∈ name.toList) : c.isAlpha = true ∨ c = '?' ∨ c = '[' ∨ c = ']' := by
  by_cases hmark : c = '?' ∨ c = '[' ∨ c = ']'
  · exact Or.inr hmark
  · -- what is no mark stays in the bare name, which is a word
    obtain ⟨hnull, hopen, hclose⟩ : c ≠ '?' ∧ c ≠ '[' ∧ c ≠ ']' := by simpa using hmark
    have hword : IsNativeWord (bareTypeName name) := isNativeTypeName_iff_isNativeWord.mp h
    exact Or.inl (hword.isAlpha_of_mem (mem_bareTypeName hc hnull hopen hclose))

/-- A name with a separator in it is not native. -/
theorem not_isNativeTypeName_of_separator {name : String} (h : separator ∈ name.toList) :
    ¬isNativeTypeName name = true := by
  intro hnative
  exact absurd (isAlpha_or_mark_of_mem hnative h) (by decide)

/-- The mark that admits null is put on atoms that do not begin with it, and there it is taken
    off again. -/
theorem isNativeTypeName_markNull (a : String) :
    isNativeTypeName (UnionType.markNull a) = isNativeTypeName a := by
  unfold UnionType.markNull
  split
  · rfl
  · next hnot =>
    have hhead : a.toList.head? ≠ some '?' := by
      intro h
      apply hnot
      simp [UnionType.admitsNull, h]
    unfold isNativeTypeName
    rw [bareTypeName_nullMark hhead]

end PhpNames
