/-
  PhpNames.Proofs.Text.Lowered — texts in small letters.

  Making letters small changes no other character, and it makes none of a letter
  (`toLower_eq_iff`); blanks and separators are no letters.  So it may be done before a text is cut,
  or afterwards:

    • `map_cut`, `lower_trim` — cutting, in either order,
    • `lower_append`, `lower_eq_empty_iff` — joining, and being empty.
-/
import PhpNames.Context.Namespace
import PhpNames.Proofs.Text.Trimmed
import PhpNames.Text.Letters

namespace PhpNames.Text

/-! ## §1. Characters. -/

/-- A character is a capital, or it is left alone. -/
theorem toLower_cases (c : Char) :
    (0x41 ≤ c.toNat ∧ c.toNat ≤ 0x5A ∧ c.toLower.toNat = c.toNat + 0x20) ∨
      ((c.toNat < 0x41 ∨ 0x5A < c.toNat) ∧ c.toLower = c) := by
  unfold Char.toLower
  split
  · next h =>
    obtain ⟨hlow, hhigh⟩ := h
    have hlow' : 0x41 ≤ c.toNat := UInt32.le_iff_toNat_le.mp hlow
    have hhigh' : c.toNat ≤ 0x5A := UInt32.le_iff_toNat_le.mp hhigh
    refine Or.inl ⟨hlow', hhigh', ?_⟩
    show (c.val + ('a'.val - 'A'.val)).toNat = c.toNat + 0x20
    have hbound : c.val.toNat ≤ 0x5A := hhigh'
    rw [UInt32.toNat_add, show ('a'.val - 'A'.val).toNat = 0x20 from rfl, Nat.mod_eq_of_lt]
    · rfl
    · omega
  · next h =>
    refine Or.inr ⟨?_, rfl⟩
    by_contra hcapital
    obtain ⟨hlow, hhigh⟩ : 0x41 ≤ c.toNat ∧ c.toNat ≤ 0x5A := by omega
    exact h ⟨UInt32.le_iff_toNat_le.mpr hlow, UInt32.le_iff_toNat_le.mpr hhigh⟩

/-- The letters are those of two runs of codes. -/
theorem isAlpha_iff {c : Char} :
    c.isAlpha = true ↔
      (0x41 ≤ c.toNat ∧ c.toNat ≤ 0x5A) ∨ (0x61 ≤ c.toNat ∧ c.toNat ≤ 0x7A) := by
  unfold Char.isAlpha Char.isUpper Char.isLower
  simp only [Bool.or_eq_true, Bool.and_eq_true, decide_eq_true_eq, ge_iff_le,
    UInt32.le_iff_toNat_le]
  exact Iff.rfl

theorem toLower_of_not_isAlpha {c : Char} (h : c.isAlpha = false) : c.toLower = c := by
  rcases toLower_cases c with ⟨hlow, hhigh, -⟩ | ⟨-, hsame⟩
  · rw [← Bool.not_eq_true, isAlpha_iff] at h
    exact absurd (Or.inl ⟨hlow, hhigh⟩) h
  · exact hsame

theorem isAlpha_toLower (c : Char) : c.toLower.isAlpha = c.isAlpha := by
  rcases toLower_cases c with ⟨hlow, hhigh, hlower⟩ | ⟨-, hsame⟩
  · rw [isAlpha_iff.mpr (Or.inl ⟨hlow, hhigh⟩), isAlpha_iff]
    omega
  · rw [hsame]

/-- Characters that are no letters stand for themselves alone. -/
theorem toLower_eq_iff {c d : Char} (hd : d.isAlpha = false) : c.toLower = d ↔ c = d := by
  constructor
  · rintro rfl
    rw [isAlpha_toLower] at hd
    exact (toLower_of_not_isAlpha hd).symm
  · rintro rfl
    exact toLower_of_not_isAlpha hd

theorem toLower_eq_separator_iff {c : Char} : c.toLower = separator ↔ c = separator :=
  toLower_eq_iff rfl

theorem not_isBlank_of_isAlpha {c : Char} (h : c.isAlpha = true) : isBlank c = false := by
  rw [isAlpha_iff] at h
  unfold isBlank
  simp only [Bool.or_eq_false_iff, Bool.and_eq_false_iff, decide_eq_false_iff_not,
    beq_eq_false_iff_ne]
  omega

/-- Blanks are blanks in small letters too, and nothing else becomes one. -/
theorem isBlank_toLower (c : Char) : isBlank c.toLower = isBlank c := by
  cases h : c.isAlpha with
  | true => rw [not_isBlank_of_isAlpha h, not_isBlank_of_isAlpha ((isAlpha_toLower c).trans h)]
  | false => rw [toLower_of_not_isAlpha h]

/-! ## §2. Lists. -/

/-- Cutting commutes with a change of characters that no cut can notice. -/
theorem map_cut {p : Char → Bool} {f : Char → Char} (h : ∀ c, p (f c) = p c) (cs : List Char) :
    (cut p cs).map f = cut p (cs.map f) := by
  have hdrop : ∀ cs : List Char, (cs.dropWhile p).map f = (cs.map f).dropWhile p := by
    intro cs
    rw [List.dropWhile_map, show p ∘ f = p from funext h]
  unfold cut dropEndWhile
  rw [List.map_reverse, hdrop, List.map_reverse, hdrop]

/-! ## §3. Texts. -/

@[simp]
theorem toList_lower (s : String) : (lower s).toList = s.toList.map Char.toLower := by
  simp [lower]

/-- Two texts may be written in small letters before they are joined or afterwards. -/
theorem lower_append (s t : String) : lower (s ++ t) = lower s ++ lower t := by
  rw [← String.toList_inj]
  simp

/-- Only the empty text is empty in small letters. -/
theorem lower_eq_empty_iff {s : String} : lower s = "" ↔ s = "" := by
  rw [← String.toList_inj, ← String.toList_inj, toList_lower]
  exact List.map_eq_nil_iff

/-- **Trimming and small letters commute.** -/
theorem lower_trim (s : String) : lower (trim s) = trim (lower s) := by
  rw [← String.toList_inj, toList_lower, toList_trim, toList_trim, toList_lower]
  exact map_cut isBlank_toLower s.toList

end PhpNames.Text
