/-
  PhpNames.Text.Letters — letter case.  Names of native types, classes and log layouts are
  compared by their ASCII letters; every other character stands for itself.
-/

namespace PhpNames.Text

/-- The text with its ASCII capitals made small. -/
def lower (s : String) : String :=
  String.ofList (s.toList.map Char.toLower)

/-- Equality up to the case of ASCII letters. -/
def sameLetters (s t : String) : Bool :=
  lower s == lower t

/-- Texts have the same letters if they are equal in small letters. -/
theorem sameLetters_iff {s t : String} : sameLetters s t = true ↔ lower s = lower t := by
  simp [sameLetters]

example : lower "ÄB\\Cd" = "Äb\\cd" := by decide

end PhpNames.Text
