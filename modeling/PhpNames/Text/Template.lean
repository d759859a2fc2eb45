/-
  PhpNames.Text.Template — message templates with numbered placeholders.

  A template is filled one argument after the other: each argument replaces its placeholder
  everywhere in the text reached so far, also where an earlier argument brought one in.
-/
import PhpNames.Text.Trim

namespace PhpNames.Text

/-! ## Substitution -/

/-- Writes `new` for every occurrence of `old`, from the left and without overlap.  The first
    `skip` characters belong to an occurrence that has been written already.  `old` is not
    empty. -/
def substituteFrom (old new : List Char) : (skip : Nat) → List Char → List Char
  | _, [] => []
  | skip + 1, _ :: cs => substituteFrom old new skip cs
  | 0, c :: cs =>
    if old.isPrefixOf (c :: cs) then new ++ substituteFrom old new (old.length - 1) cs
    else c :: substituteFrom old new 0 cs

/-- The text with `new` for every occurrence of the non-empty `old`. -/
def substitute (old new text : String) : String :=
  String.ofList (substituteFrom old.toList new.toList 0 text.toList)

/-! ## Filling -/

/-- A number in decimal digits, as messages and placeholders write it. -/
def natText (n : Nat) : String :=
  String.ofList (Nat.toDigits 10 n)

/-- The placeholder of argument `i`: its decimal index in braces. -/
def placeholder (i : Nat) : String :=
  "\x7b" ++ natText i ++ "\x7d"

/-- Fills the placeholders from argument `i` on. -/
def fillFrom (i : Nat) (text : String) : List String → String
  | [] => text
  | a :: args => fillFrom (i + 1) (substitute (placeholder i) a text) args

/-- The template with each argument in the place of its placeholder; a placeholder without an
    argument stays. -/
def fill (template : String) (args : List String) : String :=
  fillFrom 0 template args

example : substitute "aa" "b" "aaa" = "ba" := by decide

end PhpNames.Text
