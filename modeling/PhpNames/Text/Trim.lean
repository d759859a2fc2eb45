/-
  PhpNames.Text.Trim — blanks, and cutting a class of characters off both ends of a text.

  Texts are cut as lists of characters; `trim` is the case every reader of type and namespace
  texts uses.
-/

namespace PhpNames.Text

/-! ## Blanks -/

/-- A blank is a character with Unicode's White_Space property.  The zero-width space, the byte
    order mark and the information separators U+001C to U+001F are not blanks. -/
def isBlank (c : Char) : Bool :=
  let n := c.toNat
  (0x09 ≤ n && n ≤ 0x0D) || n == 0x20 || n == 0x85 || n == 0xA0 || n == 0x1680 ||
    (0x2000 ≤ n && n ≤ 0x200A) || n == 0x2028 || n == 0x2029 || n == 0x202F ||
    n == 0x205F || n == 0x3000

/-! ## Cutting -/

/-- The list without the longest run of `p`-characters at its end. -/
def dropEndWhile (p : Char → Bool) (cs : List Char) : List Char :=
  (cs.reverse.dropWhile p).reverse

/-- The list without the longest runs of `p`-characters at its start and at its end. -/
def cut (p : Char → Bool) (cs : List Char) : List Char :=
  dropEndWhile p (cs.dropWhile p)

/-- The text without the blanks around it. -/
def trim (s : String) : String :=
  String.ofList (cut isBlank s.toList)

example : trim "\t int \u3000" = "int" := by decide
example : trim "a b" = "a b" := by decide
example : trim " \n" = "" := by decide

end PhpNames.Text
