/-
  PhpNames.UnionType.Native — the names of native types.  A native type belongs to the language,
  so its name is never looked up in a namespace.
-/
import PhpNames.Text.Letters

namespace PhpNames

/-- The native type names, in small letters. -/
def nativeTypeNames : List String :=
  ["array", "bool", "callable", "false", "float", "int", "iterable", "mixed", "never", "null",
    "object", "resource", "static", "string", "true", "void"]

/-- A type name without one leading `?`. -/
def dropNullMark : List Char → List Char
  | '?' :: cs => cs
  | cs => cs

/-- A type name read backwards, without the `[]` pairs that end it. -/
def dropArrayMarks : List Char → List Char
  | ']' :: '[' :: cs => dropArrayMarks cs
  | cs => cs

/-- The bare name inside a type name: without one leading `?` and without trailing `[]` pairs. -/
def bareTypeName (name : String) : String :=
  String.ofList (dropArrayMarks (dropNullMark name.toList).reverse).reverse

/-- Whether a type name is native: its bare name is one of the native names, in any letter
    case. -/
def isNativeTypeName (name : String) : Bool :=
  nativeTypeNames.any fun native => Text.sameLetters native (bareTypeName name)

example : isNativeTypeName "?Int[][]" = true := by decide +kernel
example : isNativeTypeName "??int" = false := by decide +kernel
example : isNativeTypeName "[]" = false := by decide +kernel

end PhpNames
