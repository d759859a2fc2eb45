/-
  PhpNames.UnionType.Json — the JSON form of union types: a string with the union's text.
-/
import PhpNames.Json.Document
import PhpNames.UnionType.Basic

namespace PhpNames.UnionType

open Json (Value)

/-- A union as a value. -/
def toValue (u : UnionType) : Value := .str u.text

/-- Reads a union from a string that holds a type text. -/
def ofValue? : Value → Option UnionType
  | .str s => some (ofText s)
  | _ => none

/-- Reads a JSON text as a union. -/
def parse? (text : String) : Option UnionType :=
  (Value.parse? text).bind ofValue?

end PhpNames.UnionType
