/-
  PhpNames.Json.Record — reading a value as a record with named fields.

  A record is written as an object or as an array of the field values in their order.  Fields may
  be missing, of an array only the last ones; a repeated field is an error, a member with another
  name is none.
-/
import PhpNames.Json.Document

namespace PhpNames.Json

/-- The member with a key, if there is one; fails when there are more. -/
def member? (members : List (String × Value)) (key : String) : Option (Option Value) :=
  match members.filter fun m => m.1 == key with
  | [] => some none
  | [m] => some (some m.2)
  | _ => none

/-- The values of the named fields, in that order, where present. -/
def recordFields? (names : List String) : Value → Option (List (Option Value))
  | .obj ms => names.mapM (member? ms)
  | .arr vs =>
    if vs.length ≤ names.length then
      some (vs.map some ++ List.replicate (names.length - vs.length) none)
    else none
  | _ => none

/-- Reads a field that has a default. -/
def fieldOr? {α : Type} (read : Value → Option α) (default : α) : Option Value → Option α
  | none => some default
  | some v => read v

/-- Reads a text. -/
def text? : Value → Option String
  | .str s => some s
  | _ => none

/-- Reads a truth value. -/
def bool? : Value → Option Bool
  | .bool b => some b
  | _ => none

/-- Reads a natural number, written as an integer. -/
def nat? : Value → Option Nat
  | .num (.int i) => if 0 ≤ i then some i.toNat else none
  | _ => none

/-- Reads an array of texts. -/
def texts? : Value → Option (List String)
  | .arr vs => vs.mapM text?
  | _ => none

end PhpNames.Json
