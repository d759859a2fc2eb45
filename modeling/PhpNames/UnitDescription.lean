/-
  PhpNames.UnitDescription — what is known about a file before it is looked at: its name, namespace
  and imports, the class it is inside of, and the variables that are bound.
-/
import PhpNames.Context.Basic
import PhpNames.Json.Record

namespace PhpNames

open Json (Value Document)

/-! ## Tables of texts -/

/-- Adds a member to a table of texts; the last member with a key counts. -/
def addText? (t : Std.ExtTreeMap String String) (m : String × Value) :
    Option (Std.ExtTreeMap String String) :=
  (Json.text? m.2).map fun s => t.insert m.1 s

/-- Reads an object of texts. -/
def textTable? : Value → Option (Std.ExtTreeMap String String)
  | .obj ms => ms.foldlM addText? ∅
  | _ => none

/-- Adds a member to import tables; the last table of a kind counts. -/
def addTable? (t : AliasTables) (m : String × Value) : Option AliasTables := do
  return t.setTable (← AliasKind.ofKey? m.1) (← textTable? m.2)

/-- Reads import tables: an object with tables for some of the kinds, and nothing else. -/
def AliasTables.ofValue? : Value → Option AliasTables
  | .obj ms => ms.foldlM addTable? {}
  | _ => none

/-! ## Descriptions -/

/-- What is known about a file. -/
structure UnitDescription where
  file : String := ""
  space : String := ""
  aliases : AliasTables := {}
  enclosingClass : Option String := none
  bindings : Std.ExtTreeMap String String := ∅

namespace UnitDescription

/-- The names of the fields. -/
def fieldNames : List String := ["file", "namespace", "aliases", "class", "variables"]

/-- Reads a text or null. -/
def optionalText? : Value → Option (Option String)
  | .null => some none
  | .str s => some (some s)
  | _ => none

/-- Reads a description; what is missing is empty. -/
def ofValue? (v : Value) : Option UnitDescription := do
  match ← Json.recordFields? fieldNames v with
  | [file, space, aliases, enclosingClass, bindings] =>
    return {
      file := ← Json.fieldOr? Json.text? "" file
      space := ← Json.fieldOr? Json.text? "" space
      aliases := ← Json.fieldOr? AliasTables.ofValue? {} aliases
      enclosingClass := ← Json.fieldOr? optionalText? none enclosingClass
      bindings := ← Json.fieldOr? textTable? ∅ bindings }
  | _ => none

/-- Reads a document as a description. -/
def ofDocument? (d : Document) : Option UnitDescription :=
  (d.select? fieldNames).bind ofValue?

/-- The variables with the types that their texts say. -/
def scope (d : UnitDescription) : Scope :=
  ⟨d.bindings.map fun _ text => UnionType.ofText text⟩

/-- The context at the start of the file. -/
def toContext (d : UnitDescription) : Context where
  space := .ofText d.space
  aliases := d.aliases
  file := d.file
  enclosingClass := d.enclosingClass
  scope := d.scope

end UnitDescription

end PhpNames
