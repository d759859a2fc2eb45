/-
  PhpNames.Context.Alias — the imports of a file.  Classes, functions and constants have a table
  each, from a short name to the full name it stands for.
-/
import Std.Data.ExtTreeMap.Lemmas

namespace PhpNames

/-- What an imported name is a name of. -/
inductive AliasKind where
  | cls
  | function
  | constant
  deriving DecidableEq, Repr

namespace AliasKind

/-- The key of a kind's table. -/
def key : AliasKind → String
  | cls => "class"
  | function => "function"
  | constant => "constant"

/-- The name of a kind. -/
def text : AliasKind → String
  | cls => "Class"
  | function => "Function"
  | constant => "Constant"

/-- All kinds. -/
def all : List AliasKind := [cls, function, constant]

/-- The kind whose table has a key. -/
def ofKey? (s : String) : Option AliasKind := all.find? fun k => k.key == s

end AliasKind

/-- A table of short names. -/
abbrev AliasTable := Std.ExtTreeMap String String

/-- The tables of all kinds. -/
structure AliasTables where
  classes : AliasTable := ∅
  functions : AliasTable := ∅
  constants : AliasTable := ∅

namespace AliasTables

/-- The table of a kind. -/
def table (t : AliasTables) : AliasKind → AliasTable
  | .cls => t.classes
  | .function => t.functions
  | .constant => t.constants

/-- Replaces the table of a kind. -/
def setTable (t : AliasTables) (k : AliasKind) (new : AliasTable) : AliasTables :=
  match k with
  | .cls => { t with classes := new }
  | .function => { t with functions := new }
  | .constant => { t with constants := new }

/-- The full name behind a short one. -/
def get? (t : AliasTables) (k : AliasKind) (short : String) : Option String :=
  (t.table k)[short]?

/-- Sets the full name behind a short one. -/
def insert (t : AliasTables) (k : AliasKind) (short target : String) : AliasTables :=
  t.setTable k ((t.table k).insert short target)

/-- Whether a kind has any short names. -/
def has (t : AliasTables) (k : AliasKind) : Bool := !(t.table k).isEmpty

/-- Replacing one table leaves the others. -/
theorem table_setTable (t : AliasTables) (k l : AliasKind) (new : AliasTable) :
    (t.setTable k new).table l = if k = l then new else t.table l := by
  cases k <;> cases l <;> rfl

/-- An import sets one entry of one table. -/
theorem get?_insert (t : AliasTables) (k l : AliasKind) (short other target : String) :
    (t.insert k short target).get? l other =
      if k = l ∧ short = other then some target else t.get? l other := by
  unfold insert get?
  rw [table_setTable]
  split <;> simp_all [Std.ExtTreeMap.getElem?_insert]

/-- Tables with the same entries are the same. -/
theorem ext_get? {t u : AliasTables} (h : ∀ k short, t.get? k short = u.get? k short) : t = u := by
  obtain ⟨classes, functions, constants⟩ := t
  obtain ⟨classes', functions', constants'⟩ := u
  obtain rfl : classes = classes' := Std.ExtTreeMap.ext_getElem? (h .cls)
  obtain rfl : functions = functions' := Std.ExtTreeMap.ext_getElem? (h .function)
  obtain rfl : constants = constants' := Std.ExtTreeMap.ext_getElem? (h .constant)
  rfl

end AliasTables

end PhpNames
