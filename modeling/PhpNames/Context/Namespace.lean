/-
  PhpNames.Context.Namespace — namespaces.  A namespace is kept by its path from the root: a
  backslash, followed by the segments if it is not the root itself.
-/
import PhpNames.Text.Trim

namespace PhpNames

/-- The separator of segments. -/
def separator : Char := '\\'

/-- Splits a name at its first separator. -/
def splitSegment? (name : String) : Option (String × String) :=
  let cs := name.toList
  match cs.dropWhile (· != separator) with
  | [] => none
  | _ :: rest => some (String.ofList (cs.takeWhile (· != separator)), String.ofList rest)

/-- A namespace by its path from the root. -/
structure Namespace where
  path : String
  deriving DecidableEq, Repr

namespace Namespace

/-- The root namespace. -/
def root : Namespace := ⟨"\\"⟩

/-- Reads a written namespace: without the blanks around it, and then without the separators
    around it. -/
def ofText (written : String) : Namespace :=
  match Text.cut (· == separator) (Text.trim written).toList with
  | [] => root
  | cs => ⟨String.ofList (separator :: cs)⟩

/-- The full name of a name inside the namespace. -/
def qualify (ns : Namespace) (name : String) : String :=
  if ns.path.toList.getLast? = some separator then ns.path ++ name
  else ns.path ++ "\\" ++ name

example : ofText " \\App\\Sub\\ " = ⟨"\\App\\Sub"⟩ := by decide +kernel
example : root.qualify "X" = "\\X" := by decide +kernel
example : splitSegment? "A\\B\\C" = some ("A", "B\\C") := by decide +kernel

end Namespace

end PhpNames
