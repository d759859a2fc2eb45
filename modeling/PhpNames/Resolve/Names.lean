/-
  PhpNames.Resolve.Names — the full names that name nodes stand for.
-/
import PhpNames.Context.Basic
import PhpNames.Event
import PhpNames.Tree.Node

namespace PhpNames

open Logged (emit)

/-- What an observer is told about a qualification. -/
def Qualification.events : Qualification → List Event
  | native _ => []
  | exact name target => [.exactAlias name target]
  | segment name head target _ => [.segmentAlias name head target]
  | current _ _ => []

namespace Context

/-- The full name that a relative name stands for, with a record of the import it uses. -/
def qualifyLogged (c : Context) (k : AliasKind) (name : String) : Logged String :=
  let q := c.qualification k name
  ⟨q.result, q.events⟩

/-- The full name of a node whose first child is a name, of whatever kind the node is.  A name that
    is not relative is full already. -/
def nameOfNode (c : Context) (k : AliasKind) (n : Node) : Resolution String :=
  match n.childText? 0 with
  | none => throw (.missingChild n.kind 0 n.line)
  | some name =>
    if n.isRelative then do
      let full ← c.qualifyLogged k name
      emit (.qualified k name full)
      return full
    else return name

end Context

end PhpNames
