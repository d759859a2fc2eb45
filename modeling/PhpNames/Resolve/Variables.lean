/-
  PhpNames.Resolve.Variables — the types of variables, and the names of variables below other
  nodes.
-/
import PhpNames.Context.Basic
import PhpNames.Event
import PhpNames.Resolve.Options
import PhpNames.Tree.Node

namespace PhpNames

open Logged (emit report)

/-- The variables that every scope has, without the dollar sign. -/
def superglobals : List String :=
  ["GLOBALS", "_COOKIE", "_ENV", "_FILES", "_GET", "_POST", "_REQUEST", "_SERVER", "_SESSION"]

/-! ## Names of variables -/

/-- The text of the first slot, empty if there is none. -/
def Node.firstText (n : Node) : String := (n.childText? 0).getD ""

/-- The name that a chain of nodes leads to, from child to first child.  It ends at a
    variable-like node, whose first slot holds the name, or at a leaf or an absent slot.  Of other
    nodes no more than `left` are passed. -/
def nameAlong (bound : Nat) : (left : Nat) → Node → Except ChainOverrun String
  | left, ⟨kind, flags, line, children⟩ =>
    if kind.isVariableLike then .ok (Node.firstText ⟨kind, flags, line, children⟩)
    else
      match left, children with
      | 0, _ => .error ⟨bound, line⟩
      | left + 1, some (.node n) :: _ => nameAlong bound left n
      | _ + 1, some (.leaf l) :: _ => .ok l.text
      | _ + 1, _ => .ok ""
termination_by structural _ n => n

/-- The name of the variable that a child stands for, for at most `bound` nodes on the way. -/
def Child.variableName (bound : Nat) : Child → Except ChainOverrun String
  | .leaf l => .ok l.text
  | .node n => nameAlong bound bound n

/-! ## Resolvers -/

/-- A place in a program and the caller's choices. -/
structure Resolver where
  context : Context
  options : Options := {}

namespace Resolver

/-- Whether a variable is present in every scope. -/
def isSuperglobal (r : Resolver) (name : String) : Bool :=
  superglobals.contains name || r.options.extraSuperglobals.contains name

/-- The type of a plain variable.  One that is neither bound nor always present is reported, if
    that is wanted; nothing is known of its type. -/
def typeOfName (r : Resolver) (name : String) (line : UInt32) : Logged UnionType :=
  match r.context.scope.get? name with
  | some u => return u
  | none => do
    if r.isSuperglobal name then
      emit (.unboundSuperglobal name)
    else if r.options.reportUndefined then
      report (.undefinedVariable r.context.file line name)
    return .empty

/-- The type of a variable node, of whatever kind the node is.  A variable named by a variable or
    by an operation may be anything; of one named by another node nothing is known. -/
def variableType (r : Resolver) (n : Node) : Logged UnionType :=
  match n.child? 0 with
  | none => return .empty
  | some (.leaf l) => r.typeOfName l.text n.line
  | some (.node inner) =>
    if inner.kind = .var ∨ inner.kind = .binaryOp then return .mixed else return .empty

/-- The name of the variable that a child stands for. -/
def variableName (r : Resolver) (c : Child) : Except ChainOverrun String :=
  c.variableName r.options.maxNameChain

/-- The name of the variable that a child stands for; one that is nested too deep is reported and
    has the empty name. -/
def variableNameOrEmpty (r : Resolver) (c : Child) : Logged String :=
  match r.variableName c with
  | .ok name => return name
  | .error overrun => do
    emit (.chainRejected (.nameChain overrun))
    report (.malformedNameChain r.context.file overrun.line overrun.bound)
    return ""

end Resolver

end PhpNames
