/-
  PhpNames.Resolve.Expressions — what expressions and name positions stand for.

  The type of an expression is known for literals, variables, names and types; of everything else
  nothing is known.  A name position that holds an expression stands for the text of its type.
-/
import PhpNames.Resolve.Types
import PhpNames.Resolve.Variables

namespace PhpNames.Resolver

/-- The type of a node as an expression. -/
def typeOfNode (r : Resolver) (n : Node) : Resolution UnionType :=
  match n.kind with
  | .var => r.variableType n
  | .name => do return .ofText (← r.context.nameOfNode .cls n)
  | .type | .nullableType | .typeUnion => r.context.typeOfTypeNode n
  | _ => return .empty

/-- The type of an expression. -/
def typeOfExpression (r : Resolver) : Child → Resolution UnionType
  | .node n => r.typeOfNode n
  | .leaf (.str _) => return .ofText "string"
  | .leaf (.int _) => return .ofText "int"
  | .leaf (.float _) => return .ofText "float"

/-- The full name in a class-name position. -/
def qualifiedName (r : Resolver) (n : Node) : Resolution String :=
  if n.kind = .name then r.context.nameOfNode .cls n
  else do return (← r.typeOfNode n).text

/-- The full name of one entry of a name list; a leaf stands for itself. -/
def qualifiedEntry (r : Resolver) : Child → Resolution String
  | .node n => r.qualifiedName n
  | .leaf l => return l.text

/-- The full names of a name list, in order, up to the first failure.  What is not a node is an
    empty list. -/
def qualifiedNames (r : Resolver) : Option Child → Resolution (List String)
  | some (.node list) => list.present.mapM r.qualifiedEntry
  | _ => return []

end PhpNames.Resolver
