/-
  PhpNames.Resolve.Types — the union types that stand in type positions.

  A type position holds a leaf, whose text is a type text, or a type node: a class name, a type
  keyword, a nullable type or a union of types.  The first node of another shape, in reading
  order, is an error.
-/
import PhpNames.Resolve.Names

namespace PhpNames

namespace Context

mutual

/-- The type of a type node. -/
def typeOfTypeNode (c : Context) : Node → Resolution UnionType
  | ⟨kind, flags, line, children⟩ =>
    match kind with
    | .name => do return .ofText (← c.nameOfNode .cls ⟨.name, flags, line, children⟩)
    | .type =>
      match typeKeyword? flags with
      | some keyword => return .ofText keyword
      | none => throw (.unknownKeyword flags line)
    | .nullableType =>
      match children with
      | some inner :: _ => do return (← typeOfType c inner).nullable
      | _ => throw (.missingChild .nullableType 0 line)
    | .typeUnion => typeOfMembers c .empty children
    | kind => throw (.unresolvableType kind line)
termination_by structural n => n

/-- The type in a type position. -/
def typeOfType (c : Context) : Child → Resolution UnionType
  | .node n => typeOfTypeNode c n
  | .leaf l => return .ofText l.text
termination_by structural t => t

/-- The union of the members, joined to what has been found so far; absent slots count as
    nothing. -/
def typeOfMembers (c : Context) (found : UnionType) : Slots → Resolution UnionType
  | [] => return found
  | none :: slots => typeOfMembers c found slots
  | some member :: slots => do
    let u ← typeOfType c member
    typeOfMembers c (found.union u) slots
termination_by structural slots => slots

end

end Context

end PhpNames
