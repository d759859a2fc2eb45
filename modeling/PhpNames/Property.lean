/-
  PhpNames.Property — class properties and their declared types.  A property keeps the place of its
  declaration; its type is not set at first and may be set again.
-/
import PhpNames.Resolve.Types

namespace PhpNames

/-- A declared property. -/
structure Property where
  name : String
  context : Context
  flags : UInt32
  declared : Option UnionType := none

namespace Property

/-- A name without one leading dollar sign. -/
def stripSigil (name : String) : String :=
  match name.toList with
  | '$' :: cs => String.ofList cs
  | _ => name

/-- The property that a node declares, at the node's line. -/
def ofNode (c : Context) (n : Node) : Except ResolveError Property :=
  if n.kind ≠ .propElem then .error (.unexpectedKind .propElem n.kind n.line)
  else
    match n.childText? 0 with
    | none => .error (.missingChild n.kind 0 n.line)
    | some name => .ok ⟨stripSigil name, c.withLine n.line, n.flags, none⟩

/-- Who may see the property. -/
def visibility (p : Property) : Visibility := .ofFlags p.flags

/-- Whether the property belongs to the class itself. -/
def isStatic (p : Property) : Bool := Modifier.static.isSet p.flags

/-- The declared type; nothing is known while it is not set. -/
def declaredType (p : Property) : UnionType := p.declared.getD .empty

/-- Whether a type has been set. -/
def hasDeclaredType (p : Property) : Bool := p.declared.isSome

/-- Sets the declared type. -/
def setDeclared (p : Property) (u : UnionType) : Logged Property :=
  ⟨{ p with declared := some u },
    match p.declared with
    | none => []
    | some previous => [.typeOverwritten p.name previous.text u.text]⟩

/-- Sets the declared type to what stands in a type position at the place of the declaration.  An
    absent type changes nothing. -/
def resolveDeclared (p : Property) : Option Child → Resolution Property
  | none => return p
  | some t => do
    let u ← p.context.typeOfType t
    p.setDeclared u

end Property

end PhpNames
