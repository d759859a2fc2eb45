/-
  PhpNames.Context.Basic — where in a program a node stands: namespace, imports, file, line,
  enclosing class and variables; and what a name means there.
-/
import PhpNames.Context.Alias
import PhpNames.Context.Namespace
import PhpNames.Scope

namespace PhpNames

/-- A place in a program. -/
structure Context where
  space : Namespace := .root
  aliases : AliasTables := {}
  file : String
  line : UInt32 := 0
  enclosingClass : Option String := none
  scope : Scope := {}

/-! ## Qualification -/

/-- How a relative name gets its meaning. -/
inductive Qualification where
  /-- A native type means itself. -/
  | native (name : String)
  /-- The whole name is imported. -/
  | exact (name target : String)
  /-- The first segment is imported; the rest is kept as it is. -/
  | segment (name head target rest : String)
  /-- The name belongs to the current namespace. -/
  | current (space : Namespace) (name : String)
  deriving DecidableEq, Repr

/-- The full name. -/
def Qualification.result : Qualification → String
  | native name => name
  | exact _ target => target
  | segment _ _ target rest => target ++ "\\" ++ rest
  | current space name => space.qualify name

namespace Context

/-- The top of a file: the root namespace, no imports, no variables. -/
def ofFile (file : String) : Context := { file }

/-- Enters a namespace. -/
def withNamespace (c : Context) (written : String) : Context :=
  { c with space := .ofText written }

/-- Replaces all imports. -/
def withAliases (c : Context) (aliases : AliasTables) : Context := { c with aliases }

/-- Adds an import. -/
def withAlias (c : Context) (k : AliasKind) (short target : String) : Context :=
  { c with aliases := c.aliases.insert k short target }

/-- Moves to a line. -/
def withLine (c : Context) (line : UInt32) : Context := { c with line }

/-- Enters the body of a class. -/
def withClass (c : Context) (name : String) : Context := { c with enclosingClass := some name }

/-- Enters a function body with its own variables. -/
def withScope (c : Context) (scope : Scope) : Context := { c with scope }

/-- Binds a variable. -/
def bind (c : Context) (name : String) (u : UnionType) : Context :=
  { c with scope := c.scope.bind name u }

/-- The full name behind an imported one. -/
def alias? (c : Context) (k : AliasKind) (short : String) : Option String :=
  c.aliases.get? k short

/-- How a relative name gets its meaning.  A class name that spells a native type stays; after that
    the whole name may be imported, or else its first segment; the namespace comes last. -/
def qualification (c : Context) (k : AliasKind) (name : String) : Qualification :=
  if k = .cls ∧ isNativeTypeName name then .native name
  else
    match c.alias? k name with
    | some target => .exact name target
    | none =>
      match splitSegment? name with
      | none => .current c.space name
      | some (head, rest) =>
        match c.alias? k head with
        | some target => .segment name head target rest
        | none => .current c.space name

/-- The full name that a relative name stands for. -/
def qualify (c : Context) (k : AliasKind) (name : String) : String :=
  (c.qualification k name).result

end Context

end PhpNames
