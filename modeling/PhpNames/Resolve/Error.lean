/-
  PhpNames.Resolve.Error — why a tree cannot be resolved.  Each cause means that the tree does not
  have the shape it should have; what a program merely leaves open is no error.
-/
import PhpNames.Text.Template
import PhpNames.Tree.Kind

namespace PhpNames

open Text (natText)

/-- A variable name nested in more than `bound` nodes; `line` is that of the first one beyond. -/
structure ChainOverrun where
  bound : Nat
  line : UInt32
  deriving DecidableEq, Repr

/-- Why a tree cannot be resolved. -/
inductive ResolveError where
  /-- A node that is no type stands where a type is due. -/
  | unresolvableType (kind : Kind) (line : UInt32)
  /-- A type keyword has an unknown code. -/
  | unknownKeyword (code line : UInt32)
  /-- A child that is needed is absent, or a node where a leaf is needed. -/
  | missingChild (kind : Kind) (index : Nat) (line : UInt32)
  /-- A node of one kind stands where another kind is due. -/
  | unexpectedKind (expected found : Kind) (line : UInt32)
  /-- A variable name is nested too deep. -/
  | nameChain (overrun : ChainOverrun)
  deriving DecidableEq, Repr

namespace ResolveError

/-- The line an error points at. -/
def line : ResolveError → UInt32
  | unresolvableType _ line => line
  | unknownKeyword _ line => line
  | missingChild _ _ line => line
  | unexpectedKind _ _ line => line
  | nameChain overrun => overrun.line

/-- The message of an error. -/
def message : ResolveError → String
  | unresolvableType kind line =>
    "cannot resolve a type from a `" ++ kind.text ++ "` node on line " ++ natText line.toNat
  | unknownKeyword code line =>
    "unknown type keyword code " ++ natText code.toNat ++ " on line " ++ natText line.toNat
  | missingChild kind index line =>
    "`" ++ kind.text ++ "` node on line " ++ natText line.toNat ++
      " has no usable child at index " ++ natText index
  | unexpectedKind expected found line =>
    "expected a `" ++ expected.text ++ "` node but found `" ++ found.text ++ "` on line " ++
      natText line.toNat
  | nameChain overrun =>
    "variable name chain exceeds " ++ natText overrun.bound ++ " nested nodes near line " ++
      natText overrun.line.toNat

end ResolveError

end PhpNames
