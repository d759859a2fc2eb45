/-
  PhpNames.Tree.Node — syntax trees.

  A node has a kind, a flag word, a line and child slots.  A slot is absent or holds a child: a
  node or a scalar leaf.
-/
import PhpNames.Decimal.Layout
import PhpNames.Tree.Kind

namespace PhpNames

/-! ## Leaves -/

/-- A scalar in a tree. -/
inductive Leaf where
  | str (s : String)
  | int (i : Int64)
  | float (f : Float)
  deriving Repr

namespace Leaf

/-- Doubles in names are written without exponent, whole numbers without a point, and of two
    equally near decimals the upper one is written. -/
def floatLayout : Decimal.Layout where
  tie := .up
  positional _ := true
  wholeTail := ""

/-- The text of a double. -/
def floatText (f : Float) : String :=
  if f.isNaN then "NaN"
  else if f.isInf then if Decimal.isNegative f then "-inf" else "inf"
  else floatLayout.render f

/-- The text of a leaf. -/
def text : Leaf → String
  | str s => s
  | int i => String.ofList (Decimal.intChars i.toInt)
  | float f => floatText f

/-- Equality of leaves of one kind; doubles are compared as numbers. -/
def same : Leaf → Leaf → Bool
  | str s, str t => s == t
  | int i, int j => i == j
  | float f, float g => f == g
  | _, _ => false

end Leaf

/-! ## Nodes -/

mutual

/-- A node of a syntax tree. -/
structure Node where
  kind : Kind
  flags : UInt32
  line : UInt32
  children : List (Option Child)

/-- What a child slot holds. -/
inductive Child where
  | node (n : Node)
  | leaf (l : Leaf)

end

/-- The child slots of a node; a slot may be absent. -/
abbrev Slots := List (Option Child)

namespace Child

/-- The node in a child. -/
def node? : Child → Option Node
  | node n => some n
  | leaf _ => none

/-- The text of a leaf; a node has none. -/
def text? : Child → Option String
  | node _ => none
  | leaf l => some l.text

/-- Whether the child is a node. -/
def isNode : Child → Bool
  | node _ => true
  | leaf _ => false

end Child

namespace Node

/-- A name node. -/
def ofName (text : String) (flags line : UInt32) : Node :=
  ⟨.name, flags, line, [some (.leaf (.str text))]⟩

/-- A variable with a plain name. -/
def var (name : String) (line : UInt32) : Node :=
  ⟨.var, 0, line, [some (.leaf (.str name))]⟩

/-- A variable whose name is the value of a node. -/
def varOf (inner : Node) (line : UInt32) : Node :=
  ⟨.var, 0, line, [some (.node inner)]⟩

/-- A type keyword. -/
def ofKeyword (code line : UInt32) : Node :=
  ⟨.type, code, line, []⟩

/-- Whether any of the bits is set. -/
def hasFlag (n : Node) (bits : UInt32) : Bool := n.flags &&& bits != 0

/-- Whether a name was written without a leading backslash. -/
def isRelative (n : Node) : Bool := n.hasFlag relativeFlag

/-- The child in a slot, unless the slot is absent or out of range. -/
def child? (n : Node) (i : Nat) : Option Child := n.children[i]?.join

/-- The node in a slot. -/
def childNode? (n : Node) (i : Nat) : Option Node := (n.child? i).bind Child.node?

/-- The text of the leaf in a slot. -/
def childText? (n : Node) (i : Nat) : Option String := (n.child? i).bind Child.text?

/-- The children, without the absent slots. -/
def present (n : Node) : List Child := n.children.filterMap id

end Node

/-! ## Equality -/

mutual

/-- Equality of trees; doubles are compared as numbers. -/
def Node.same : Node → Node → Bool
  | ⟨k, f, l, cs⟩, ⟨k', f', l', cs'⟩ => k == k' && f == f' && l == l' && sameSlots cs cs'
termination_by structural m => m

/-- Equality of children. -/
def Child.same : Child → Child → Bool
  | .node m, .node n => m.same n
  | .leaf a, .leaf b => a.same b
  | _, _ => false
termination_by structural c => c

/-- Equality of slots. -/
def sameSlots : Slots → Slots → Bool
  | [], [] => true
  | none :: cs, none :: ds => sameSlots cs ds
  | some c :: cs, some d :: ds => c.same d && sameSlots cs ds
  | _, _ => false
termination_by structural cs => cs

end

instance : BEq Node := ⟨Node.same⟩

example : (Leaf.float 1e21).text = "1000000000000000000000" := by decide +kernel
example : (Leaf.float (-0.0)).text = "-0" := by decide +kernel
example : Node.same (.var "x" 1) (.var "x" 2) = false := by decide +kernel

end PhpNames
