/-
  PhpNames.Tree.Json — the JSON form of syntax trees.

  A node is written as an object with the fields `kind`, `flags`, `line` and `children`.  It is
  read from such an object, in which all fields but the kind may be missing, or from an array of
  the field values in that order, of which the last ones may be missing.
-/
import PhpNames.Json.Document
import PhpNames.Tree.Node

namespace PhpNames

open Json (Value Number Document)

/-! ## Writing -/

/-- A leaf as a value. -/
def Leaf.toValue : Leaf → Value
  | .str s => .str s
  | .int i => .num (.int i.toInt)
  | .float f => .num (.float f)

mutual

/-- A node as a value, with all of its fields. -/
def Node.toValue : Node → Value
  | ⟨kind, flags, line, children⟩ => .obj
    [("kind", .str kind.text), ("flags", .int flags.toNat), ("line", .int line.toNat),
      ("children", .arr (slotValues children))]
termination_by structural n => n

/-- A child as a value. -/
def Child.toValue : Child → Value
  | .node n => n.toValue
  | .leaf l => l.toValue
termination_by structural c => c

/-- Slots as values; an absent one is null. -/
def slotValues : Slots → List Value
  | [] => []
  | none :: cs => .null :: slotValues cs
  | some c :: cs => c.toValue :: slotValues cs
termination_by structural cs => cs

end

/-- The JSON text of a node. -/
def Node.write (n : Node) : String := n.toValue.write

/-! ## Reading -/

/-- Reads a kind: its name, or an object in which the name is the only key and stands for null. -/
def Kind.ofValue? : Value → Option Kind
  | .str s => some (ofText s)
  | .obj [(s, .null)] => some (ofText s)
  | _ => none

/-- Reads a word of 32 bits: an integer in its range. -/
def wordOfValue? : Value → Option UInt32
  | .num (.int i) => if 0 ≤ i ∧ i < 0x1_0000_0000 then some (UInt32.ofNat i.toNat) else none
  | _ => none

/-- Reads a leaf from a number: an integer of a signed word, or else a double. -/
def Leaf.ofNumber : Number → Leaf
  | .int i =>
    if -Json.signedBound ≤ i ∧ i < Json.signedBound then .int (Int64.ofInt i)
    else .float (Float.ofInt i)
  | .float f => .float f

/-- The fields of a node that have been read. -/
structure NodeFields where
  kind : Option Kind := none
  flags : Option UInt32 := none
  line : Option UInt32 := none
  children : Option Slots := none

/-- The node with these fields; only the kind is needed. -/
def NodeFields.node? (fields : NodeFields) : Option Node :=
  fields.kind.map fun k =>
    ⟨k, fields.flags.getD 0, fields.line.getD 0, fields.children.getD []⟩

/-- What a value in a slot stands for, given the node that it can be read as. -/
def slotOf? (v : Value) (node? : Option Node) : Option (Option Child) :=
  match v with
  | .null => some none
  | .bool _ => none
  | .num n => some (some (.leaf (.ofNumber n)))
  | .str s => some (some (.leaf (.str s)))
  | .arr _ | .obj _ => node?.map fun n => some (.node n)

mutual

/-- Reads a node. -/
def Node.ofValue? : Value → Option Node
  | .obj ms => (nodeFields? {} ms).bind NodeFields.node?
  | .arr [k] => do return ⟨← Kind.ofValue? k, 0, 0, []⟩
  | .arr [k, f] => do return ⟨← Kind.ofValue? k, ← wordOfValue? f, 0, []⟩
  | .arr [k, f, l] => do return ⟨← Kind.ofValue? k, ← wordOfValue? f, ← wordOfValue? l, []⟩
  | .arr [k, f, l, .arr vs] => do
    return ⟨← Kind.ofValue? k, ← wordOfValue? f, ← wordOfValue? l, ← slots? vs⟩
  | _ => none
termination_by structural v => v

/-- Reads the members of an object as fields of a node.  A field may be given once; members with
    other keys are passed over. -/
def nodeFields? (fields : NodeFields) : List (String × Value) → Option NodeFields
  | [] => some fields
  | (key, v) :: ms =>
    if key = "kind" then do
      let k ← Kind.ofValue? v
      if fields.kind.isSome then none else nodeFields? { fields with kind := some k } ms
    else if key = "flags" then do
      let f ← wordOfValue? v
      if fields.flags.isSome then none else nodeFields? { fields with flags := some f } ms
    else if key = "line" then do
      let l ← wordOfValue? v
      if fields.line.isSome then none else nodeFields? { fields with line := some l } ms
    else if key = "children" then
      match v with
      | .arr vs => do
        let cs ← slots? vs
        if fields.children.isSome then none
        else nodeFields? { fields with children := some cs } ms
      | _ => none
    else nodeFields? fields ms
termination_by structural ms => ms

/-- Reads slots; null is an absent one. -/
def slots? : List Value → Option Slots
  | [] => some []
  | v :: vs => do return (← slotOf? v (Node.ofValue? v)) :: (← slots? vs)
termination_by structural vs => vs

end

/-- Reads what a slot may hold. -/
def slotOfValue? (v : Value) : Option (Option Child) := slotOf? v (Node.ofValue? v)

/-- Reads a document as a node. -/
def Node.ofDocument? (d : Document) : Option Node :=
  (d.select? ["kind", "flags", "line", "children"]).bind Node.ofValue?

/-- Reads a JSON text as a node. -/
def Node.parse? (text : String) : Option Node :=
  (Document.parse? text).bind Node.ofDocument?

/-- Reads a JSON text as a kind. -/
def Kind.parse? (text : String) : Option Kind :=
  (Value.parse? text).bind Kind.ofValue?

example : (Node.parse? "[\"name\",1,2,[\"X\",null,-0.0]]").map Node.write =
    some ("\x7b\"kind\":\"name\",\"flags\":1,\"line\":2," ++
      "\"children\":[\"X\",null,-0.0]\x7d") := by decide +kernel

end PhpNames
