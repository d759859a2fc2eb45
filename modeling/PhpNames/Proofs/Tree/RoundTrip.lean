/-
  PhpNames.Proofs.Tree.RoundTrip — trees that are written and read again.

  The text of a tree is read as the tree, but for two things.  A tree of more than 63 nodes in a
  chain is nested too deep to be read.  And a double is read of its digits with roundings of its
  own, so it may come back as its neighbour:

      parse? n.write   =   n.readBack?   if n.depth ≤ 63, and else nothing

  (`Node.parse?_write`), where `readBack?` does nothing but read each double of its digits.  A tree
  without doubles is read as it was; a tree that was read of any text comes back equal if it is
  not one node too deep and each of its doubles comes back equal.
-/
import PhpNames.Proofs.Json.Written
import PhpNames.Proofs.Tree.Depth

namespace PhpNames

open Json

/-! ## §1. Trees as they come back. -/

/-- What a slot holds when the leaf in it has been written and read. -/
def Leaf.readBack? : Leaf → Option (Option Child)
  | .float f => (Number.float f).readBack?.bind slotOfValue?
  | l => some (some (.leaf l))

mutual

/-- The node with each double as it comes back; none if a double does not come back. -/
def Node.readBack? : Node → Option Node
  | ⟨kind, flags, line, children⟩ =>
    (slotsReadBack? children).map fun cs => ⟨kind, flags, line, cs⟩
termination_by structural n => n

/-- What a slot holds when the child in it has been written and read. -/
def Child.readBack? : Child → Option (Option Child)
  | .node n => n.readBack?.map fun n => some (.node n)
  | .leaf l => l.readBack?
termination_by structural c => c

/-- The slots as they come back. -/
def slotsReadBack? : Slots → Option Slots
  | [] => some []
  | none :: cs => (slotsReadBack? cs).map fun cs => none :: cs
  | some c :: cs => do return (← c.readBack?) :: (← slotsReadBack? cs)
termination_by structural cs => cs

end

/-! ## §2. Fields. -/

theorem wordOfValue?_toNat (w : UInt32) : wordOfValue? (.int w.toNat) = some w := by
  show (if 0 ≤ (w.toNat : Int) ∧ (w.toNat : Int) < 0x1_0000_0000 then
    some (UInt32.ofNat (w.toNat : Int).toNat) else none) = some w
  have hw := w.toNat_lt
  rw [if_pos ⟨by omega, by omega⟩, Int.toNat_natCast, UInt32.ofNat_toNat]

/-- A signed word is read as the leaf that holds it. -/
theorem Leaf.ofNumber_toInt (i : Int64) : Leaf.ofNumber (.int i.toInt) = .int i := by
  show (if -(Json.signedBound : Int) ≤ i.toInt ∧ i.toInt < (Json.signedBound : Int) then
    Leaf.int (Int64.ofInt i.toInt) else .float (Float.ofInt i.toInt)) = .int i
  rw [if_pos ⟨i.le_toInt, i.toInt_lt⟩, Int64.ofInt_toInt]

/-- The four fields of a written node, with these values in its slots. -/
def nodeFields (n : Node) (vs : List Value) : Value :=
  .obj [("kind", .str n.kind.text), ("flags", .int n.flags.toNat), ("line", .int n.line.toNat),
    ("children", .arr vs)]

/-- Each field is read as it was written. -/
theorem Node.ofValue?_nodeFields (n : Node) (vs : List Value) :
    Node.ofValue? (nodeFields n vs) =
      (slots? vs).map fun cs => ⟨n.kind, n.flags, n.line, cs⟩ := by
  have hkind : Kind.ofValue? (.str n.kind.text) = some n.kind :=
    congrArg some n.kind.ofText_text
  show (nodeFields? {} [("kind", .str n.kind.text), ("flags", .int n.flags.toNat),
    ("line", .int n.line.toNat), ("children", .arr vs)]).bind NodeFields.node? = _
  simp only [nodeFields?, hkind, wordOfValue?_toNat]
  cases slots? vs <;> rfl

/-- A slot takes what a node is written as for a node. -/
theorem slotOfValue?_nodeFields (n : Node) (vs : List Value) :
    slotOfValue? (nodeFields n vs) =
      (Node.ofValue? (nodeFields n vs)).map fun n => some (.node n) := by
  unfold slotOfValue? nodeFields slotOf?
  rfl

/-- Words come back, so what a written node comes back as depends on its slots only. -/
theorem Node.readBack?_toValue (n : Node) :
    n.toValue.readBack? = (itemsReadBack? (slotValues n.children)).map (nodeFields n) := by
  have hword (w : UInt32) : (Number.int w.toNat).readBack? = some (.int w.toNat) := by
    have hw := w.toNat_lt
    unfold Value.int
    rw [Number.readBack?_int (by unfold signedBound; omega) (by unfold unsignedBound; omega)]
  obtain ⟨kind, flags, line, children⟩ := n
  unfold Node.toValue Value.readBack? Value.int
  simp only [membersReadBack?, Value.readBack?, hword]
  cases itemsReadBack? (slotValues children) <;> rfl

/-- The first slot and the others come back on their own. -/
theorem slots?_itemsReadBack?_cons (v : Value) (vs : List Value) :
    (itemsReadBack? (v :: vs)).bind slots? =
      (v.readBack?.bind slotOfValue?).bind fun slot =>
        ((itemsReadBack? vs).bind slots?).map fun cs => slot :: cs := by
  show (v.readBack?.bind fun w => (itemsReadBack? vs).bind fun ws => some (w :: ws)).bind slots? = _
  cases v.readBack? with
  | none => rfl
  | some w =>
    show ((itemsReadBack? vs).bind fun ws => some (w :: ws)).bind slots? = (slotOfValue? w).bind _
    cases itemsReadBack? vs with
    | none => cases slotOfValue? w <;> rfl
    | some ws =>
      show ((slotOfValue? w).bind fun slot => (slots? ws).bind fun cs => some (slot :: cs)) =
        (slotOfValue? w).bind fun slot => (slots? ws).map fun cs => slot :: cs
      cases slots? ws <;> rfl

/-! ## §3. Trees (the crux). -/

mutual

/-- A written node is read as it comes back. -/
theorem Node.ofValue?_readBack? (n : Node) :
    n.toValue.readBack?.bind Node.ofValue? = n.readBack? :=
  match n with
  | ⟨kind, flags, line, children⟩ => by
    rw [Node.readBack?_toValue]
    unfold Node.readBack?
    rw [← slots?_itemsReadBack? children]
    cases itemsReadBack? (slotValues children) with
    | none => rfl
    | some vs =>
      rw [Option.map_some, Option.bind_some, Option.bind_some, Node.ofValue?_nodeFields]
termination_by structural n

/-- A slot is made of the value of a child, read back, as the child itself is read back. -/
theorem Child.slotOfValue?_readBack? (c : Child) :
    c.toValue.readBack?.bind slotOfValue? = c.readBack? :=
  match c with
  | .node n => by
    show n.toValue.readBack?.bind slotOfValue? = n.readBack?.map fun n => some (.node n)
    rw [← Node.ofValue?_readBack? n, Node.readBack?_toValue]
    cases itemsReadBack? (slotValues n.children) with
    | none => rfl
    | some vs => rw [Option.map_some, Option.bind_some, Option.bind_some, slotOfValue?_nodeFields]
  | .leaf (.str s) => rfl
  | .leaf (.int i) => by
    have hlow := i.le_toInt
    have hhigh := i.toInt_lt
    show (Number.int i.toInt).readBack?.bind slotOfValue? = some (some (.leaf (.int i)))
    -- the 64 bits lie in the range of numbers that JSON texts keep exactly
    rw [Number.readBack?_int hlow (by unfold unsignedBound; omega), ← Leaf.ofNumber_toInt]
    rfl
  | .leaf (.float f) => rfl
termination_by structural c

theorem slots?_itemsReadBack? (cs : Slots) :
    (itemsReadBack? (slotValues cs)).bind slots? = slotsReadBack? cs :=
  match cs with
  | [] => rfl
  | none :: cs => by
    show (itemsReadBack? (.null :: slotValues cs)).bind slots? = (slotsReadBack? cs).map _
    rw [slots?_itemsReadBack?_cons, slots?_itemsReadBack? cs]
    rfl
  | some c :: cs => by
    show (itemsReadBack? (c.toValue :: slotValues cs)).bind slots? =
      c.readBack?.bind fun slot => (slotsReadBack? cs).bind fun cs => some (slot :: cs)
    rw [slots?_itemsReadBack?_cons, slots?_itemsReadBack? cs, c.slotOfValue?_readBack?]
    cases slotsReadBack? cs <;> rfl
termination_by structural cs

end

/-- A written object with no other fields than those of a node is read as the node that it is. -/
theorem Node.parse?_write_obj {ms : List (String × Value)}
    (h : ∀ m ∈ ms, ["kind", "flags", "line", "children"].contains m.1 = true) :
    Node.parse? (Value.obj ms).write = ((Value.obj ms).readAt? 0).bind Node.ofValue? := by
  unfold Node.parse?
  rw [Document.parse?_write, ← Value.select?_document? h, Option.bind_assoc]
  rfl

/-- **A written tree is read up to a depth of 63 nodes**, each double as it comes back. -/
theorem Node.parse?_write (n : Node) :
    Node.parse? n.write = if n.depth ≤ 63 then n.readBack? else none := by
  have hparse : Node.parse? n.write = (n.toValue.readAt? 0).bind Node.ofValue? := by
    obtain ⟨kind, flags, line, children⟩ := n
    unfold Node.write Node.toValue
    exact Node.parse?_write_obj (by simp)
  rw [hparse]
  unfold Value.readAt?
  rw [n.nesting_toValue]
  by_cases hdepth : n.depth ≤ 63
  · rw [if_pos hdepth, if_pos (by unfold maxNesting; omega), n.ofValue?_readBack?]
  · rw [if_neg hdepth, if_neg (by unfold maxNesting; omega)]
    rfl

/-! ## §4. Trees without doubles. -/

mutual

/-- The doubles among the leaves of a tree. -/
def Node.doubles : Node → List Float
  | ⟨_, _, _, children⟩ => slotsDoubles children
termination_by structural n => n

/-- The doubles among the leaves of a child. -/
def Child.doubles : Child → List Float
  | .node n => n.doubles
  | .leaf (.float f) => [f]
  | .leaf _ => []
termination_by structural c => c

/-- The doubles among the leaves in slots. -/
def slotsDoubles : Slots → List Float
  | [] => []
  | none :: cs => slotsDoubles cs
  | some c :: cs => c.doubles ++ slotsDoubles cs
termination_by structural cs => cs

end

mutual

/-- A tree without doubles comes back as it is. -/
theorem Node.readBack?_of_no_doubles (n : Node) (h : n.doubles = []) : n.readBack? = some n :=
  match n with
  | ⟨kind, flags, line, children⟩ => by
    unfold Node.readBack?
    rw [slotsReadBack?_of_no_doubles children h]
    rfl
termination_by structural n

theorem Child.readBack?_of_no_doubles (c : Child) (h : c.doubles = []) :
    c.readBack? = some (some c) :=
  match c with
  | .node n => by
    unfold Child.readBack?
    rw [Node.readBack?_of_no_doubles n h]
    rfl
  | .leaf (.str _) => rfl
  | .leaf (.int _) => rfl
  | .leaf (.float _) => nomatch h
termination_by structural c

theorem slotsReadBack?_of_no_doubles (cs : Slots) (h : slotsDoubles cs = []) :
    slotsReadBack? cs = some cs :=
  match cs with
  | [] => rfl
  | none :: cs => by
    unfold slotsReadBack?
    rw [slotsReadBack?_of_no_doubles cs h]
    rfl
  | some c :: cs => by
    obtain ⟨hc, hcs⟩ := List.append_eq_nil_iff.mp h
    unfold slotsReadBack?
    rw [c.readBack?_of_no_doubles hc, slotsReadBack?_of_no_doubles cs hcs]
    rfl
termination_by structural cs

end

/-- **A tree without doubles is read as it was written, up to a depth of 63 nodes**, and a deeper
    one is not read at all. -/
theorem Node.parse?_write_of_no_doubles (n : Node) (h : n.doubles = []) :
    Node.parse? n.write = if n.depth ≤ 63 then some n else none := by
  rw [Node.parse?_write, n.readBack?_of_no_doubles h]

/-- A method call without a name, with the smallest integer and a text that needs escapes. -/
theorem Node.parse?_write_of_no_doubles_call :
    let call : Node := ⟨.methodCall, 0xFFFF_FFFF, 7, [some (.node (.var "thïs" 7)), none,
      some (.leaf (.int (-0x8000_0000_0000_0000))), some (.leaf (.str "\"\\\n\x01"))]⟩
    call.doubles = [] ∧ Node.parse? call.write = some call :=
  ⟨rfl, Node.parse?_write_of_no_doubles _ rfl⟩

end PhpNames
