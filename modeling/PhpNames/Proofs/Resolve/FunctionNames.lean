/-
  PhpNames.Proofs.Resolve.FunctionNames — the names of functions and constants.

  In the place of a class, a node that is no name stands for the text of its type.  In the place of a
  function or a constant it stands for the text in its first slot, as if it were a name: the kind of
  the node makes no difference (`nameOfNode_of_text`).

  So the two places agree about a node that is no name only by chance
  (`nameOfNode_eq_qualifiedName_iff`).  Either the text in the first slot, read as a name, is the text
  of the type as well; or there is no such text, and the type fails in the very way in which the name
  does.  That can happen to nullable types alone.
-/
import PhpNames.Proofs.Resolve.Faults
import PhpNames.Proofs.Resolve.NamePositions

namespace PhpNames

/-! ## §1. The kind of a node. -/

namespace Context

variable {c : Context} {k : AliasKind} {n : Node} {name : String}

/-- A node with a text in its first slot is read as a name node, with the same record. -/
theorem nameOfNode_of_text (h : n.childText? 0 = some name) :
    c.nameOfNode k n = c.nameOfNode k ⟨.name, n.flags, n.line, n.children⟩ := by
  have hname : Node.childText? ⟨.name, n.flags, n.line, n.children⟩ 0 = some name := h
  unfold nameOfNode
  rw [h, hname]
  rfl

end Context

/-! ## §2. Function names and class names. -/

namespace Resolver

variable {r : Resolver} {n : Node}

/-- A node that is no name has the text of its type as its name. -/
theorem value_qualifiedName_of_ne_name (h : n.kind ≠ .name) :
    (r.qualifiedName n).run.value = (r.typeOfNode n).run.value.map UnionType.text := by
  rw [qualifiedName_of_ne_name h, Resolution.value_bind_pure]

/-- The only node that is no name and can lack what a name lacks is a nullable type. -/
theorem kind_eq_nullableType_of_missingChild {line : UInt32} (h : n.kind ≠ .name)
    (hfault : (r.typeOfNode n).run.value = .error (.missingChild n.kind 0 line)) :
    n.kind = .nullableType := by
  cases r.failsOnly_typeOfNode n _ hfault with
  | noChild hkind => exact hkind.resolve_left h

/-- **Where functions and classes are named alike**: the name that a node has in the place of a
    function or a constant is the one that it has in the place of a class, exactly when the text in
    its first slot, read as a name, is the text of its type, or the node is a nullable type without
    such a text, and the type lacks the same child of the same line.  A node with a text in its
    first slot is read as a name with this text, whatever its kind. -/
theorem nameOfNode_eq_qualifiedName_iff (r : Resolver) (k : AliasKind) (n : Node)
    (hkind : n.kind ≠ .name) :
    ((r.context.nameOfNode k n).run.value = (r.qualifiedName n).run.value ↔
      (∃ name u, n.childText? 0 = some name ∧ (r.typeOfNode n).run.value = .ok u ∧
        u.text = if n.isRelative then r.context.qualify k name else name) ∨
      (n.kind = .nullableType ∧ n.childText? 0 = none ∧
        (r.typeOfNode n).run.value = .error (.missingChild .nullableType 0 n.line))) ∧
    ∀ name, n.childText? 0 = some name →
      r.context.nameOfNode k n = r.context.nameOfNode k ⟨.name, n.flags, n.line, n.children⟩ := by
  refine ⟨?_, fun name htext => Context.nameOfNode_of_text htext⟩
  rw [value_qualifiedName_of_ne_name hkind]
  -- with a text the one side has a name and never fails; without one it always fails
  cases htext : n.childText? 0 with
  | some name =>
    rw [Context.value_nameOfNode_of_text htext]
    cases htype : (r.typeOfNode n).run.value with
    | ok u =>
      constructor
      · intro h
        exact Or.inl ⟨name, u, rfl, rfl, (Except.ok.inj h).symm⟩
      · intro h
        rcases h with ⟨_, _, hname, hu, hsame⟩ | ⟨-, hnone, -⟩
        · obtain rfl := Option.some.inj hname
          obtain rfl := Except.ok.inj hu
          rw [← hsame]
          rfl
        · cases hnone
    | error e => simp [Except.map]
  | none =>
    -- the two sides agree on a failure only if both blame the same slot of the same kind
    rw [Context.value_nameOfNode_of_no_text htext]
    cases htype : (r.typeOfNode n).run.value with
    | ok u => simp [Except.map]
    | error e =>
      simp only [Except.map, Except.error.injEq, reduceCtorEq, false_and, exists_false, false_or,
        true_and]
      constructor
      · rintro rfl
        have hnullable := kind_eq_nullableType_of_missingChild hkind htype
        exact ⟨hnullable, by rw [hnullable]⟩
      · rintro ⟨hnullable, rfl⟩
        rw [hnullable]

/-- The variable `f` has a type of its own name here, `g` has not. -/
theorem nameOfNode_eq_qualifiedName_iff_variables :
    ∃ (r : Resolver) (f g empty : Node),
      f.kind ≠ .name ∧ g.kind ≠ .name ∧ empty.kind ≠ .name ∧
      (r.context.nameOfNode .function f).run.value = (r.qualifiedName f).run.value ∧
      (r.context.nameOfNode .constant empty).run.value = (r.qualifiedName empty).run.value ∧
      r.context.nameOfNode .function g = r.context.nameOfNode .function (.ofName "g" 0 2) := by
  let r : Resolver := ⟨(Context.ofFile "a.php").bind "f" (.ofText "f"), {}⟩
  let f : Node := .var "f" 1
  let g : Node := .var "g" 2
  let empty : Node := ⟨.nullableType, 0, 3, [none]⟩
  have hf : (r.typeOfNode f).run.value = .ok (.ofText "f") := by
    show Except.ok (r.typeOfName "f" 1).value = _
    rw [value_typeOfName]
    exact congrArg Except.ok (by decide +kernel)
  obtain ⟨hagree, -⟩ := nameOfNode_eq_qualifiedName_iff r .function f (by decide)
  obtain ⟨-, hread⟩ := nameOfNode_eq_qualifiedName_iff r .function g (by decide)
  obtain ⟨hfault, -⟩ := nameOfNode_eq_qualifiedName_iff r .constant empty (by decide)
  exact ⟨r, f, g, empty, by decide, by decide, by decide,
    hagree.mpr (Or.inl ⟨"f", _, rfl, hf, by decide +kernel⟩), hfault.mpr (Or.inr ⟨rfl, rfl, rfl⟩),
    hread "g" rfl⟩

/-- A variable that holds a closure is called by its own name. -/
theorem not_forall_nameOfNode_eq_qualifiedName :
    ¬∀ (r : Resolver) (k : AliasKind) (n : Node), n.kind ≠ .name →
      (r.context.nameOfNode k n).run.value = (r.qualifiedName n).run.value := by
  intro h
  have hsame := h ⟨(Context.ofFile "a.php").bind "f" (.ofText "\\Closure"), {}⟩ .function
    (.var "f" 1) (by decide)
  revert hsame
  decide +kernel

end Resolver

end PhpNames
