/-
  PhpNames.Proofs.Resolve.Faults — why a tree has no type.

  A type position fails at one node, and only in three ways (`TypeFault`): the node is of a kind that
  is no type, it is a keyword with an unknown code, or it is a name or a nullable type without the
  child that it needs.  A union of types has no fault of its own; it passes on those of its members.
  An expression fails like a type position, if at all (`failsOnly_typeOfNode`).
-/
import PhpNames.Proofs.Resolve.Recorded
import PhpNames.Resolve.Expressions

namespace PhpNames

open Resolution

/-! ## §1. Type positions. -/

/-- The faults of type positions. -/
inductive TypeFault : ResolveError → Prop where
  /-- The kind is that of no type. -/
  | noType {kind : Kind} {line : UInt32}
      (h : kind ≠ .name ∧ kind ≠ .type ∧ kind ≠ .nullableType ∧ kind ≠ .typeUnion) :
      TypeFault (.unresolvableType kind line)
  /-- No keyword has the code. -/
  | noKeyword {code line : UInt32} (h : typeKeyword? code = none) :
      TypeFault (.unknownKeyword code line)
  /-- A name has no text, or a nullable type nothing in it. -/
  | noChild {kind : Kind} {line : UInt32} (h : kind = .name ∨ kind = .nullableType) :
      TypeFault (.missingChild kind 0 line)

namespace Context

/-- A name fails for its missing text only. -/
theorem failsOnly_nameOfNode (c : Context) (k : AliasKind) {n : Node} (h : n.kind = .name) :
    FailsOnly (c.nameOfNode k n) TypeFault := by
  intro e he
  cases htext : n.childText? 0 with
  | some name =>
    rw [value_nameOfNode_of_text htext] at he
    cases he
  | none =>
    rw [value_nameOfNode_of_no_text htext, h] at he
    obtain rfl := Except.error.inj he
    exact .noChild (Or.inl rfl)

mutual

/-- A type node fails for one of the four faults only, its own or one of a node inside. -/
theorem failsOnly_typeOfTypeNode (c : Context) :
    ∀ n : Node, FailsOnly (c.typeOfTypeNode n) TypeFault
  | ⟨kind, flags, line, children⟩ => by
    unfold typeOfTypeNode
    -- each kind of type has its own fault, beside those of the nodes inside
    cases kind with
    | name =>
      exact failsOnly_bind (c.failsOnly_nameOfNode .cls (n := ⟨.name, flags, line, children⟩) rfl)
        fun _ => failsOnly_pure _
    | type =>
      cases hcode : typeKeyword? flags with
      | some keyword => exact failsOnly_pure _
      | none => exact failsOnly_throw (.noKeyword hcode)
    | nullableType =>
      match children with
      | some inner :: _ =>
        exact failsOnly_bind (failsOnly_typeOfType c inner) fun _ => failsOnly_pure _
      | none :: _ => exact failsOnly_throw (.noChild (Or.inr rfl))
      | [] => exact failsOnly_throw (.noChild (Or.inr rfl))
    | typeUnion => exact failsOnly_typeOfMembers c children .empty
    | _ => exact failsOnly_throw (.noType (by decide))
termination_by structural n => n

theorem failsOnly_typeOfType (c : Context) : ∀ t : Child, FailsOnly (c.typeOfType t) TypeFault
  | .node n => failsOnly_typeOfTypeNode c n
  | .leaf _ => failsOnly_pure _
termination_by structural t => t

theorem failsOnly_typeOfMembers (c : Context) :
    ∀ (slots : Slots) (found : UnionType), FailsOnly (c.typeOfMembers found slots) TypeFault
  | [], found => failsOnly_pure found
  | none :: slots, found => failsOnly_typeOfMembers c slots found
  | some member :: slots, found => by
    unfold typeOfMembers
    refine failsOnly_bind (failsOnly_typeOfType c member) ?_
    intro u
    exact failsOnly_typeOfMembers c slots (found.union u)
termination_by structural slots => slots

end

end Context

/-! ## §2. Expressions. -/

/-- A variable always has a type, and so has what nothing is known about. -/
theorem Resolver.failsOnly_typeOfNode (r : Resolver) (n : Node) :
    FailsOnly (r.typeOfNode n) TypeFault := by
  unfold typeOfNode
  cases hk : n.kind with
  | var =>
    intro e he
    cases he
  | name =>
    exact failsOnly_bind (r.context.failsOnly_nameOfNode .cls hk) fun _ => failsOnly_pure _
  | type => exact r.context.failsOnly_typeOfTypeNode n
  | nullableType => exact r.context.failsOnly_typeOfTypeNode n
  | typeUnion => exact r.context.failsOnly_typeOfTypeNode n
  | _ => exact failsOnly_pure _

end PhpNames
