/-
  PhpNames.Proofs.Resolve.Silent — computations that report nothing.

  Names and type positions are decided by imports, namespace and tree alone.  A name may leave a
  record of the import that it uses, but no diagnostic; and a failure is no diagnostic either.  So
  type positions are silent, whether they have a type or not:

    • `silent_nameOfNode` — the full name of a node,
    • `silent_typeOfTypeNode`, `silent_typeOfType` — the type in a type position.

  An expression is not silent, since it may be a variable.  But a variable always has a type, and
  it is looked up only where it is the whole expression.  So an expression or a name position that
  fails has reported nothing (`failsSilently_typeOfExpression`, `failsSilently_qualifiedName`).
-/
import PhpNames.Proofs.Resolve.Recorded
import PhpNames.Resolve.Session

namespace PhpNames

/-! ## §1. Silence. -/

namespace Logged

variable {α β : Type}

/-- The computation reports no diagnostic. -/
def Silent (x : Logged α) : Prop := x.diagnostics = []

theorem silent_pure (a : α) : (pure a : Logged α).Silent := rfl

/-- Two computations are silent if both are. -/
theorem Silent.bind {x : Logged α} {f : α → Logged β} (hx : x.Silent) (hf : ∀ a, (f a).Silent) :
    (x >>= f).Silent := by
  have hrest : (f x.value).diagnostics = [] := hf x.value
  show (x >>= f).diagnostics = []
  rw [diagnostics_bind, hx, hrest]
  rfl

end Logged

namespace Resolution

open Logged (silent_pure)

variable {α β : Type}

theorem silent_ok (a : α) : (pure a : Resolution α).run.Silent := rfl

theorem silent_throw (e : ResolveError) : (throw e : Resolution α).run.Silent := rfl

/-- Two computations that may fail are silent if both are. -/
theorem silent_bind {x : Resolution α} {f : α → Resolution β} (hx : x.run.Silent)
    (hf : ∀ a, (f a).run.Silent) : (x >>= f).run.Silent := by
  rw [ExceptT.run_bind]
  refine Logged.Silent.bind hx ?_
  intro outcome
  cases outcome with
  | ok a => exact hf a
  | error e =>
    -- the failure is passed on, and nothing more is done
    exact silent_pure _

end Resolution

/-! ## §2. Names and type positions. -/

namespace Context

open Resolution

/-- Which import a name uses is an event, but not a diagnostic. -/
theorem silent_qualifyLogged (c : Context) (k : AliasKind) (name : String) :
    (c.qualifyLogged k name).Silent := by
  show (c.qualification k name).events.filterMap Event.diagnostic? = []
  cases c.qualification k name <;> rfl

/-- A name is looked up without a report, though the import that is used is recorded. -/
theorem silent_nameOfNode (c : Context) (k : AliasKind) (n : Node) :
    (c.nameOfNode k n).run.Silent := by
  unfold nameOfNode
  cases n.childText? 0 with
  | none => exact silent_throw _
  | some name =>
    show (if n.isRelative then _ else _ : Resolution String).run.Silent
    split
    · -- the import that is used and the full name are told to the observer only
      refine silent_bind ?_ ?_
      · exact (c.silent_qualifyLogged k name).bind fun _ => rfl
      · intro full
        exact silent_bind rfl fun _ => silent_ok full
    · exact silent_ok name

mutual

/-- **No type position reports anything**, by induction over the tree. -/
theorem silent_typeOfTypeNode (c : Context) : ∀ n : Node, (c.typeOfTypeNode n).run.Silent
  | ⟨kind, flags, line, children⟩ => by
    unfold typeOfTypeNode
    -- only these four kinds are read as types; every other one fails at once, without a report
    cases kind with
    | name =>
      exact silent_bind (c.silent_nameOfNode .cls ⟨.name, flags, line, children⟩)
        fun _ => silent_ok _
    | type =>
      cases typeKeyword? flags with
      | some keyword => exact silent_ok _
      | none => exact silent_throw _
    | nullableType =>
      match children with
      | some inner :: _ => exact silent_bind (silent_typeOfType c inner) fun _ => silent_ok _
      | none :: _ => exact silent_throw _
      | [] => exact silent_throw _
    | typeUnion => exact silent_typeOfMembers c children .empty
    | _ => exact silent_throw _
termination_by structural n => n

theorem silent_typeOfType (c : Context) : ∀ t : Child, (c.typeOfType t).run.Silent
  | .node n => silent_typeOfTypeNode c n
  | .leaf _ => silent_ok _
termination_by structural t => t

theorem silent_typeOfMembers (c : Context) :
    ∀ (slots : Slots) (found : UnionType), (c.typeOfMembers found slots).run.Silent
  | [], found => silent_ok found
  | none :: slots, found => silent_typeOfMembers c slots found
  | some member :: slots, found => by
    unfold typeOfMembers
    refine silent_bind (silent_typeOfType c member) ?_
    intro u
    exact silent_typeOfMembers c slots (found.union u)
termination_by structural slots => slots

end

end Context

/-! ## §3. Failures. -/

namespace Resolution

variable {α β : Type}

/-- Whenever the computation fails, it reports nothing. -/
def FailsSilently (x : Resolution α) : Prop := ∀ e, x.run.value = .error e → x.run.Silent

/-- A computation that reports nothing reports nothing when it fails either. -/
theorem failsSilently_of_silent {x : Resolution α} (h : x.run.Silent) : FailsSilently x :=
  fun _ _ => h

/-- A function of the value does not change what a failure has reported. -/
theorem FailsSilently.bind_pure {x : Resolution α} (h : FailsSilently x) (g : α → β) :
    FailsSilently (x >>= fun a => pure (g a)) := by
  intro e he
  show (x >>= fun a => pure (g a)).run.diagnostics = []
  rw [diagnostics_bind_pure]
  rw [value_bind_pure] at he
  cases hx : x.run.value with
  | ok a =>
    rw [hx] at he
    cases he
  | error reason => exact h reason hx

end Resolution

namespace Resolver

open Resolution

/-- Only a variable is ever reported. -/
theorem silent_typeOfNode_of_ne_var (r : Resolver) {n : Node} (h : n.kind ≠ .var) :
    (r.typeOfNode n).run.Silent := by
  have htype : (r.context.typeOfTypeNode n).run.Silent := r.context.silent_typeOfTypeNode n
  unfold typeOfNode
  cases hkind : n.kind with
  | var => exact absurd hkind h
  | name => exact silent_bind (r.context.silent_nameOfNode .cls n) fun _ => silent_ok _
  | type => exact htype
  | nullableType => exact htype
  | typeUnion => exact htype
  | _ => exact silent_ok UnionType.empty

/-- A node that has no type has reported nothing: only variables report, and these have a type. -/
theorem failsSilently_typeOfNode (r : Resolver) (n : Node) : FailsSilently (r.typeOfNode n) := by
  by_cases hvar : n.kind = .var
  · -- what is reported of a variable comes with a type
    unfold typeOfNode
    rw [hvar]
    intro e he
    cases he
  · exact failsSilently_of_silent (r.silent_typeOfNode_of_ne_var hvar)

theorem failsSilently_typeOfExpression (r : Resolver) (t : Child) :
    FailsSilently (r.typeOfExpression t) := by
  cases t with
  | node n => exact r.failsSilently_typeOfNode n
  | leaf l => cases l <;> exact failsSilently_of_silent (silent_ok _)

/-- A class-name position that has no name has reported nothing. -/
theorem failsSilently_qualifiedName (r : Resolver) (n : Node) :
    FailsSilently (r.qualifiedName n) := by
  unfold qualifiedName
  split
  · exact failsSilently_of_silent (r.context.silent_nameOfNode .cls n)
  · exact (r.failsSilently_typeOfNode n).bind_pure UnionType.text

end Resolver

namespace Session

/-- A silent computation leaves the session as it is. -/
theorem run_of_silent (s : Session) {α : Type} {x : Logged α} (h : x.Silent) :
    (s.run x).2 = s := by
  have hnone : x.diagnostics = [] := h
  unfold run
  rw [hnone, List.append_nil]

/-- A computation that fails silently leaves the session as it is when it fails. -/
theorem run_of_error (s : Session) {α : Type} {x : Resolution α} (h : x.FailsSilently)
    {e : ResolveError} (he : (s.run x.run).1 = .error e) : (s.run x.run).2 = s :=
  s.run_of_silent (h e he)

/-- **Type positions and failures are silent.**  A session holds what it has held before, after a
    type position whether this has a type or not, and after an expression or a name position that
    has none. -/
theorem held_after_types_and_failures (s : Session) :
    (∀ t : Child, (s.run (s.resolver.context.typeOfType t).run).2 = s) ∧
    (∀ n : Node, (s.run (s.resolver.context.typeOfTypeNode n).run).2 = s) ∧
    (∀ (t : Child) (e : ResolveError),
      (s.run (s.resolver.typeOfExpression t).run).1 = .error e →
        (s.run (s.resolver.typeOfExpression t).run).2 = s) ∧
    (∀ (n : Node) (e : ResolveError),
      (s.run (s.resolver.typeOfNode n).run).1 = .error e →
        (s.run (s.resolver.typeOfNode n).run).2 = s) ∧
    ∀ (n : Node) (e : ResolveError),
      (s.run (s.resolver.qualifiedName n).run).1 = .error e →
        (s.run (s.resolver.qualifiedName n).run).2 = s := by
  refine ⟨?_, ?_, ?_, ?_, ?_⟩
  · intro t
    exact s.run_of_silent (s.resolver.context.silent_typeOfType t)
  · intro n
    exact s.run_of_silent (s.resolver.context.silent_typeOfTypeNode n)
  · intro t e he
    exact s.run_of_error (s.resolver.failsSilently_typeOfExpression t) he
  · intro n e he
    exact s.run_of_error (s.resolver.failsSilently_typeOfNode n) he
  · intro n e he
    exact s.run_of_error (s.resolver.failsSilently_qualifiedName n) he

/-- A type position fails at a variable that is not bound, and a name for want of a text; what has
    been held before is held afterwards. -/
theorem held_after_types_and_failures_variable_inside :
    ∃ (s : Session) (n m : Node) (e e' : ResolveError),
      s.pending.length = 1 ∧
      (s.run (s.resolver.context.typeOfType (.node n)).run).2 = s ∧
      (s.run (s.resolver.context.typeOfTypeNode n).run).2 = s ∧
      (s.run (s.resolver.typeOfExpression (.node n)).run).1 = .error e ∧
      (s.run (s.resolver.typeOfExpression (.node n)).run).2 = s ∧
      (s.run (s.resolver.typeOfNode n).run).1 = .error e ∧
      (s.run (s.resolver.typeOfNode n).run).2 = s ∧
      (s.run (s.resolver.qualifiedName m).run).1 = .error e' ∧
      (s.run (s.resolver.qualifiedName m).run).2 = s := by
  let s : Session := ⟨⟨Context.ofFile "a.php", {}⟩, [.undefinedVariable "a.php" 1 "x"]⟩
  -- the variable in the second member is unbound, but is not looked up
  let n : Node := ⟨.typeUnion, 0, 2, [some (.node (.ofName "A" 1 2)),
    some (.node ⟨.nullableType, 0, 3, [some (.node (.var "y" 4))]⟩)]⟩
  let m : Node := ⟨.name, 1, 5, [none, some (.node (.var "y" 6))]⟩
  obtain ⟨htype, htypeNode, hexpression, hnode, hname⟩ := held_after_types_and_failures s
  exact ⟨s, n, m, .unresolvableType .var 4, .missingChild .name 0 5, rfl, htype (.node n),
    htypeNode n, rfl, hexpression (.node n) _ rfl, rfl, hnode n _ rfl, rfl, hname m _ rfl⟩

end Session

end PhpNames
