/-
  PhpNames.Proofs.Resolve.ContextReads — what resolution reads of a context.

  A context says a lot about a place, and an answer depends on little of it:

      a name of some kind              the namespace, and the imports of this kind,
      a type position, a class name    the namespace, and the imports of classes,
      a plain variable                 what it is bound to, and the file for a report.

  So two contexts that agree on this part cannot be told apart, by the answer, by the error or by
  the record (`Context.SameNames.nameOfNode`, `Context.SameNames.typeOfType`,
  `Resolver.related_variableType`).  For a type position this goes through the whole tree, as in
  the definition; a variable is looked up once.
-/
import PhpNames.Proofs.Context.Qualification
import PhpNames.Proofs.Resolve.VariableTypes

namespace PhpNames

/-! ## §1. Names. -/

namespace Context

/-- Both contexts have the same namespace, and the same import of every short name of the kind. -/
structure SameNames (k : AliasKind) (c d : Context) : Prop where
  space : c.space = d.space
  imports : ∀ short, c.alias? k short = d.alias? k short

/-- A name gets the same full form, with the same record, in both contexts. -/
theorem SameNames.qualifyLogged {k : AliasKind} {c d : Context} (h : SameNames k c d)
    (name : String) : c.qualifyLogged k name = d.qualifyLogged k name := by
  have hsame : c.qualification k name = d.qualification k name :=
    qualification_congr h.space fun _ => ⟨h.imports name, fun head _ _ => h.imports head⟩
  unfold Context.qualifyLogged
  rw [hsame]

/-- A name node stands for the same name in both contexts. -/
theorem SameNames.nameOfNode {k : AliasKind} {c d : Context} (h : SameNames k c d) (n : Node) :
    c.nameOfNode k n = d.nameOfNode k n := by
  unfold Context.nameOfNode
  cases n.childText? 0 with
  | none => rfl
  | some name =>
    dsimp only
    rw [h.qualifyLogged name]

/-! ## §2. Type positions. -/

mutual

/-- A type node is resolved alike in both contexts, with the same record, by induction over the
    tree. -/
theorem SameNames.typeOfTypeNode {c d : Context} (h : SameNames .cls c d) :
    ∀ n : Node, c.typeOfTypeNode n = d.typeOfTypeNode n
  | ⟨kind, flags, line, children⟩ => by
    unfold Context.typeOfTypeNode
    -- only the name nodes look at the context
    cases kind with
    | name =>
      dsimp only
      rw [h.nameOfNode]
    | type => rfl
    | nullableType =>
      match children with
      | some inner :: _ =>
        dsimp only
        rw [SameNames.typeOfType h inner]
      | none :: _ => rfl
      | [] => rfl
    | typeUnion => exact SameNames.typeOfMembers h children .empty
    | _ => rfl
termination_by structural n => n

theorem SameNames.typeOfType {c d : Context} (h : SameNames .cls c d) :
    ∀ t : Child, c.typeOfType t = d.typeOfType t
  | .node n => SameNames.typeOfTypeNode h n
  | .leaf _ => rfl
termination_by structural t => t

theorem SameNames.typeOfMembers {c d : Context} (h : SameNames .cls c d) :
    ∀ (slots : Slots) (found : UnionType), c.typeOfMembers found slots = d.typeOfMembers found slots
  | [], _ => rfl
  | none :: slots, found => SameNames.typeOfMembers h slots found
  | some member :: slots, found => by
    unfold Context.typeOfMembers
    rw [SameNames.typeOfType h member]
    -- the rest is read with whatever this member has brought
    congr 1
    funext u
    exact SameNames.typeOfMembers h slots (found.union u)
termination_by structural slots => slots

end

end Context

/-- A union is the same type as itself. -/
theorem UnionType.sameType_refl (u : UnionType) : u.sameType u = true := by
  have hself : u.includes u = true := includes_iff.mpr fun _ ha => ha
  unfold sameType
  rw [hself, beq_self_eq_true]
  rfl

namespace Resolver

/-! ## §3. Full names, and variables. -/

/-- Only the full name of a variable depends on more than names do. -/
theorem qualifiedName_congr {c d : Context} (h : c.SameNames .cls d) (o : Options) {n : Node}
    (hn : n.kind ≠ .var) : qualifiedName ⟨c, o⟩ n = qualifiedName ⟨d, o⟩ n := by
  unfold qualifiedName typeOfNode
  dsimp only
  rw [h.nameOfNode n, h.typeOfTypeNode n]
  cases hk : n.kind with
  | var => exact absurd hk hn
  | _ => rfl

variable {R : UnionType → UnionType → Prop}

/-- Where a variable is bound to related unions, or in neither place, it has related types, and the
    record is the same. -/
theorem related_typeOfName (hR : ∀ u, R u u) {c d : Context} (o : Options) {name : String}
    (hfile : c.file = d.file) (hbound : Option.Rel R (c.scope.get? name) (d.scope.get? name))
    (line : UInt32) :
    R (typeOfName ⟨c, o⟩ name line).value (typeOfName ⟨d, o⟩ name line).value ∧
      (typeOfName ⟨c, o⟩ name line).events = (typeOfName ⟨d, o⟩ name line).events := by
  unfold typeOfName
  dsimp only
  rcases hc : c.scope.get? name with _ | u
  · rcases hd : d.scope.get? name with _ | v
    · -- what is done about an unbound variable is decided by the options
      have hpresent : isSuperglobal ⟨c, o⟩ name = isSuperglobal ⟨d, o⟩ name := rfl
      dsimp only
      rw [hfile, hpresent]
      exact ⟨hR _, rfl⟩
    · rw [hc, hd] at hbound
      cases hbound
  · rcases hd : d.scope.get? name with _ | v
    · rw [hc, hd] at hbound
      cases hbound
    · rw [hc, hd] at hbound
      cases hbound with
      | some huv => exact ⟨huv, rfl⟩

/-- If two contexts give related types to the one variable that a node may name, they give related
    types to the node, and tell the same about it. -/
theorem related_variableType (hR : ∀ u, R u u) {c d : Context} (o : Options) (n : Node)
    (hfile : c.file = d.file)
    (hbound : ∀ name, n.childText? 0 = some name →
      Option.Rel R (c.scope.get? name) (d.scope.get? name)) :
    R (variableType ⟨c, o⟩ n).value (variableType ⟨d, o⟩ n).value ∧
      (variableType ⟨c, o⟩ n).events = (variableType ⟨d, o⟩ n).events := by
  cases hname : n.childText? 0 with
  | some name =>
    rw [variableType_of_name hname, variableType_of_name hname]
    exact related_typeOfName hR o hfile (hbound name hname) n.line
  | none =>
    -- without a plain name nothing is looked up
    obtain ⟨u, -, hfixed⟩ := exists_variableType_of_not_plain hname
    rw [hfixed ⟨c, o⟩, hfixed ⟨d, o⟩]
    exact ⟨hR u, rfl⟩

/-- **Nothing else is read.**  Type positions and full names of nodes that are no variables come out
    the same in all contexts with the same namespace and the same imports of classes, and names of
    any kind in those with the same imports of their kind, errors included.  A variable has the same
    type and the same report in all contexts of a file where its name, if it has a plain one, is
    bound to the same union or in none of them; where these unions have the same atoms in another
    order, so have the types. -/
theorem answers_of_agreeing_contexts :
    (∀ c d : Context, c.SameNames .cls d →
      (∀ t : Child, c.typeOfType t = d.typeOfType t) ∧
      (∀ n : Node, c.typeOfTypeNode n = d.typeOfTypeNode n) ∧
      ∀ (o : Options) (n : Node), n.kind ≠ .var →
        qualifiedName ⟨c, o⟩ n = qualifiedName ⟨d, o⟩ n) ∧
    (∀ (k : AliasKind) (c d : Context), c.SameNames k d →
      ∀ n : Node, c.nameOfNode k n = d.nameOfNode k n) ∧
    ∀ (c d : Context) (o : Options) (n : Node), c.file = d.file →
      ((∀ name, n.childText? 0 = some name → c.scope.get? name = d.scope.get? name) →
        variableType ⟨c, o⟩ n = variableType ⟨d, o⟩ n) ∧
      ((∀ name, n.childText? 0 = some name →
          Option.Rel (fun u v => u.sameType v = true) (c.scope.get? name) (d.scope.get? name)) →
        (variableType ⟨c, o⟩ n).value.sameType (variableType ⟨d, o⟩ n).value = true ∧
        (variableType ⟨c, o⟩ n).diagnostics = (variableType ⟨d, o⟩ n).diagnostics) := by
  refine ⟨?_, ?_, ?_⟩
  · intro c d h
    exact ⟨h.typeOfType, h.typeOfTypeNode, fun o n hn => qualifiedName_congr h o hn⟩
  · intro k c d h n
    exact h.nameOfNode n
  · intro c d o n hfile
    constructor
    · -- equal types are related by equality, and related answers are then equal
      intro hbound
      have hrel : ∀ name, n.childText? 0 = some name →
          Option.Rel Eq (c.scope.get? name) (d.scope.get? name) := by
        intro name hname
        rw [hbound name hname]
        cases d.scope.get? name with
        | none => exact .none
        | some u => exact .some rfl
      obtain ⟨hvalue, hevents⟩ := related_variableType (fun _ => rfl) o n hfile hrel
      exact Logged.ext hvalue hevents
    · intro hbound
      obtain ⟨hvalue, hevents⟩ := related_variableType UnionType.sameType_refl o n hfile hbound
      refine ⟨hvalue, ?_⟩
      unfold Logged.diagnostics
      rw [hevents]

/-- Two contexts agree on names though they are of different files, and two of one file bind a
    variable to the same atoms in another order. -/
theorem answers_of_agreeing_contexts_elsewhere :
    ∃ (c d e : Context) (t x y : Node) (u : UnionType),
      c.SameNames .cls d ∧ c.file ≠ d.file ∧
      c.typeOfTypeNode t = d.typeOfTypeNode t ∧ (d.typeOfTypeNode t).run.value = .ok u ∧
      u.atoms = ["?\\X\\B\\C", "?\\App\\D"] ∧
      qualifiedName ⟨c, {}⟩ t = qualifiedName ⟨d, {}⟩ t ∧
      c.SameNames .constant d ∧ c.nameOfNode .constant x = d.nameOfNode .constant x ∧
      c.file = e.file ∧
      (variableType ⟨c, {}⟩ x).value.sameType (variableType ⟨e, {}⟩ x).value = true ∧
      variableType ⟨c, {}⟩ y = variableType ⟨e, {}⟩ y ∧
      (variableType ⟨e, {}⟩ y).diagnostics = [.undefinedVariable "a.php" 7 "y"] := by
  let c : Context :=
    (((Context.ofFile "a.php").withNamespace "App").withAlias .cls "B" "\\X\\B").bind "x"
      (.ofText "int|A")
  let d : Context :=
    ((((Context.ofFile "b.php").withNamespace " \\App\\").withAlias .cls "B" "\\X\\B").withLine
      9).withAlias .function "B" "\\f"
  let e : Context := (((Context.ofFile "a.php").withClass "\\K").bind "z" .mixed).bind "x"
    (.ofText "A|int")
  let t : Node := ⟨.nullableType, 0, 1, [some (.node ⟨.typeUnion, 0, 1,
    [some (.node (.ofName "B\\C" 1 1)), none, some (.node (.ofName "D" 1 2))]⟩)]⟩
  let x : Node := .var "x" 6
  let y : Node := .var "y" 7
  have himports : ∀ k, k ≠ .function → c.SameNames k d := by
    intro k hk
    refine ⟨by decide +kernel, ?_⟩
    intro short
    have hother : ¬(AliasKind.function = k ∧ "B" = short) := fun h => hk h.1.symm
    rw [Context.alias?_withAlias, if_neg hother]
    rfl
  have hcls : c.SameNames .cls d := himports .cls (by decide)
  have hconstant : c.SameNames .constant d := himports .constant (by decide)
  obtain ⟨htypes, hnames, hvariables⟩ := answers_of_agreeing_contexts
  obtain ⟨-, hnode, hfull⟩ := htypes c d hcls
  have hx : ∀ name, x.childText? 0 = some name →
      Option.Rel (fun u v => u.sameType v = true) (c.scope.get? name) (e.scope.get? name) := by
    intro name hname
    obtain rfl : "x" = name := Option.some.inj hname
    have hc : c.scope.get? "x" = some (.ofText "int|A") := by decide +kernel
    have he : e.scope.get? "x" = some (.ofText "A|int") := by decide +kernel
    rw [hc, he]
    exact .some (by decide +kernel)
  have hy : ∀ name, y.childText? 0 = some name → c.scope.get? name = e.scope.get? name := by
    intro name hname
    obtain rfl : "y" = name := Option.some.inj hname
    decide +kernel
  exact ⟨c, d, e, t, x, y, _, hcls, by decide, hnode t, rfl, by decide +kernel,
    hfull {} t (by decide), hconstant, hnames .constant c d hconstant x, rfl,
    ((hvariables c e {} x rfl).2 hx).1, (hvariables c e {} y rfl).1 hy, by decide +kernel⟩

end Resolver

end PhpNames
