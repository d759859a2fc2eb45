/-
  PhpNames.Proofs.Resolve.NamePositions — the name and the type of a node, through text.

  A node may be asked for its full name or for its type.  For a name node the type is the name,
  read as a type text.  For every other node the name is the text of the type, and then the type
  has to be the one that this text says.  It is, if no `|` and no blank ever gets into an atom:
  neither from the names, imports and namespaces of the program, nor from the scope.

    • `typeOfNode_eq_qualifiedName` — both ways agree, with one record,
    • `yields_typeOfNode` — no union that is found has such an atom.
-/
import PhpNames.Proofs.Resolve.TypePositions
import PhpNames.Proofs.Resolve.VariableTypes
import PhpNames.Property
import PhpNames.UnitDescription

namespace PhpNames

open UnionType

/-! ## §1. Scopes that are read from texts. -/

/-- Every variable is bound to the union that some text says. -/
def Scope.FromTexts (s : Scope) : Prop :=
  ∀ name u, s.get? name = some u → ∃ text, u = ofText text

/-- A type that was bound from a text can be read from its own text. -/
theorem Scope.FromTexts.readable {s : Scope} (h : s.FromTexts) {name : String} {u : UnionType}
    (hu : s.get? name = some u) : u.Readable := by
  obtain ⟨text, rfl⟩ := h name u hu
  exact readable_ofText text

/-- The variables of a description are bound from texts. -/
theorem UnitDescription.fromTexts_toContext (d : UnitDescription) :
    d.toContext.scope.FromTexts := by
  intro name u hu
  -- the scope is the table of texts in the description, each one read
  have hmap : (d.bindings[name]?).map ofText = some u := by
    rw [← hu]
    exact (Std.ExtTreeMap.getElem?_map (f := fun _ text => ofText text)).symm
  obtain ⟨text, -, rfl⟩ := Option.map_eq_some_iff.mp hmap
  exact ⟨text, rfl⟩

namespace Resolver

/-! ## §2. The unions that nodes have. -/

theorem readable_typeOfName {r : Resolver} (h : r.context.scope.FromTexts) (name : String)
    (line : UInt32) : (r.typeOfName name line).value.Readable := by
  rw [value_typeOfName]
  cases hu : r.context.scope.get? name with
  | some u => exact h.readable hu
  | none => exact readable_empty

/-- In such a scope the type of every variable node can be read from its text. -/
theorem readable_variableType {r : Resolver} (h : r.context.scope.FromTexts) (n : Node) :
    (r.variableType n).value.Readable := by
  cases hname : n.childText? 0 with
  | some name =>
    rw [variableType_of_name hname]
    exact readable_typeOfName h name n.line
  | none =>
    obtain ⟨u, hu, hfixed⟩ := exists_variableType_of_not_plain hname
    rw [hfixed r]
    rcases hu with rfl | rfl
    · exact readable_ofText "mixed"
    · exact readable_empty

/-- In such a scope a node that has a type has one that can be read from its text. -/
theorem yields_typeOfNode {r : Resolver} (h : r.context.scope.FromTexts) (n : Node) :
    Resolution.Yields (r.typeOfNode n) Readable := by
  unfold typeOfNode
  cases hk : n.kind with
  | var =>
    intro u hu
    obtain rfl := Except.ok.inj hu
    exact readable_variableType h n
  | name =>
    exact Resolution.yields_bind_pure (r.context.nameOfNode .cls n) readable_ofText
  | type => exact r.context.yields_typeOfTypeNode n
  | nullableType => exact r.context.yields_typeOfTypeNode n
  | typeUnion => exact r.context.yields_typeOfTypeNode n
  | _ => exact Resolution.yields_pure readable_empty

/-! ## §3. Two ways to the same answer. -/

/-- The type of a name node is what its name is read as. -/
theorem typeOfNode_of_name {r : Resolver} {n : Node} (h : n.kind = .name) :
    r.typeOfNode n = (do return ofText (← r.qualifiedName n)) := by
  unfold typeOfNode qualifiedName
  rw [h, if_pos rfl]

/-- The name of any other node is the text of its type. -/
theorem qualifiedName_of_ne_name {r : Resolver} {n : Node} (h : n.kind ≠ .name) :
    r.qualifiedName n = (do return (← r.typeOfNode n).text) := by
  unfold qualifiedName
  rw [if_neg h]

/-- The union that a node has is the one that its name says. -/
theorem value_typeOfNode {r : Resolver} (h : r.context.scope.FromTexts) (n : Node) :
    (r.typeOfNode n).run.value = (r.qualifiedName n).run.value.map ofText := by
  by_cases hk : n.kind = .name
  · rw [typeOfNode_of_name hk, Resolution.value_bind_pure]
  · -- the name is the text of the type, so the type has to be determined by its text
    rw [qualifiedName_of_ne_name hk, Resolution.value_bind_pure]
    cases hv : (r.typeOfNode n).run.value with
    | error e => rfl
    | ok u =>
      show Except.ok u = Except.ok (ofText u.text)
      rw [(yields_typeOfNode h n u hv).ofText_text]

/-- A node is resolved with the same record, as an expression and in a class-name position. -/
theorem events_typeOfNode (r : Resolver) (n : Node) :
    (r.typeOfNode n).run.events = (r.qualifiedName n).run.events := by
  by_cases hk : n.kind = .name
  · rw [typeOfNode_of_name hk, Resolution.events_bind_pure]
  · rw [qualifiedName_of_ne_name hk, Resolution.events_bind_pure]

end Resolver

/-- A property gets a type that can be read from its text. -/
theorem Property.yields_resolveDeclared (p : Property) (t : Child) :
    Resolution.Yields (p.resolveDeclared (some t)) fun q =>
      ∃ u, q.declared = some u ∧ u.Readable := by
  refine Resolution.yields_bind (p.context.yields_typeOfType t) ?_
  intro u hu q hq
  obtain rfl := Except.ok.inj hq
  exact ⟨u, rfl, hu⟩

/-! ## §4. Names and types agree. -/

/-- **Names and types agree through text**: where the variables in scope have their types from
    texts, as in the context of every description, a node has a type exactly when it has a name,
    namely the type that the name says, with the same error otherwise and the same diagnostics.
    Every union that is found for a node, or in a type position, or is stored in a property, is
    determined by its text. -/
theorem Resolver.typeOfNode_eq_qualifiedName :
    (∀ d : UnitDescription, d.toContext.scope.FromTexts) ∧
    (∀ (r : Resolver) (n : Node), r.context.scope.FromTexts →
      (r.typeOfNode n).run.value = (r.qualifiedName n).run.value.map ofText ∧
      (r.typeOfNode n).run.diagnostics = (r.qualifiedName n).run.diagnostics ∧
      ∀ u, (r.typeOfNode n).run.value = .ok u → ofText u.text = u) ∧
    (∀ (c : Context) (t : Child) (u : UnionType),
      (c.typeOfType t).run.value = .ok u → ofText u.text = u) ∧
    ∀ (p q : Property) (t : Child), (p.resolveDeclared (some t)).run.value = .ok q →
      ∃ u, q.declared = some u ∧ ofText u.text = u := by
  refine ⟨UnitDescription.fromTexts_toContext, ?_, ?_, ?_⟩
  · intro r n h
    refine ⟨value_typeOfNode h n, ?_, ?_⟩
    · unfold Logged.diagnostics
      rw [events_typeOfNode]
    · intro u hu
      exact (yields_typeOfNode h n u hu).ofText_text
  · intro c t u hu
    exact (c.yields_typeOfType t u hu).ofText_text
  · intro p q t hq
    obtain ⟨u, hdeclared, hu⟩ := p.yields_resolveDeclared t q hq
    exact ⟨u, hdeclared, hu.ofText_text⟩

/-- A description binds a variable to a text with two atoms; another text is resolved for a
    property. -/
theorem Resolver.typeOfNode_eq_qualifiedName_bound :
    ∃ (d : UnitDescription) (n : Node) (u : UnionType) (t : Child) (v : UnionType)
      (p q : Property),
      d.toContext.scope.FromTexts ∧
      (typeOfNode ⟨d.toContext, {}⟩ n).run.value = .ok u ∧ u.atoms = ["int", "?X"] ∧
      (qualifiedName ⟨d.toContext, {}⟩ n).run.value.map ofText = .ok u ∧ ofText u.text = u ∧
      (d.toContext.typeOfType t).run.value = .ok v ∧ ofText v.text = v ∧
      (p.resolveDeclared (some t)).run.value = .ok q ∧
      ∃ w, q.declared = some w ∧ ofText w.text = w := by
  let d : UnitDescription := { bindings := Std.ExtTreeMap.empty.insert "x" "int| ?X |int" }
  let n : Node := .var "x" 1
  let t : Child := .leaf (.str "\\A|B")
  let p : Property := ⟨"p", d.toContext, 0, none⟩
  have hx : (typeOfNode ⟨d.toContext, {}⟩ n).run.value = .ok (ofText "int| ?X |int") := by
    show Except.ok (typeOfName ⟨d.toContext, {}⟩ "x" 1).value = _
    rw [value_typeOfName]
    simp [d, UnitDescription.toContext, UnitDescription.scope, Scope.get?]
  obtain ⟨hscope, hagree, htype, hproperty⟩ := typeOfNode_eq_qualifiedName
  obtain ⟨hvalue, -, hread⟩ := hagree ⟨d.toContext, {}⟩ n (hscope d)
  exact ⟨d, n, _, t, _, p, _, hscope d, hx, by decide +kernel, hvalue.symm.trans hx, hread _ hx,
    rfl, htype d.toContext t _ rfl, rfl, hproperty p _ t rfl⟩

end PhpNames
