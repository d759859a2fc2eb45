/-
  PhpNames.Proofs.Resolve.VariableTypes — the types of variables, and the reports of undeclared
  ones.

  A variable with a plain name has the union that it is bound to.  One that is not bound has the
  empty union, as has one that is bound to it, but only the first is undeclared.  This is reported,
  unless the variable is always present or nobody wants to know (`Resolver.Undeclared`):

    • `diagnostics_of_undeclared` — the one report there is, with the variable's own name,
    • `diagnostics_of_not_undeclared` — no other expression is reported.

  The name in the report and the name that the walk along a chain finds are read from the node
  apart.  For a variable node they are the same.
-/
import PhpNames.Proofs.Resolve.Silent
import PhpNames.Proofs.Resolve.VariableNames
import PhpNames.Resolve.Expressions

namespace PhpNames

/-! ## §1. The report. -/

/-- The name stands in the message as it is, whatever braces and digits it has. -/
theorem Diagnostic.message_undefinedVariable (file : String) (line : UInt32) (name : String) :
    (undefinedVariable file line name).message = "Variable $" ++ name ++ " is undeclared" := by
  show Text.substitute (Text.placeholder 0) name "Variable $\x7b0\x7d is undeclared" = _
  have hplace : (Text.placeholder 0).toList = ['\x7b', '0', '\x7d'] := by decide +kernel
  unfold Text.substitute
  rw [hplace, ← String.toList_inj, String.toList_ofList, String.toList_append,
    String.toList_append]
  -- the substitution goes through the template alone, and not through the name that it writes
  rfl

namespace Resolver

variable (r : Resolver)

/-! ## §2. Plain variables. -/

/-- A variable is not always present if it is neither built in nor among the extra names. -/
theorem isSuperglobal_eq_false_iff (name : String) :
    r.isSuperglobal name = false ↔
      name ∉ superglobals ∧ name ∉ r.options.extraSuperglobals := by
  unfold isSuperglobal
  simp

/-- What is reported of a variable has no influence on its type. -/
theorem value_typeOfName (name : String) (line : UInt32) :
    (r.typeOfName name line).value = (r.context.scope.get? name).getD .empty := by
  unfold typeOfName
  cases r.context.scope.get? name with
  | some u => rfl
  | none =>
    dsimp only
    split
    · rfl
    · split <;> rfl

/-- A plain variable is reported once, if it is neither bound nor always present and if that is
    wanted. -/
theorem diagnostics_typeOfName (name : String) (line : UInt32) :
    (r.typeOfName name line).diagnostics =
      if r.context.scope.get? name = none ∧ r.isSuperglobal name = false ∧
          r.options.reportUndefined = true then
        [.undefinedVariable r.context.file line name]
      else [] := by
  unfold typeOfName
  cases hbound : r.context.scope.get? name with
  | some u => rfl
  | none =>
    cases hpresent : r.isSuperglobal name with
    | true => rfl
    | false => cases hwanted : r.options.reportUndefined <;> rfl

/-! ## §3. Variable nodes. -/

variable {r} {n : Node}

/-- A variable with a plain name is looked up under it. -/
theorem variableType_of_name {name : String} (h : n.childText? 0 = some name) :
    r.variableType n = r.typeOfName name n.line := by
  obtain ⟨t, ht, htext⟩ := Option.bind_eq_some_iff.mp h
  unfold variableType
  rw [ht]
  cases t with
  | node m => cases htext
  | leaf l =>
    obtain rfl := Option.some.inj htext
    rfl

/-- A variable that is named by a node is not looked up. -/
theorem variableType_of_node {m : Node} (h : n.childNode? 0 = some m) :
    r.variableType n =
      if m.kind = .var ∨ m.kind = .binaryOp then return .mixed else return .empty := by
  obtain ⟨t, ht, hnode⟩ := Option.bind_eq_some_iff.mp h
  unfold variableType
  rw [ht]
  cases t with
  | leaf l => cases hnode
  | node m' =>
    obtain rfl := Option.some.inj hnode
    rfl

/-- A variable node without a first child has no type that is known. -/
theorem variableType_of_absent (h : n.child? 0 = none) : r.variableType n = return .empty := by
  unfold variableType
  rw [h]

/-- Without a plain name the type is fixed, and nobody is told anything. -/
theorem exists_variableType_of_not_plain (h : n.childText? 0 = none) :
    ∃ u, (u = .mixed ∨ u = .empty) ∧ ∀ r : Resolver, r.variableType n = return u := by
  cases hchild : n.child? 0 with
  | none => exact ⟨.empty, .inr rfl, fun r => variableType_of_absent hchild⟩
  | some t =>
    cases t with
    | leaf l =>
      have hname : n.childText? 0 = some l.text := Option.bind_eq_some_iff.mpr ⟨_, hchild, rfl⟩
      rw [hname] at h
      cases h
    | node m =>
      have hnode : n.childNode? 0 = some m := Option.bind_eq_some_iff.mpr ⟨_, hchild, rfl⟩
      -- an expression for a name is answered by its kind alone, the context is not asked
      by_cases hm : m.kind = .var ∨ m.kind = .binaryOp
      · refine ⟨.mixed, .inl rfl, fun r => ?_⟩
        rw [variableType_of_node hnode, if_pos hm]
      · refine ⟨.empty, .inr rfl, fun r => ?_⟩
        rw [variableType_of_node hnode, if_neg hm]

theorem typeOfExpression_of_var (h : n.kind = .var) :
    r.typeOfExpression (.node n) = liftM (r.variableType n) := by
  show r.typeOfNode n = _
  unfold typeOfNode
  rw [h]

/-- As an expression a variable node has the type of the variable, without a failure. -/
theorem value_typeOfExpression_of_var (h : n.kind = .var) :
    (r.typeOfExpression (.node n)).run.value = .ok (r.variableType n).value := by
  rw [typeOfExpression_of_var h]
  rfl

/-- What is reported about the expression is what is reported about the variable. -/
theorem diagnostics_typeOfExpression_of_var (h : n.kind = .var) :
    (r.typeOfExpression (.node n)).run.diagnostics = (r.variableType n).diagnostics := by
  rw [typeOfExpression_of_var h]
  show (r.variableType n >>= fun u => pure (Except.ok u)).diagnostics = _
  rw [Logged.diagnostics_bind, Logged.diagnostics_pure, List.append_nil]

/-! ## §4. Undeclared variables. -/

/-- The node is a variable with a plain name that is neither bound nor always present, and this is
    to be reported. -/
structure Undeclared (r : Resolver) (n : Node) (name : String) : Prop where
  isVar : n.kind = .var
  plain : n.childText? 0 = some name
  unbound : r.context.scope.get? name = none
  notBuiltIn : name ∉ superglobals
  notExtra : name ∉ r.options.extraSuperglobals
  wanted : r.options.reportUndefined = true

variable {name : String}

/-- An undeclared variable is reported once, at the line of its node. -/
theorem diagnostics_of_undeclared (h : r.Undeclared n name) :
    (r.typeOfExpression (.node n)).run.diagnostics =
      [.undefinedVariable r.context.file n.line name] := by
  have habsent : r.isSuperglobal name = false :=
    (r.isSuperglobal_eq_false_iff name).mpr ⟨h.notBuiltIn, h.notExtra⟩
  rw [diagnostics_typeOfExpression_of_var h.isVar, variableType_of_name h.plain,
    diagnostics_typeOfName, if_pos ⟨h.unbound, habsent, h.wanted⟩]

/-- A variable node that is not undeclared is not reported. -/
theorem diagnostics_of_var_of_not_undeclared (hvar : n.kind = .var)
    (h : ∀ name, ¬r.Undeclared n name) :
    (r.typeOfExpression (.node n)).run.diagnostics = [] := by
  rw [diagnostics_typeOfExpression_of_var hvar]
  cases hname : n.childText? 0 with
  | some name =>
    -- a report of the name would make it an undeclared variable
    rw [variableType_of_name hname, diagnostics_typeOfName, if_neg]
    rintro ⟨hunbound, habsent, hwanted⟩
    obtain ⟨hbuiltIn, hextra⟩ := (r.isSuperglobal_eq_false_iff name).mp habsent
    exact h name ⟨hvar, hname, hunbound, hbuiltIn, hextra, hwanted⟩
  | none =>
    obtain ⟨u, -, hfixed⟩ := exists_variableType_of_not_plain hname
    rw [hfixed r]
    rfl

/-- **Nothing else is reported** about an expression. -/
theorem diagnostics_of_not_undeclared {t : Child}
    (h : ∀ n name, t = .node n → ¬r.Undeclared n name) :
    (r.typeOfExpression t).run.diagnostics = [] := by
  cases t with
  | leaf l => cases l <;> rfl
  | node n =>
    by_cases hvar : n.kind = .var
    · exact diagnostics_of_var_of_not_undeclared hvar fun name => h n name rfl
    · exact r.silent_typeOfNode_of_ne_var hvar

/-- The name that is found along the chain is the one that is looked up, whatever the bound. -/
theorem variableName_of_plain (hvar : n.kind = .var) (hname : n.childText? 0 = some name)
    (r : Resolver) : r.variableName (.node n) = .ok name := by
  have hlike : n.kind.isVariableLike = true := by rw [hvar]; rfl
  show nameAlong _ _ n = _
  rw [nameAlong_of_isVariableLike _ _ hlike]
  unfold Node.firstText
  rw [hname, Option.getD_some]

/-- **Undeclared variables are reported, and nothing else is.**  An expression has at most one
    report, and has it exactly if it is an undeclared variable.  The report is about the file, the
    line of the variable and its own name, which is also the name that is found for it under any
    bound.  A variable has the union that it is bound to, and the empty one if it is not bound or
    has no name; one that is named by a variable or an operation may be anything, and of one named
    by another node nothing is known. -/
theorem reports_exactly_undeclared (r : Resolver) :
    (∀ t : Child,
      (r.typeOfExpression t).run.diagnostics.length ≤ 1 ∧
      ((∃ d, (r.typeOfExpression t).run.diagnostics = [d]) ↔
        ∃ n name, t = .node n ∧ r.Undeclared n name)) ∧
    (∀ (n : Node) (name : String), r.Undeclared n name →
      (r.typeOfExpression (.node n)).run.diagnostics =
        [⟨.undefinedVariable, r.context.file, n.line, "Variable $" ++ name ++ " is undeclared"⟩] ∧
      ∀ r' : Resolver, r'.variableName (.node n) = .ok name) ∧
    ∀ n : Node, n.kind = .var →
      (∀ name u, n.childText? 0 = some name → r.context.scope.get? name = some u →
        (r.typeOfExpression (.node n)).run.value = .ok u) ∧
      (∀ name, n.childText? 0 = some name → r.context.scope.get? name = none →
        (r.typeOfExpression (.node n)).run.value = .ok .empty) ∧
      (n.child? 0 = none → (r.typeOfExpression (.node n)).run.value = .ok .empty) ∧
      ∀ m, n.childNode? 0 = some m →
        (r.typeOfExpression (.node n)).run.value =
          .ok (if m.kind = .var ∨ m.kind = .binaryOp then .mixed else .empty) := by
  refine ⟨?_, ?_, ?_⟩
  · intro t
    by_cases h : ∃ n name, t = .node n ∧ r.Undeclared n name
    · obtain ⟨n, name, rfl, hn⟩ := h
      rw [diagnostics_of_undeclared hn]
      exact ⟨Nat.le_refl 1, fun _ => ⟨n, name, rfl, hn⟩, fun _ => ⟨_, rfl⟩⟩
    · have hnone : (r.typeOfExpression t).run.diagnostics = [] :=
        diagnostics_of_not_undeclared fun n name ht hn => h ⟨n, name, ht, hn⟩
      rw [hnone]
      refine ⟨Nat.zero_le 1, ?_, fun hn => absurd hn h⟩
      rintro ⟨d, hd⟩
      cases hd
  · intro n name hn
    refine ⟨?_, variableName_of_plain hn.isVar hn.plain⟩
    -- the message is the only field that is not as given
    rw [diagnostics_of_undeclared hn, ← Diagnostic.message_undefinedVariable r.context.file n.line]
    rfl
  · intro n hvar
    have hvalue := value_typeOfExpression_of_var (r := r) hvar
    refine ⟨?_, ?_, ?_, ?_⟩
    · intro name u hname hbound
      rw [hvalue, variableType_of_name hname, value_typeOfName, hbound]
      rfl
    · intro name hname hunbound
      rw [hvalue, variableType_of_name hname, value_typeOfName, hunbound]
      rfl
    · intro habsent
      rw [hvalue, variableType_of_absent habsent]
      rfl
    · intro m hnode
      rw [hvalue, variableType_of_node hnode]
      split <;> rfl

/-- The name of an undeclared variable looks like a placeholder; a bound variable, one without a
    name and one that is named by another are not reported. -/
theorem reports_exactly_undeclared_braces :
    ∃ (r : Resolver) (x y nameless computed inner : Node),
      r.Undeclared x "\x7b0\x7d1" ∧
      (r.typeOfExpression (.node x)).run.diagnostics =
        [⟨.undefinedVariable, "a.php", 3, "Variable $\x7b0\x7d1 is undeclared"⟩] ∧
      r.variableName (.node x) = .ok "\x7b0\x7d1" ∧
      (r.typeOfExpression (.node x)).run.value = .ok .empty ∧
      y.kind = .var ∧ y.childText? 0 = some "y" ∧ r.context.scope.get? "y" = some .empty ∧
      (r.typeOfExpression (.node y)).run.value = .ok .empty ∧
      nameless.kind = .var ∧ nameless.child? 0 = none ∧
      (r.typeOfExpression (.node nameless)).run.value = .ok .empty ∧
      computed.kind = .var ∧ computed.childNode? 0 = some inner ∧
      (r.typeOfExpression (.node computed)).run.value = .ok .mixed := by
  let r : Resolver := ⟨(Context.ofFile "a.php").bind "y" .empty, {}⟩
  let x : Node := .var "\x7b0\x7d1" 3
  let y : Node := .var "y" 4
  let nameless : Node := ⟨.var, 0, 5, [none]⟩
  let computed : Node := .varOf y 6
  have hunbound : r.context.scope.get? "\x7b0\x7d1" = none := by decide +kernel
  have hbound : r.context.scope.get? "y" = some .empty := by decide +kernel
  have hx : r.Undeclared x "\x7b0\x7d1" :=
    ⟨rfl, rfl, hunbound, by decide, List.not_mem_nil, rfl⟩
  obtain ⟨-, hreport, htypes⟩ := reports_exactly_undeclared r
  obtain ⟨hdiagnostics, hname⟩ := hreport x _ hx
  obtain ⟨-, hfree, -, -⟩ := htypes x rfl
  obtain ⟨hmeans, -, -, -⟩ := htypes y rfl
  obtain ⟨-, -, habsent, -⟩ := htypes nameless rfl
  obtain ⟨-, -, -, hcomputed⟩ := htypes computed rfl
  exact ⟨r, x, y, nameless, computed, y, hx, hdiagnostics, hname r, hfree _ rfl hunbound, rfl, rfl,
    hbound, hmeans _ _ rfl hbound, rfl, rfl, habsent rfl, rfl, rfl, hcomputed y rfl⟩

end Resolver

end PhpNames
