/-
  PhpNames.Proofs.Resolve.VariableNames — how the name of a variable is found, within bounds.

  A variable's name stands at the end of a chain, in which each node is in the first slot of the
  one before (`Node.spine`).  The walk along the chain ends at the first variable-like node, or
  else at the last node; the nodes before are passed (`Node.passed`).  The walker counts down what
  he may pass yet, and so comes to the end if no more nodes are to be passed than the bound
  allows:

      n.passed[bound]? = some m    the walk fails, on the line of `m`
      n.passed[bound]? = none      it finds what is in the first slot of `n.walkEnd`

  `nameAlong_eq` states this for any number of nodes that may be passed yet, which is what the
  steps of the walk keep (`nameAlong_succ`).
-/
import PhpNames.Resolve.Variables

namespace PhpNames

/-! ## §1. Chains. -/

namespace Node

/-- The chain that begins with a node: each further node stands in the first slot of the one
    before. -/
def spine : Node → List Node
  | ⟨kind, flags, line, children⟩ =>
    ⟨kind, flags, line, children⟩ ::
      match children with
      | some (.node n) :: _ => n.spine
      | _ => []
termination_by structural n => n

/-- A chain goes on with the first child if that is a node. -/
theorem spine_of_some {n m : Node} (h : n.childNode? 0 = some m) : n.spine = n :: m.spine := by
  obtain ⟨kind, flags, line, children⟩ := n
  match children with
  | some (.node _) :: _ =>
    obtain rfl := Option.some.inj h
    rfl
  | some (.leaf _) :: _ => cases h
  | none :: _ => cases h
  | [] => cases h

/-- A chain ends at a node whose first child is none. -/
theorem spine_of_none {n : Node} (h : n.childNode? 0 = none) : n.spine = [n] := by
  obtain ⟨kind, flags, line, children⟩ := n
  match children with
  | some (.node _) :: _ => cases h
  | some (.leaf _) :: _ => rfl
  | none :: _ => rfl
  | [] => rfl

/-- A chain begins with the node itself. -/
theorem exists_spine_eq_cons (n : Node) : ∃ rest, n.spine = n :: rest := by
  cases h : n.childNode? 0 with
  | some m => exact ⟨_, spine_of_some h⟩
  | none => exact ⟨_, spine_of_none h⟩

theorem spine_ne_nil (n : Node) : n.spine ≠ [] := by
  obtain ⟨rest, hspine⟩ := n.exists_spine_eq_cons
  rw [hspine]
  exact List.cons_ne_nil n rest

/-- The nodes of the chain before its first variable-like one. -/
def passed (n : Node) : List Node := n.spine.takeWhile (!·.kind.isVariableLike)

/-- Where the walk along the chain ends: at the first variable-like node, or else at the last
    one. -/
def walkEnd (n : Node) : Node :=
  (n.spine.find? (·.kind.isVariableLike)).getD (n.spine.getLast n.spine_ne_nil)

/-- What is passed is the beginning of the chain. -/
theorem getElem?_spine {n : Node} {i : Nat} {m : Node} (h : n.passed[i]? = some m) :
    n.spine[i]? = some m := by
  have hpassed : n.passed <+: n.spine := List.takeWhile_prefix _
  obtain ⟨rest, hrest⟩ := hpassed
  obtain ⟨hi, -⟩ := List.getElem?_eq_some_iff.mp h
  rw [← hrest, List.getElem?_append_left hi]
  exact h

/-! ## §2. One step along a chain. -/

variable {n m : Node}

/-- A walk that starts at a variable-like node passes nothing. -/
theorem passed_of_isVariableLike (h : n.kind.isVariableLike = true) : n.passed = [] := by
  obtain ⟨rest, hspine⟩ := n.exists_spine_eq_cons
  unfold passed
  rw [hspine, List.takeWhile_cons_of_neg (by simp [h])]

/-- A walk passes every other node that has a node below it. -/
theorem passed_of_some (h : n.kind.isVariableLike = false) (hm : n.childNode? 0 = some m) :
    n.passed = n :: m.passed := by
  unfold passed
  rw [spine_of_some hm, List.takeWhile_cons_of_pos (by simp [h])]

/-- A walk passes the last node of a chain too if that is not variable-like. -/
theorem passed_of_none (h : n.kind.isVariableLike = false) (hnone : n.childNode? 0 = none) :
    n.passed = [n] := by
  unfold passed
  rw [spine_of_none hnone, List.takeWhile_cons_of_pos (by simp [h]), List.takeWhile_nil]

/-- A variable-like node ends the walk. -/
theorem walkEnd_of_isVariableLike (h : n.kind.isVariableLike = true) : n.walkEnd = n := by
  obtain ⟨rest, hspine⟩ := n.exists_spine_eq_cons
  have hfind : n.spine.find? (·.kind.isVariableLike) = some n := by
    rw [hspine]
    exact List.find?_cons_of_pos h
  unfold walkEnd
  rw [hfind, Option.getD_some]

/-- A node that is not variable-like leaves the end to what is below it. -/
theorem walkEnd_of_some (h : n.kind.isVariableLike = false) (hm : n.childNode? 0 = some m) :
    n.walkEnd = m.walkEnd := by
  unfold walkEnd
  -- the proof that the chain is not empty changes with the chain, so `rw` cannot be used here
  simp only [spine_of_some hm]
  rw [List.find?_cons_of_neg (by simp [h]), List.getLast_cons m.spine_ne_nil]

/-- The last node ends the walk, whatever its kind. -/
theorem walkEnd_of_none (h : n.kind.isVariableLike = false) (hnone : n.childNode? 0 = none) :
    n.walkEnd = n := by
  unfold walkEnd
  simp only [spine_of_none hnone]
  rw [List.find?_cons_of_neg (by simp [h]), List.find?_nil, Option.getD_none,
    List.getLast_singleton]

end Node

/-! ## §3. The walk. -/

/-- At a variable-like node the name is found, however little may still be passed. -/
theorem nameAlong_of_isVariableLike (bound left : Nat) {n : Node}
    (h : n.kind.isVariableLike = true) : nameAlong bound left n = .ok n.firstText := by
  obtain ⟨kind, flags, line, children⟩ := n
  unfold nameAlong
  exact if_pos h

/-- At a node that is not variable-like the walk fails if nothing more may be passed. -/
theorem nameAlong_zero (bound : Nat) {n : Node} (h : n.kind.isVariableLike = false) :
    nameAlong bound 0 n = .error ⟨bound, n.line⟩ := by
  obtain ⟨kind, flags, line, children⟩ := n
  unfold nameAlong
  exact if_neg (ne_true_of_eq_false h)

/-- A step of the walk: on to the node in the first slot, or to the end. -/
theorem nameAlong_succ (bound left : Nat) {n : Node} (h : n.kind.isVariableLike = false) :
    nameAlong bound (left + 1) n =
      match n.childNode? 0 with
      | some m => nameAlong bound left m
      | none => .ok n.firstText := by
  obtain ⟨kind, flags, line, children⟩ := n
  have hkind : ¬kind.isVariableLike = true := ne_true_of_eq_false h
  match children with
  | some (.node _) :: _ => exact if_neg hkind
  | some (.leaf _) :: _ => exact if_neg hkind
  | none :: _ => exact if_neg hkind
  | [] => exact if_neg hkind

/-- **The walk** fails at the first node beyond what may be passed, if there is one, and otherwise
    comes to the end of the chain. -/
theorem nameAlong_eq (bound left : Nat) (n : Node) :
    nameAlong bound left n =
      match n.passed[left]? with
      | some beyond => .error ⟨bound, beyond.line⟩
      | none => .ok n.walkEnd.firstText := by
  cases hkind : n.kind.isVariableLike with
  | true =>
    -- the walk is at its end, whatever may be passed yet
    rw [nameAlong_of_isVariableLike bound left hkind, Node.passed_of_isVariableLike hkind,
      Node.walkEnd_of_isVariableLike hkind]
    rfl
  | false =>
    -- `n` is passed if anything may be; what comes then is decided by its first slot
    cases hm : n.childNode? 0 with
    | none =>
      rw [Node.passed_of_none hkind hm, Node.walkEnd_of_none hkind hm]
      match left with
      | 0 => exact nameAlong_zero bound hkind
      | left + 1 =>
        rw [nameAlong_succ bound left hkind, hm]
        rfl
    | some m =>
      rw [Node.passed_of_some hkind hm, Node.walkEnd_of_some hkind hm]
      match left with
      | 0 => exact nameAlong_zero bound hkind
      | left + 1 =>
        rw [nameAlong_succ bound left hkind, hm, List.getElem?_cons_succ]
        exact nameAlong_eq bound left m
termination_by left

/-! ## §4. What the walk does not look at. -/

/-- The node without anything that the walk does not look at: without flags, without the slots
    after the first one, and without a node below a variable-like one. -/
def Node.bare : Node → Node
  | ⟨kind, _, line, children⟩ =>
    ⟨kind, 0, line,
      match children with
      | some (.leaf l) :: _ => [some (.leaf l)]
      | some (.node n) :: _ => if kind.isVariableLike then [] else [some (.node n.bare)]
      | _ => []⟩
termination_by structural n => n

/-- The child without anything that the walk does not look at. -/
def Child.bare : Child → Child
  | .node n => .node n.bare
  | .leaf l => .leaf l

namespace Node

theorem kind_bare (n : Node) : n.bare.kind = n.kind := by
  cases n
  unfold bare
  rfl

theorem line_bare (n : Node) : n.bare.line = n.line := by
  cases n
  unfold bare
  rfl

/-- A bare node has the same text in its first slot. -/
theorem firstText_bare (n : Node) : n.bare.firstText = n.firstText := by
  obtain ⟨kind, flags, line, children⟩ := n
  match children with
  | some (.node _) :: _ =>
    -- a node in the first slot is no text, whether it has been taken off or not
    cases kind <;> rfl
  | some (.leaf _) :: _ => rfl
  | none :: _ => rfl
  | [] => rfl

/-- The node below a bare node is the bare node below it. -/
theorem childNode?_bare {n : Node} (h : n.kind.isVariableLike = false) :
    n.bare.childNode? 0 = (n.childNode? 0).map bare := by
  obtain ⟨kind, flags, line, children⟩ := n
  match children with
  | some (.node m) :: _ =>
    show Node.childNode? ⟨kind, 0, line, if kind.isVariableLike then _ else _⟩ 0 = _
    rw [if_neg (ne_true_of_eq_false h)]
    rfl
  | some (.leaf _) :: _ => rfl
  | none :: _ => rfl
  | [] => rfl

end Node

/-- Step by step, the walk along the bare chain is in the same place. -/
theorem nameAlong_bare (bound left : Nat) (n : Node) :
    nameAlong bound left n.bare = nameAlong bound left n := by
  -- a variable is read at its first text; any other kind leads on to its first node
  cases hkind : n.kind.isVariableLike with
  | true =>
    have hbare : n.bare.kind.isVariableLike = true := by rw [n.kind_bare, hkind]
    rw [nameAlong_of_isVariableLike bound left hbare, nameAlong_of_isVariableLike bound left hkind,
      n.firstText_bare]
  | false =>
    have hbare : n.bare.kind.isVariableLike = false := by rw [n.kind_bare, hkind]
    match left with
    | 0 => rw [nameAlong_zero bound hbare, nameAlong_zero bound hkind, n.line_bare]
    | left + 1 =>
      rw [nameAlong_succ bound left hbare, nameAlong_succ bound left hkind,
        Node.childNode?_bare hkind, n.firstText_bare]
      cases n.childNode? 0 with
      | none => rfl
      | some m => exact nameAlong_bare bound left m
termination_by left

/-! ## §5. The name of a variable. -/

namespace Resolver

/-- **The name is that of the bare node**: nothing that is taken away is read. -/
theorem variableName_bare (r : Resolver) (t : Child) :
    r.variableName t.bare = r.variableName t := by
  cases t with
  | node n => exact nameAlong_bare _ _ n
  | leaf l => rfl

/-- The walk does not get past more nodes than the bound allows. -/
theorem variableName_of_lt {r : Resolver} {n : Node}
    (h : r.options.maxNameChain < n.passed.length) :
    ∃ beyond, n.spine[r.options.maxNameChain]? = some beyond ∧
      r.variableName (.node n) = .error ⟨r.options.maxNameChain, beyond.line⟩ := by
  have hbeyond : n.passed[r.options.maxNameChain]? = some n.passed[r.options.maxNameChain] :=
    List.getElem?_eq_getElem h
  refine ⟨_, Node.getElem?_spine hbeyond, ?_⟩
  show nameAlong _ _ n = _
  rw [nameAlong_eq, hbeyond]

/-- With enough room the name is the text at the end of the walk. -/
theorem variableName_of_le {r : Resolver} {n : Node}
    (h : n.passed.length ≤ r.options.maxNameChain) :
    r.variableName (.node n) = .ok n.walkEnd.firstText := by
  have hnone : n.passed[r.options.maxNameChain]? = none := List.getElem?_eq_none h
  show nameAlong _ _ n = _
  rw [nameAlong_eq, hnone]

/-- A name that is found is found within every larger bound. -/
theorem variableName_mono {r r' : Resolver} {t : Child} {name : String}
    (hle : r.options.maxNameChain ≤ r'.options.maxNameChain)
    (h : r.variableName t = .ok name) : r'.variableName t = .ok name := by
  cases t with
  | leaf l => exact h
  | node n =>
    rcases Nat.lt_or_ge r.options.maxNameChain n.passed.length with hlt | hge
    · obtain ⟨beyond, -, herror⟩ := variableName_of_lt hlt
      rw [herror] at h
      cases h
    · rw [variableName_of_le hge] at h
      rw [variableName_of_le (Nat.le_trans hge hle), h]

/-- **The name at the end of the chain.**  A leaf is a name itself.  From a node the walk goes along
    the chain.  If more nodes stand before its first variable-like node, or its end, than may be
    passed, it fails, with the bound and the line of the first node beyond; else the name is the
    text in the first slot of the node where the walk ends, or empty if there is no leaf.  So
    neither flags nor anything beside the chain matter, and a name is kept when more nodes may be
    passed. -/
theorem variableName_along_chain :
    (∀ (r : Resolver) (l : Leaf), r.variableName (.leaf l) = .ok l.text) ∧
    (∀ (r : Resolver) (n : Node),
      (r.options.maxNameChain < n.passed.length →
        ∃ beyond, n.spine[r.options.maxNameChain]? = some beyond ∧
          r.variableName (.node n) = .error ⟨r.options.maxNameChain, beyond.line⟩) ∧
      (n.passed.length ≤ r.options.maxNameChain →
        r.variableName (.node n) = .ok ((n.walkEnd.childText? 0).getD ""))) ∧
    (∀ (r : Resolver) (t u : Child), t.bare = u.bare → r.variableName t = r.variableName u) ∧
    ∀ (r r' : Resolver) (t : Child) (name : String),
      r.options.maxNameChain ≤ r'.options.maxNameChain →
      r.variableName t = .ok name → r'.variableName t = .ok name := by
  refine ⟨fun _ _ => rfl, ?_, ?_, ?_⟩
  · intro r n
    exact ⟨variableName_of_lt, variableName_of_le⟩
  · intro r t u hbare
    rw [← r.variableName_bare t, hbare, r.variableName_bare u]
  · intro r r' t name
    exact variableName_mono

/-- Two nodes stand before the variable, one too many for the bound 1 and not for 2. -/
theorem variableName_along_chain_passing_two :
    ∃ (c : Context) (n m : Node),
      1 < n.passed.length ∧ variableName ⟨c, { maxNameChain := 1 }⟩ (.node n) = .error ⟨1, 6⟩ ∧
      n.passed.length ≤ 2 ∧ variableName ⟨c, { maxNameChain := 2 }⟩ (.node n) = .ok "x" ∧
      (Child.node n).bare = (Child.node m).bare ∧
      variableName ⟨c, { maxNameChain := 2 }⟩ (.node n) =
        variableName ⟨c, { maxNameChain := 2 }⟩ (.node m) ∧
      2 ≤ 9 ∧ variableName ⟨c, { maxNameChain := 9 }⟩ (.node n) = .ok "x" := by
  let c : Context := Context.ofFile "a.php"
  let n : Node := ⟨.prop, 0, 5, [some (.node ⟨.call, 0, 6, [some (.node (.var "x" 7))]⟩)]⟩
  let m : Node := ⟨.prop, 3, 5, [some (.node ⟨.call, 1, 6, [some (.node (.var "x" 7)), none]⟩),
    some (.leaf (.str "y"))]⟩
  have hlt : 1 < n.passed.length := by decide
  have hle : n.passed.length ≤ 2 := by decide
  have hbare : (Child.node n).bare = (Child.node m).bare := rfl
  obtain ⟨-, hchain, hbeside, hmono⟩ := variableName_along_chain
  obtain ⟨beyond, hbeyond, herror⟩ := (hchain ⟨c, { maxNameChain := 1 }⟩ n).1 hlt
  obtain rfl : (⟨.call, 0, 6, [some (.node (.var "x" 7))]⟩ : Node) = beyond :=
    Option.some.inj hbeyond
  have hname := (hchain ⟨c, { maxNameChain := 2 }⟩ n).2 hle
  exact ⟨c, n, m, hlt, herror, hle, hname, hbare, hbeside _ _ _ hbare, by decide,
    hmono ⟨c, { maxNameChain := 2 }⟩ ⟨c, { maxNameChain := 9 }⟩ _ _ (by decide) hname⟩

end Resolver

end PhpNames
