/-
  PhpNames.Proofs.Tree.Depth — the depth of trees against the nesting of their JSON texts.

  A node is written with two containers, the object and the array of its children.  It may be read
  of fewer: the innermost node of a chain needs no array of children, so

      n.toValue.nesting = 2 * n.depth        (`Node.nesting_toValue`)
      2 * n.depth ≤ v.nesting + 1            for every value `v` that is read as `n`

  and what is accepted may be one container too deep to be written and read again.
-/
import PhpNames.Tree.Json
import PhpNames.Proofs.Json.Nesting

namespace PhpNames

open Json (Value itemsNesting membersNesting)

/-! ## §1. Depth. -/

mutual

/-- How many nodes stand on the longest way from the node down. -/
def Node.depth : Node → Nat
  | ⟨_, _, _, children⟩ => slotsDepth children + 1
termination_by structural n => n

/-- The depth of a child; a leaf is no node. -/
def Child.depth : Child → Nat
  | .node n => n.depth
  | .leaf _ => 0
termination_by structural c => c

/-- The depth of the deepest child. -/
def slotsDepth : Slots → Nat
  | [] => 0
  | none :: cs => slotsDepth cs
  | some c :: cs => max c.depth (slotsDepth cs)
termination_by structural cs => cs

end

/-! ## §2. Written trees. -/

mutual

/-- Each node of a written tree takes two containers. -/
theorem Node.nesting_toValue (n : Node) : n.toValue.nesting = 2 * n.depth :=
  match n with
  | ⟨_, _, _, children⟩ => by
    have hslots := itemsNesting_slotValues children
    show max 0 (max 0 (max 0 (max (itemsNesting (slotValues children) + 1) 0))) + 1 =
      2 * (slotsDepth children + 1)
    omega
termination_by structural n

/-- A child is written as deep as its nodes ask for, two for each. -/
theorem Child.nesting_toValue (c : Child) : c.toValue.nesting = 2 * c.depth :=
  match c with
  | .node n => n.nesting_toValue
  | .leaf (.str _) => rfl
  | .leaf (.int _) => rfl
  | .leaf (.float _) => rfl
termination_by structural c

theorem itemsNesting_slotValues (cs : Slots) : itemsNesting (slotValues cs) = 2 * slotsDepth cs :=
  match cs with
  | [] => rfl
  | none :: cs => by
    show max 0 (itemsNesting (slotValues cs)) = 2 * slotsDepth cs
    rw [Nat.zero_max, itemsNesting_slotValues cs]
  | some c :: cs => by
    show max c.toValue.nesting (itemsNesting (slotValues cs)) = 2 * max c.depth (slotsDepth cs)
    rw [c.nesting_toValue, itemsNesting_slotValues cs, Nat.mul_max_mul_left]
termination_by structural cs

end

/-! ## §3. Trees that have been read. -/

/-- The children of the node that the members of an object are read as stand in one of them. -/
theorem children_nodeFields? {fields out : NodeFields} {ms : List (String × Value)} {cs : Slots}
    (h : nodeFields? fields ms = some out) (hchildren : out.children = some cs) :
    fields.children = some cs ∨ ∃ vs, slots? vs = some cs ∧
      itemsNesting vs + 1 ≤ membersNesting ms := by
  induction ms generalizing fields with
  | nil =>
    cases h
    exact Or.inl hchildren
  | cons m ms ih =>
    obtain ⟨key, v⟩ := m
    -- a member of another key leaves the slots alone and can only add to the nesting
    have hrest {next : NodeFields} (h : nodeFields? next ms = some out)
        (hnext : next.children = fields.children) :
        fields.children = some cs ∨ ∃ vs, slots? vs = some cs ∧
          itemsNesting vs + 1 ≤ max v.nesting (membersNesting ms) := by
      rcases ih h with hsame | ⟨vs, hvs, hle⟩
      · exact Or.inl (hnext.symm.trans hsame)
      · exact Or.inr ⟨vs, hvs, by omega⟩
    -- by key: kind, flags, line, children, and every other one, which is ignored
    unfold nodeFields? at h
    split at h
    · obtain ⟨k, -, h⟩ := Option.bind_eq_some_iff.mp h
      split at h
      · cases h
      · exact hrest h rfl
    · split at h
      · obtain ⟨f, -, h⟩ := Option.bind_eq_some_iff.mp h
        split at h
        · cases h
        · exact hrest h rfl
      · split at h
        · obtain ⟨l, -, h⟩ := Option.bind_eq_some_iff.mp h
          split at h
          · cases h
          · exact hrest h rfl
        · split at h
          · -- the member that holds the children
            split at h
            next vs =>
              obtain ⟨ds, hds, h⟩ := Option.bind_eq_some_iff.mp h
              split at h
              · cases h
              · rcases ih h with hsame | ⟨vs, hvs, hle⟩
                · cases hsame
                  exact Or.inr ⟨vs, hds, Nat.le_max_left (itemsNesting vs + 1) _⟩
                · exact Or.inr ⟨vs, hvs, Nat.le_trans hle (Nat.le_max_right _ _)⟩
            next => cases h
          · exact hrest h rfl

/-- A node without children takes one container, a node with children two and what they take. -/
theorem Node.children_ofValue? {v : Value} {n : Node} (h : Node.ofValue? v = some n) :
    n.children = [] ∧ 1 ≤ v.nesting ∨
      ∃ vs, slots? vs = some n.children ∧ itemsNesting vs + 2 ≤ v.nesting := by
  -- written as an object, or as an array with one to four items
  unfold Node.ofValue? at h
  split at h
  next ms =>
    obtain ⟨fields, hfields, hnode⟩ := Option.bind_eq_some_iff.mp h
    obtain ⟨k, -, rfl⟩ := Option.map_eq_some_iff.mp hnode
    cases hchildren : fields.children with
    | none => exact Or.inl ⟨rfl, Nat.le_add_left 1 _⟩
    | some cs =>
      rcases children_nodeFields? hfields hchildren with hnone | ⟨vs, hvs, hle⟩
      · cases hnone
      · exact Or.inr ⟨vs, hvs, Nat.succ_le_succ hle⟩
  next k =>
    obtain ⟨kind, -, h⟩ := Option.bind_eq_some_iff.mp h
    cases h
    exact Or.inl ⟨rfl, Nat.le_add_left 1 _⟩
  next k f =>
    obtain ⟨kind, -, h⟩ := Option.bind_eq_some_iff.mp h
    obtain ⟨flags, -, h⟩ := Option.bind_eq_some_iff.mp h
    cases h
    exact Or.inl ⟨rfl, Nat.le_add_left 1 _⟩
  next k f l =>
    obtain ⟨kind, -, h⟩ := Option.bind_eq_some_iff.mp h
    obtain ⟨flags, -, h⟩ := Option.bind_eq_some_iff.mp h
    obtain ⟨line, -, h⟩ := Option.bind_eq_some_iff.mp h
    cases h
    exact Or.inl ⟨rfl, Nat.le_add_left 1 _⟩
  next k f l vs =>
    obtain ⟨kind, -, h⟩ := Option.bind_eq_some_iff.mp h
    obtain ⟨flags, -, h⟩ := Option.bind_eq_some_iff.mp h
    obtain ⟨line, -, h⟩ := Option.bind_eq_some_iff.mp h
    obtain ⟨cs, hcs, h⟩ := Option.bind_eq_some_iff.mp h
    cases h
    refine Or.inr ⟨vs, hcs, ?_⟩
    -- only the fourth item of the longest form can have slots in it
    show itemsNesting vs + 2 ≤
      max k.nesting (max f.nesting (max l.nesting (max (itemsNesting vs + 1) 0))) + 1
    omega
  next => cases h

/-- Slots are as deep as the nodes that are read. -/
theorem depth_slots? {vs : List Value} {cs : Slots} {d : Nat} (h : slots? vs = some cs)
    (hnodes : ∀ v ∈ vs, ∀ n, Node.ofValue? v = some n → 2 * n.depth ≤ d) :
    2 * slotsDepth cs ≤ d := by
  induction vs generalizing cs with
  | nil =>
    cases h
    exact Nat.zero_le d
  | cons v vs ih =>
    obtain ⟨slot, hslot, h⟩ := Option.bind_eq_some_iff.mp h
    obtain ⟨rest, hrest, h⟩ := Option.bind_eq_some_iff.mp h
    cases h
    have hdepth := ih hrest fun w hw => hnodes w (List.mem_cons_of_mem v hw)
    -- only a slot that holds a node adds to the depth, and it is read from an array or object
    match slot with
    | none => exact hdepth
    | some (.leaf l) =>
      show 2 * max 0 (slotsDepth rest) ≤ d
      omega
    | some (.node n) =>
      have hnode : Node.ofValue? v = some n := by
        cases v with
        | arr _ | obj _ =>
          obtain ⟨m, hm, heq⟩ := Option.map_eq_some_iff.mp hslot
          cases heq
          exact hm
        | _ => cases hslot
      have hn := hnodes v List.mem_cons_self n hnode
      show 2 * max n.depth (slotsDepth rest) ≤ d
      omega

/-- A node is read of two containers for each node in a chain, but for the innermost one, which
    may do with one. -/
theorem Node.depth_ofValue? {v : Value} {n : Node} (h : Node.ofValue? v = some n) :
    2 * n.depth ≤ v.nesting + 1 := by
  -- on the nesting of the value: the items of a node are nested at least two levels less
  induction hnesting : v.nesting using Nat.strongRecOn generalizing v n with
  | _ nesting ih =>
    obtain ⟨kind, flags, line, children⟩ := n
    show 2 * (slotsDepth children + 1) ≤ nesting + 1
    rcases Node.children_ofValue? h with ⟨hnil, hle⟩ | ⟨vs, hvs, hle⟩
    · cases hnil
      show 2 * (0 + 1) ≤ nesting + 1
      omega
    · have hdepth : 2 * slotsDepth children ≤ itemsNesting vs + 1 := by
        refine depth_slots? hvs fun w hw m hm => ?_
        have hw := Json.nesting_le_itemsNesting hw
        have hm := ih w.nesting (by omega) hm rfl
        omega
      omega

/-- **An accepted tree has at most 64 nodes in a chain.** -/
theorem Node.depth_parse? {t : String} {n : Node} (h : Node.parse? t = some n) : n.depth ≤ 64 := by
  obtain ⟨d, hd, h⟩ := Option.bind_eq_some_iff.mp h
  obtain ⟨v, hv, h⟩ := Option.bind_eq_some_iff.mp h
  have hnesting : v.nesting ≤ 127 := Json.nesting_le_of_select? hd hv
  have hdepth := Node.depth_ofValue? h
  omega

end PhpNames
