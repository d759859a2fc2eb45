/-
  PhpNames.Proofs.Tree.Reread — trees that were read, written, and are read again.

  A tree may be read of a text that is nested one container less deep than the text it is written
  as, and its doubles may be read of other digits than they are written with.  So not every tree
  that was read comes back (`Node.not_every_accepted_comes_back`), and the two things that may get
  in the way are these alone (`Node.accepted_comes_back_iff`).
-/
import PhpNames.Proofs.Tree.RoundTrip

namespace PhpNames

open Json

/-! ## §1. Doubles that come back. -/

/-- The written form of the double is read as a double that is equal to it. -/
def Json.Stable (f : Float) : Prop :=
  ∃ g, Value.parse? (Value.num (.float f)).write = some (.num (.float g)) ∧ (g == f) = true

/-- A leaf comes back equal if its double does. -/
theorem Leaf.readBack?_float_iff (f : Float) :
    (∃ d, (Leaf.float f).readBack? = some (some d) ∧ d.same (.leaf (.float f)) = true) ↔
      Json.Stable f := by
  unfold Json.Stable
  rw [Value.parse?_write_num]
  show (∃ d, (Number.float f).readBack?.bind slotOfValue? = some (some d) ∧ _) ↔ _
  cases hread : (Number.float f).readBack? with
  | none =>
    constructor
    · rintro ⟨d, hd, -⟩
      cases hd
    · rintro ⟨g, hg, -⟩
      cases hg
  | some v =>
    -- a double is read as null, which is no leaf, or as a double again
    rcases Number.readBack?_float f hread with rfl | ⟨g, rfl⟩
    · constructor
      · rintro ⟨d, hd, -⟩
        cases hd
      · rintro ⟨g, hg, -⟩
        cases hg
    · constructor
      · rintro ⟨d, hd, hsame⟩
        cases hd
        exact ⟨g, rfl, hsame⟩
      · rintro ⟨g', hg, hsame⟩
        cases hg
        exact ⟨.leaf (.float g), rfl, hsame⟩

mutual

/-- A tree comes back equal if all of its doubles do. -/
theorem Node.readBack?_same_iff (n : Node) :
    (∃ m, n.readBack? = some m ∧ m.same n = true) ↔ ∀ f ∈ n.doubles, Json.Stable f :=
  match n with
  | ⟨kind, flags, line, children⟩ => by
    -- kind, flags and line always come back, so it is the slots that decide
    refine Iff.trans ?_ (slotsReadBack?_same_iff children)
    unfold Node.readBack?
    constructor
    · rintro ⟨m, hm, hsame⟩
      obtain ⟨ds, hds, rfl⟩ := Option.map_eq_some_iff.mp hm
      exact ⟨ds, hds, (Bool.and_eq_true_iff.mp hsame).2⟩
    · rintro ⟨ds, hds, hsame⟩
      refine ⟨⟨kind, flags, line, ds⟩, by rw [hds]; rfl, ?_⟩
      show (kind == kind && flags == flags && line == line && sameSlots ds children) = true
      rw [beq_self_eq_true, beq_self_eq_true, beq_self_eq_true, hsame]
      rfl
termination_by structural n

/-- A child comes back as an equal one exactly if its doubles do. -/
theorem Child.readBack?_same_iff (c : Child) :
    (∃ d, c.readBack? = some (some d) ∧ d.same c = true) ↔ ∀ f ∈ c.doubles, Json.Stable f :=
  match c with
  | .node n => by
    refine Iff.trans ?_ (Node.readBack?_same_iff n)
    unfold Child.readBack?
    constructor
    · rintro ⟨d, hd, hsame⟩
      obtain ⟨m, hm, heq⟩ := Option.map_eq_some_iff.mp hd
      cases heq
      exact ⟨m, hm, hsame⟩
    · rintro ⟨m, hm, hsame⟩
      exact ⟨.node m, by rw [hm]; rfl, hsame⟩
  -- texts and whole numbers have no doubles in them and come back as they are
  | .leaf (.str s) => by
    refine iff_of_true ⟨.leaf (.str s), rfl, ?_⟩ (fun f hf => absurd hf List.not_mem_nil)
    exact beq_self_eq_true s
  | .leaf (.int i) => by
    refine iff_of_true ⟨.leaf (.int i), rfl, ?_⟩ (fun f hf => absurd hf List.not_mem_nil)
    exact beq_self_eq_true i
  | .leaf (.float f) => by
    refine Iff.trans (Leaf.readBack?_float_iff f) ?_
    exact (List.forall_mem_singleton (p := Json.Stable)).symm
termination_by structural c

/-- Slots come back as equal ones exactly if the doubles in them do. -/
theorem slotsReadBack?_same_iff (cs : Slots) :
    (∃ ds, slotsReadBack? cs = some ds ∧ sameSlots ds cs = true) ↔
      ∀ f ∈ slotsDoubles cs, Json.Stable f :=
  match cs with
  | [] => iff_of_true ⟨[], rfl, rfl⟩ (fun f hf => absurd hf List.not_mem_nil)
  | none :: cs => by
    refine Iff.trans ?_ (slotsReadBack?_same_iff cs)
    constructor
    · rintro ⟨es, hes, hsame⟩
      obtain ⟨ds, hds, rfl⟩ := Option.map_eq_some_iff.mp hes
      exact ⟨ds, hds, hsame⟩
    · rintro ⟨ds, hds, hsame⟩
      exact ⟨none :: ds, congrArg (Option.map fun cs => none :: cs) hds, hsame⟩
  | some c :: cs => by
    have hmem : (∀ f ∈ slotsDoubles (some c :: cs), Json.Stable f) ↔
        (∀ f ∈ c.doubles, Json.Stable f) ∧ ∀ f ∈ slotsDoubles cs, Json.Stable f :=
      List.forall_mem_append
    rw [hmem, ← Child.readBack?_same_iff c, ← slotsReadBack?_same_iff cs]
    constructor
    · rintro ⟨es, hes, hsame⟩
      obtain ⟨slot, hslot, hes⟩ := Option.bind_eq_some_iff.mp hes
      obtain ⟨ds, hds, hes⟩ := Option.bind_eq_some_iff.mp hes
      cases hes
      -- an absent slot is not the same as a child
      match slot with
      | none => cases hsame
      | some d =>
        obtain ⟨hd, hrest⟩ := Bool.and_eq_true_iff.mp hsame
        exact ⟨⟨d, hslot, hd⟩, ds, hds, hrest⟩
    · rintro ⟨⟨d, hd, hsame⟩, ds, hds, hrest⟩
      refine ⟨some d :: ds, ?_, Bool.and_eq_true_iff.mpr ⟨hsame, hrest⟩⟩
      unfold slotsReadBack?
      rw [hd, hds]
      rfl
termination_by structural cs

end

/-! ## §2. Trees that were read. -/

/-- **A tree that was read comes back, but for its depth and its doubles.**  It has at most 64
    nodes in a chain.  With 64 of them its text is not read again; with fewer, its text is read as
    an equal tree if and only if each of its doubles is read of its digits as an equal double. -/
theorem Node.accepted_comes_back_iff {t : String} {n : Node} (h : Node.parse? t = some n) :
    n.depth ≤ 64 ∧ (n.depth = 64 → Node.parse? n.write = none) ∧
      (n.depth ≤ 63 → ((∃ m, Node.parse? n.write = some m ∧ m.same n = true) ↔
        ∀ f ∈ n.doubles, Json.Stable f)) := by
  refine ⟨Node.depth_parse? h, fun hdepth => ?_, fun hdepth => ?_⟩
  · rw [Node.parse?_write, if_neg (by omega)]
  · rw [Node.parse?_write, if_pos hdepth]
    exact n.readBack?_same_iff

/-- A double of few digits comes back, and so does the tree around it. -/
theorem Node.accepted_comes_back_iff_array :
    ∃ n, Node.parse? "[\"const\",0,3,[2.5,null]]" = some n ∧ n.doubles ≠ [] ∧
      ∀ f ∈ n.doubles, Json.Stable f := by
  have hagain : ((Node.parse? "[\"const\",0,3,[2.5,null]]").bind fun n =>
      (Node.parse? n.write).map fun m => (m.same n, n.depth, n.doubles.length)) =
        some (true, 1, 1) := by
    decide +kernel
  obtain ⟨n, hn, hagain⟩ := Option.bind_eq_some_iff.mp hagain
  obtain ⟨m, hm, heq⟩ := Option.map_eq_some_iff.mp hagain
  obtain ⟨hsame, hrest⟩ := Prod.mk.inj heq
  obtain ⟨hdepth, hlength⟩ := Prod.mk.inj hrest
  refine ⟨n, hn, fun hnil => ?_, ?_⟩
  · rw [hnil] at hlength
    cases hlength
  · exact ((Node.accepted_comes_back_iff hn).2.2 (by omega)).mp ⟨m, hm, hsame⟩

/-! ## §3. Trees that do not come back. -/

/-- A node in the only slot of another, and so on; without flags and lines. -/
def Node.chain : Nat → Node
  | 0 => ⟨.var, 0, 0, []⟩
  | k + 1 => ⟨.new, 0, 0, [some (.node (chain k))]⟩

/-- The chain, written without the fields that may be missing. -/
def chainValue : Nat → Value
  | 0 => .obj [("kind", .str "var")]
  | k + 1 => .obj [("kind", .str "new"), ("children", .arr [chainValue k])]

/-- A chain is as deep as it has nodes. -/
theorem depth_chain (k : Nat) : (Node.chain k).depth = k + 1 := by
  induction k with
  | zero => rfl
  | succ k ih =>
    show max (Node.chain k).depth 0 + 1 = k + 1 + 1
    omega

/-- Each node of the chain but the last opens an object and an array, and the last one an object. -/
theorem nesting_chainValue (k : Nat) : (chainValue k).nesting = 2 * k + 1 := by
  induction k with
  | zero => rfl
  | succ k ih =>
    show max 0 (max (max (chainValue k).nesting 0 + 1) 0) + 1 = 2 * (k + 1) + 1
    omega

/-- There is no number in the chain, so all of it comes back. -/
theorem readBack?_chainValue (k : Nat) : (chainValue k).readBack? = some (chainValue k) := by
  induction k with
  | zero => rfl
  | succ k ih =>
    simp only [chainValue, Value.readBack?, membersReadBack?, itemsReadBack?, ih]
    rfl

/-- The fields that are not written have their defaults in the chain. -/
theorem ofValue?_chainValue (k : Nat) : Node.ofValue? (chainValue k) = some (Node.chain k) := by
  induction k with
  | zero => rfl
  | succ k ih =>
    have hslot : slotOf? (chainValue k) (Node.ofValue? (chainValue k)) =
        some (some (.node (Node.chain k))) := by
      rw [ih]
      cases k <;> rfl
    have hslots : slots? [chainValue k] = some [some (.node (Node.chain k))] := by
      unfold slots?
      rw [hslot]
      rfl
    show (nodeFields? {} [("kind", .str "new"), ("children", .arr [chainValue k])]).bind
      NodeFields.node? = _
    simp only [nodeFields?, hslots]
    rfl

/-- Without the fields that may be missing, a chain of 64 nodes can still be read. -/
theorem parse?_chainValue {k : Nat} (hk : k ≤ 63) :
    Node.parse? (chainValue k).write = some (Node.chain k) := by
  have hparse : Node.parse? (chainValue k).write =
      ((chainValue k).readAt? 0).bind Node.ofValue? := by
    cases k <;> exact Node.parse?_write_obj (by simp)
  rw [hparse]
  unfold Value.readAt?
  rw [nesting_chainValue, if_pos (by unfold maxNesting; omega), readBack?_chainValue]
  exact ofValue?_chainValue k

/-- **Not every tree that was read comes back.**  A chain of 64 nodes is written with all of its
    fields and so too deep to be read again, and the double of `5e32` is read of its own digits as
    its neighbour. -/
theorem Node.not_every_accepted_comes_back :
    (∃ n, Node.parse? (chainValue 63).write = some n ∧ Node.parse? n.write = none) ∧
    ∃ n, Node.parse? "\x7b\"kind\":\"const\",\"children\":[5e32]\x7d" = some n ∧
      ∃ m, Node.parse? n.write = some m ∧ m.same n = false := by
  refine ⟨⟨Node.chain 63, parse?_chainValue (Nat.le_refl 63), ?_⟩, ?_⟩
  · rw [Node.parse?_write, depth_chain, if_neg (by decide)]
  · have hagain : ((Node.parse? "\x7b\"kind\":\"const\",\"children\":[5e32]\x7d").bind fun n =>
        (Node.parse? n.write).map fun m => m.same n) = some false := by
      decide +kernel
    obtain ⟨n, hn, hagain⟩ := Option.bind_eq_some_iff.mp hagain
    obtain ⟨m, hm, hsame⟩ := Option.map_eq_some_iff.mp hagain
    exact ⟨n, hn, m, hm, hsame⟩

end PhpNames
