/-
  PhpNames.Proofs.Resolve.TypePositions — a type position, read at one go.

  The resolver joins and marks unions at every level of a tree.  A reader may do without: he walks
  through the tree once, from left to right, and notes what he comes upon — the atoms of each end,
  and whether it stands below a nullable type, and every fault.  The type of the position is what
  his notes say:

    • the first fault, if there is any,
    • else the atoms in the order of their first occurrences, each one marked that was noted below
      a nullable type.

  `typeOfType_reads` and its companions carry this through the tree.  The members of a union are
  read after the atoms that have been found, so their statement has these in front; a nullable type
  is read by marking the notes of what is inside (`stopsOfType_nullable`).
-/
import PhpNames.Proofs.Resolve.Recorded
import PhpNames.Proofs.UnionType.RoundTrip
import PhpNames.Resolve.Types

namespace PhpNames

open UnionType

/-! ## §1. The walk. -/

/-- What a walk through a type position comes upon. -/
inductive Stop where
  /-- An end with its atoms, below a nullable type or not. -/
  | leafType (atoms : List String) (nullable : Bool)
  /-- A place that cannot be resolved. -/
  | fault (e : ResolveError)

namespace Stop

/-- The error at a fault. -/
def fault? : Stop → Option ResolveError
  | leafType _ _ => none
  | fault e => some e

/-- The atoms of an end; below a nullable type they admit null. -/
def readAtoms : Stop → List String
  | leafType atoms nullable => if nullable then atoms.map markNull else atoms
  | fault _ => []

/-- The same stop, below a nullable type. -/
def belowNullable : Stop → Stop
  | leafType atoms _ => leafType atoms true
  | fault e => fault e

/-- What the stops of a walk say after the atoms `before`: the first fault, or else the first
    occurrences of the atoms. -/
def readingAfter (before : List String) (stops : List Stop) : Except ResolveError (List String) :=
  match stops.findSome? fault? with
  | some e => .error e
  | none => .ok (before ++ stops.flatMap readAtoms).eraseDups

/-- What the stops of a walk say. -/
def reading (stops : List Stop) : Except ResolveError (List String) := readingAfter [] stops

end Stop

namespace Context

/-- The end at a name node: its text as it stands, or qualified if it is relative. -/
def nameStop (c : Context) (nullable : Bool) (n : Node) : Stop :=
  match n.childText? 0 with
  | none => .fault (.missingChild n.kind 0 n.line)
  | some name =>
    .leafType (textAtoms (if n.isRelative then c.qualify .cls name else name)) nullable

mutual

/-- What a walk through a type node comes upon. -/
def stopsOfTypeNode (c : Context) : (nullable : Bool) → Node → List Stop
  | nullable, ⟨kind, flags, line, children⟩ =>
    match kind with
    | .name => [c.nameStop nullable ⟨.name, flags, line, children⟩]
    | .type =>
      match typeKeyword? flags with
      | some keyword => [.leafType [keyword] nullable]
      | none => [.fault (.unknownKeyword flags line)]
    | .nullableType =>
      match children with
      | some inner :: _ => stopsOfType c true inner
      | _ => [.fault (.missingChild .nullableType 0 line)]
    | .typeUnion => stopsOfMembers c nullable children
    | kind => [.fault (.unresolvableType kind line)]
termination_by structural _ n => n

/-- What a walk through a type position comes upon. -/
def stopsOfType (c : Context) : (nullable : Bool) → Child → List Stop
  | nullable, .node n => stopsOfTypeNode c nullable n
  | nullable, .leaf l => [.leafType (textAtoms l.text) nullable]
termination_by structural _ t => t

/-- What a walk through the members of a union comes upon. -/
def stopsOfMembers (c : Context) : (nullable : Bool) → Slots → List Stop
  | _, [] => []
  | nullable, none :: slots => stopsOfMembers c nullable slots
  | nullable, some member :: slots =>
    stopsOfType c nullable member ++ stopsOfMembers c nullable slots
termination_by structural _ slots => slots

end

end Context

/-! ## §2. Marked walks. -/

namespace Stop

/-- A fault is the same fault below a nullable type. -/
theorem fault?_belowNullable (s : Stop) : s.belowNullable.fault? = s.fault? := by
  cases s <;> rfl

/-- A mark that is there already is not set again. -/
theorem readAtoms_belowNullable (s : Stop) :
    s.belowNullable.readAtoms = s.readAtoms.map markNull := by
  cases s with
  | leafType atoms nullable =>
    cases nullable with
    | false => rfl
    | true =>
      show atoms.map markNull = (atoms.map markNull).map markNull
      rw [List.map_map]
      exact List.map_congr_left fun a _ => (markNull_markNull a).symm
  | fault e => rfl

theorem findSome?_belowNullable (stops : List Stop) :
    (stops.map belowNullable).findSome? fault? = stops.findSome? fault? := by
  rw [List.findSome?_map]
  congr 1
  funext s
  exact fault?_belowNullable s

/-- Below a nullable type all atoms are marked, and marks that are there already do not matter. -/
theorem flatMap_belowNullable (stops : List Stop) :
    (stops.map belowNullable).flatMap readAtoms = (stops.flatMap readAtoms).map markNull := by
  rw [List.flatMap_map, List.map_flatMap]
  congr 1
  funext s
  exact readAtoms_belowNullable s

/-- **What is read below a nullable type** is what is read without it, marked; atoms may have become
    equal. -/
theorem reading_belowNullable (stops : List Stop) :
    reading (stops.map belowNullable) =
      (reading stops).map fun atoms => (atoms.map markNull).eraseDups := by
  unfold reading readingAfter
  rw [findSome?_belowNullable, flatMap_belowNullable]
  cases stops.findSome? fault? with
  | some e => rfl
  | none =>
    show Except.ok (List.map markNull (stops.flatMap readAtoms)).eraseDups =
      Except.ok ((stops.flatMap readAtoms).eraseDups.map markNull).eraseDups
    -- marking is the same before and after the repetitions are erased
    rw [eraseDups_map_eraseDups]

/-- What comes first is read first, and the rest after its atoms. -/
theorem readingAfter_append (before : List String) (stops rest : List Stop) :
    readingAfter before (stops ++ rest) =
      reading stops >>= fun atoms => readingAfter (before ++ atoms).eraseDups rest := by
  unfold reading readingAfter
  rw [List.findSome?_append, List.flatMap_append]
  cases stops.findSome? fault? with
  | some e => rfl
  | none =>
    show (match rest.findSome? fault? with
      | some e => Except.error e
      | none => .ok (before ++ (stops.flatMap readAtoms ++ rest.flatMap readAtoms)).eraseDups) = _
    rw [eraseDups_append_append]
    rfl

end Stop

namespace Context

/-- A name is an end below a nullable type as it is outside of one. -/
theorem nameStop_nullable (c : Context) (nullable : Bool) (n : Node) :
    c.nameStop true n = (c.nameStop nullable n).belowNullable := by
  unfold nameStop
  cases n.childText? 0 <;> rfl

mutual

/-- A walk below a nullable type makes the same stops as one anywhere else. -/
theorem stopsOfTypeNode_nullable (c : Context) (nullable : Bool) :
    ∀ n : Node, c.stopsOfTypeNode true n = (c.stopsOfTypeNode nullable n).map Stop.belowNullable
  | ⟨kind, flags, line, children⟩ => by
    unfold stopsOfTypeNode
    cases kind with
    | name => rw [List.map_singleton, ← nameStop_nullable]
    | type => cases typeKeyword? flags <;> rfl
    | nullableType =>
      match children with
      | some inner :: _ => exact stopsOfType_nullable c true inner
      | none :: _ => rfl
      | [] => rfl
    | typeUnion => exact stopsOfMembers_nullable c nullable children
    | _ => rfl
termination_by structural n => n

theorem stopsOfType_nullable (c : Context) (nullable : Bool) :
    ∀ t : Child, c.stopsOfType true t = (c.stopsOfType nullable t).map Stop.belowNullable
  | .node n => stopsOfTypeNode_nullable c nullable n
  | .leaf _ => rfl
termination_by structural t => t

theorem stopsOfMembers_nullable (c : Context) (nullable : Bool) :
    ∀ slots : Slots,
      c.stopsOfMembers true slots = (c.stopsOfMembers nullable slots).map Stop.belowNullable
  | [] => rfl
  | none :: slots => stopsOfMembers_nullable c nullable slots
  | some member :: slots => by
    unfold stopsOfMembers
    rw [List.map_append, ← stopsOfType_nullable c nullable member,
      ← stopsOfMembers_nullable c nullable slots]
termination_by structural slots => slots

end

/-! ## §3. The unions of type positions are read from texts. -/

mutual

/-- The type of a type node can be read from its text, by induction over the tree. -/
theorem yields_typeOfTypeNode (c : Context) :
    ∀ n : Node, Resolution.Yields (c.typeOfTypeNode n) Readable
  | ⟨kind, flags, line, children⟩ => by
    unfold typeOfTypeNode
    -- the marked and the joined types rest on the mutual hypotheses; names are parsed
    cases kind with
    | name =>
      exact Resolution.yields_bind_pure (c.nameOfNode .cls ⟨.name, flags, line, children⟩)
        readable_ofText
    | type =>
      cases typeKeyword? flags with
      | some keyword => exact Resolution.yields_pure (readable_ofText keyword)
      | none => exact Resolution.yields_throw _
    | nullableType =>
      match children with
      | some inner :: _ =>
        refine Resolution.yields_bind (yields_typeOfType c inner) ?_
        intro u hu
        exact Resolution.yields_pure hu.nullable
      | none :: _ => exact Resolution.yields_throw _
      | [] => exact Resolution.yields_throw _
    | typeUnion => exact yields_typeOfMembers c children .empty readable_empty
    | _ => exact Resolution.yields_throw _
termination_by structural n => n

theorem yields_typeOfType (c : Context) :
    ∀ t : Child, Resolution.Yields (c.typeOfType t) Readable
  | .node n => yields_typeOfTypeNode c n
  | .leaf l => Resolution.yields_pure (readable_ofText l.text)
termination_by structural t => t

theorem yields_typeOfMembers (c : Context) :
    ∀ (slots : Slots) (found : UnionType), found.Readable →
      Resolution.Yields (c.typeOfMembers found slots) Readable
  | [], _, h => Resolution.yields_pure h
  | none :: slots, found, h => yields_typeOfMembers c slots found h
  | some member :: slots, found, h => by
    unfold typeOfMembers
    refine Resolution.yields_bind (yields_typeOfType c member) ?_
    intro u hu
    exact yields_typeOfMembers c slots (found.union u) (h.union hu)
termination_by structural slots => slots

end

/-! ## §4. The type of a position is what the walk says. -/

/-- A keyword is read as one atom, namely itself. -/
theorem atoms_ofText_keyword {code : UInt32} {keyword : String}
    (h : typeKeyword? code = some keyword) : (ofText keyword).atoms = [keyword] := by
  -- none of the keywords has a `|` or a blank in it
  have hall : ∀ entry ∈ typeKeywords, (ofText entry.2).atoms = [entry.2] := by
    decide +kernel
  obtain ⟨before, after, hsplit, -⟩ := List.lookup_eq_some_iff.mp h
  exact hall (code, keyword) (by simp [hsplit])

/-- A name node is read as its only stop says. -/
theorem nameOfNode_reads (c : Context) (n : Node) :
    ((c.nameOfNode .cls n).run.value.map ofText).map UnionType.atoms =
      Stop.reading [c.nameStop false n] := by
  rw [value_nameOfNode]
  unfold nameStop
  cases n.childText? 0 with
  | none => rfl
  | some name =>
    show Except.ok (ofText _).atoms = Except.ok (textAtoms _ ++ []).eraseDups
    rw [atoms_ofText, List.append_nil]

mutual

/-- A type node is resolved as the walk through it says, by induction over the tree. -/
theorem typeOfTypeNode_reads (c : Context) :
    ∀ n : Node, (c.typeOfTypeNode n).run.value.map UnionType.atoms =
      Stop.reading (c.stopsOfTypeNode false n)
  | ⟨kind, flags, line, children⟩ => by
    unfold typeOfTypeNode stopsOfTypeNode
    cases kind with
    | name =>
      show (_ >>= _ : Resolution UnionType).run.value.map _ = _
      rw [Resolution.value_bind_pure]
      exact nameOfNode_reads c ⟨.name, flags, line, children⟩
    | type =>
      cases hk : typeKeyword? flags with
      | some keyword =>
        show Except.ok (ofText keyword).atoms = Except.ok _
        rw [atoms_ofText_keyword hk]
        rfl
      | none => rfl
    | nullableType =>
      match children with
      | some inner :: _ =>
        show (_ >>= _ : Resolution UnionType).run.value.map _ =
          Stop.reading (c.stopsOfType true inner)
        -- below the nullable type the walk is the one outside of it, with every stop marked
        rw [Resolution.value_bind_pure, stopsOfType_nullable c false inner,
          Stop.reading_belowNullable, ← typeOfType_reads c inner]
        cases hv : (c.typeOfType inner).run.value with
        | error e => rfl
        | ok u =>
          have hu : u.WellFormed := (yields_typeOfType c inner u hv).wellFormed
          show Except.ok u.nullable.atoms = Except.ok _
          rw [atoms_nullable hu]
      | none :: _ => rfl
      | [] => rfl
    | typeUnion => exact typeOfMembers_reads c children .empty
    | _ => rfl
termination_by structural n => n

theorem typeOfType_reads (c : Context) :
    ∀ t : Child, (c.typeOfType t).run.value.map UnionType.atoms =
      Stop.reading (c.stopsOfType false t)
  | .node n => typeOfTypeNode_reads c n
  | .leaf l => by
    show Except.ok (ofText l.text).atoms = Except.ok (textAtoms l.text ++ []).eraseDups
    rw [atoms_ofText, List.append_nil]
termination_by structural t => t

/-- Members are read one after the other, behind the atoms that have been found before. -/
theorem typeOfMembers_reads (c : Context) :
    ∀ (slots : Slots) (found : UnionType),
      (c.typeOfMembers found slots).run.value.map UnionType.atoms =
        Stop.readingAfter found.atoms (c.stopsOfMembers false slots)
  | [], found => by
    show Except.ok found.atoms = Except.ok (found.atoms ++ []).eraseDups
    rw [List.append_nil, eraseDups_eq_self found.nodup]
  | none :: slots, found => typeOfMembers_reads c slots found
  | some member :: slots, found => by
    unfold typeOfMembers stopsOfMembers
    rw [Resolution.value_bind, Stop.readingAfter_append, ← typeOfType_reads c member]
    cases (c.typeOfType member).run.value with
    | error e => rfl
    | ok u =>
      -- the rest is read after the atoms of `found` and of this member
      show (c.typeOfMembers (found.union u) slots).run.value.map _ =
        Stop.readingAfter (found.atoms ++ u.atoms).eraseDups _
      rw [typeOfMembers_reads c slots (found.union u), atoms_union]
termination_by structural slots => slots

end

/-- **Reading a type position**: its type has the atoms that a walk through the tree comes upon, in
    the order of their first occurrences and marked below nullable types; and it has none exactly
    when the walk comes upon a fault, the first of which is the error.  A mark is a `?` in front of
    an atom that neither has one nor is `null` or `mixed`. -/
theorem typeOfType_eq_reading (c : Context) :
    (∀ t : Child, (c.typeOfType t).run.value.map UnionType.atoms =
      Stop.reading (c.stopsOfType false t)) ∧
    (∀ n : Node, (c.typeOfTypeNode n).run.value.map UnionType.atoms =
      Stop.reading (c.stopsOfTypeNode false n)) ∧
    ∀ a : String, markNull a =
      if a.toList.head? = some '?' ∨ Text.lower a = "null" ∨ Text.lower a = "mixed" then a
      else "?" ++ a :=
  ⟨typeOfType_reads c, typeOfTypeNode_reads c, markNull_eq⟩

/-- A member that is marked is not the one without a mark, and `Mixed` admits null as it is.  Of two
    faults the first one is the error, though a type stands in front of it. -/
theorem typeOfType_eq_reading_marked :
    ∃ (c : Context) (marked faulty : Node),
      (c.typeOfTypeNode marked).run.value.map UnionType.atoms =
        .ok ["int", "\\App\\A", "?\\App\\A", "Mixed", "?int"] ∧
      Stop.reading (c.stopsOfTypeNode false marked) =
        .ok ["int", "\\App\\A", "?\\App\\A", "Mixed", "?int"] ∧
      markNull "\\App\\A" = "?\\App\\A" ∧ markNull "Mixed" = "Mixed" ∧
      (c.typeOfTypeNode faulty).run.value.map UnionType.atoms = .error (.unknownKeyword 4242 2) ∧
      Stop.reading (c.stopsOfTypeNode false faulty) = .error (.unknownKeyword 4242 2) := by
  let c : Context := (Context.ofFile "a.php").withNamespace "App"
  let inner : Node := ⟨.typeUnion, 0, 1, [some (.node (.ofName "A" 1 1)),
    some (.leaf (.str "Mixed|int"))]⟩
  let marked : Node := ⟨.typeUnion, 0, 1, [some (.leaf (.str "int")), none,
    some (.node (.ofName "A" 1 1)), some (.node ⟨.nullableType, 0, 1, [some (.node inner)]⟩)]⟩
  let faulty : Node := ⟨.typeUnion, 0, 1, [some (.node marked), some (.node (.ofKeyword 4242 2)),
    some (.node ⟨.call, 0, 3, []⟩)]⟩
  obtain ⟨-, hreading, hmark⟩ := c.typeOfType_eq_reading
  have hmarked : (c.typeOfTypeNode marked).run.value.map UnionType.atoms =
      .ok ["int", "\\App\\A", "?\\App\\A", "Mixed", "?int"] := by
    decide +kernel
  have hfault : (c.typeOfTypeNode faulty).run.value.map UnionType.atoms =
      .error (.unknownKeyword 4242 2) := by
    decide +kernel
  refine ⟨c, marked, faulty, hmarked, ?_, ?_, ?_, hfault, ?_⟩
  · rw [← hreading, hmarked]
  · rw [hmark]
    decide +kernel
  · rw [hmark]
    decide +kernel
  · rw [← hreading, hfault]

end Context

end PhpNames
