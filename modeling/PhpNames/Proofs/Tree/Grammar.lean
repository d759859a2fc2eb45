/-
  PhpNames.Proofs.Tree.Grammar — the grammar of nodes among the JSON values.

      node      an object with `kind` once and `flags`, `line`, `children` at most once, and
                whatever else; or an array of one to four of these values, in this order
      kind      a text, or an object of one member with this key and null
      word      an integer in its range; zero where it is missing
      children  an array of slots; none where it is missing
      slot      null, a text, a number, or a node

  There are many ways to write a node.  Each of them is read as this node, and a value that is none
  of them is not read, at whatever depth it breaks the grammar (`Node.ofValue?_iff_writtenAs`).  For
  this the numbers must be signed words: an integer beyond them is read as a double, and a double
  is not written as an integer.
-/
import PhpNames.Proofs.Json.Members
import PhpNames.Proofs.Tree.RoundTrip

namespace PhpNames

open Json (Value Number member? fieldOr?)

/-! ## §1. The grammar. -/

/-- The values of the fields of a node, where they are given. -/
structure NodeParts where
  kind : Value
  flags : Option Value := none
  line : Option Value := none
  children : Option Value := none

/-- A value has these parts: as an object, or as an array. -/
inductive NodeParts.In : NodeParts → Value → Prop where
  | object {p : NodeParts} {ms : List (String × Value)}
      (kind : member? ms "kind" = some (some p.kind)) (flags : member? ms "flags" = some p.flags)
      (line : member? ms "line" = some p.line)
      (children : member? ms "children" = some p.children) : In p (.obj ms)
  | one (k : Value) : In ⟨k, none, none, none⟩ (.arr [k])
  | two (k f : Value) : In ⟨k, some f, none, none⟩ (.arr [k, f])
  | three (k f l : Value) : In ⟨k, some f, some l, none⟩ (.arr [k, f, l])
  | four (k f l c : Value) : In ⟨k, some f, some l, some c⟩ (.arr [k, f, l, c])

/-- The value is a kind: its name, or an object in which the name stands for null. -/
inductive Kind.WrittenAs : Kind → Value → Prop where
  | text (s : String) : WrittenAs (.ofText s) (.str s)
  | entry (s : String) : WrittenAs (.ofText s) (.obj [(s, .null)])

/-- The value is a word, where it is given; a missing word is zero. -/
inductive WordWritten : UInt32 → Option Value → Prop where
  | missing : WordWritten 0 none
  | given (w : UInt32) : WordWritten w (some (.int w.toNat))

mutual

/-- The value is a node. -/
inductive Node.WrittenAs : Node → Value → Prop where
  | intro {k : Kind} {f l : UInt32} {cs : Slots} {v : Value} {p : NodeParts} (parts : p.In v)
      (kind : k.WrittenAs p.kind) (flags : WordWritten f p.flags) (line : WordWritten l p.line)
      (children : ChildrenWritten cs p.children) : Node.WrittenAs ⟨k, f, l, cs⟩ v

/-- The value is an array of slots, where it is given; there are none where it is missing. -/
inductive ChildrenWritten : Slots → Option Value → Prop where
  | missing : ChildrenWritten [] none
  | given {cs : Slots} {vs : List Value} (slots : SlotsWritten cs vs) :
      ChildrenWritten cs (some (.arr vs))

/-- The values are slots. -/
inductive SlotsWritten : Slots → List Value → Prop where
  | nil : SlotsWritten [] []
  | absent {cs : Slots} {vs : List Value} (slots : SlotsWritten cs vs) :
      SlotsWritten (none :: cs) (.null :: vs)
  | leaf (a : Leaf) {cs : Slots} {vs : List Value} (slots : SlotsWritten cs vs) :
      SlotsWritten (some (.leaf a) :: cs) (a.toValue :: vs)
  | node {n : Node} {v : Value} {cs : Slots} {vs : List Value} (node : n.WrittenAs v)
      (slots : SlotsWritten cs vs) : SlotsWritten (some (.node n) :: cs) (v :: vs)

end

/-! ## §2. One node. -/

/-- Reads the children of a node. -/
def childrenOf? : Value → Option Slots
  | .arr vs => slots? vs
  | _ => none

/-- A member concerns one field only, so the fields can be looked for one after the other. -/
theorem nodeFields?_eq (fields : NodeFields) (ms : List (String × Value)) :
    nodeFields? fields ms =
      (Json.scanField? Kind.ofValue? "kind" fields.kind ms).bind fun k =>
        (Json.scanField? wordOfValue? "flags" fields.flags ms).bind fun f =>
          (Json.scanField? wordOfValue? "line" fields.line ms).bind fun l =>
            (Json.scanField? childrenOf? "children" fields.children ms).map fun cs =>
              ⟨k, f, l, cs⟩ := by
  induction ms generalizing fields with
  | nil => rfl
  | cons m ms ih =>
    obtain ⟨key, v⟩ := m
    unfold nodeFields?
    -- the first member belongs to one field, and the searches for the others pass it over
    by_cases hkind : key = "kind"
    · subst hkind
      rw [if_pos rfl, Json.scanField?_cons_self, Json.scanField?_cons_of_ne (by decide),
        Json.scanField?_cons_of_ne (by decide), Json.scanField?_cons_of_ne (by decide)]
      simp only [ih]
      cases Kind.ofValue? v <;> cases fields.kind <;> rfl
    rw [if_neg hkind, Json.scanField?_cons_of_ne hkind]
    by_cases hflags : key = "flags"
    · subst hflags
      rw [if_pos rfl, Json.scanField?_cons_self, Json.scanField?_cons_of_ne (by decide),
        Json.scanField?_cons_of_ne (by decide)]
      simp only [ih]
      cases Json.scanField? Kind.ofValue? "kind" fields.kind ms <;> cases wordOfValue? v <;>
        cases fields.flags <;> rfl
    rw [if_neg hflags, Json.scanField?_cons_of_ne hflags]
    by_cases hline : key = "line"
    · subst hline
      rw [if_pos rfl, Json.scanField?_cons_self, Json.scanField?_cons_of_ne (by decide)]
      simp only [ih]
      cases Json.scanField? Kind.ofValue? "kind" fields.kind ms <;>
        cases Json.scanField? wordOfValue? "flags" fields.flags ms <;> cases wordOfValue? v <;>
        cases fields.line <;> rfl
    rw [if_neg hline, Json.scanField?_cons_of_ne hline]
    by_cases hchildren : key = "children"
    · subst hchildren
      rw [if_pos rfl, Json.scanField?_cons_self]
      apply Eq.trans (show _ = (childrenOf? v).bind fun cs =>
        if fields.children.isSome then none
        else nodeFields? { fields with children := some cs } ms by cases v <;> rfl)
      simp only [ih]
      cases Json.scanField? Kind.ofValue? "kind" fields.kind ms <;>
        cases Json.scanField? wordOfValue? "flags" fields.flags ms <;>
        cases Json.scanField? wordOfValue? "line" fields.line ms <;> cases childrenOf? v <;>
        cases fields.children <;> rfl
    rw [if_neg hchildren, Json.scanField?_cons_of_ne hchildren, ih]

/-- An object is read as a node field by field. -/
theorem Node.ofValue?_obj (ms : List (String × Value)) :
    Node.ofValue? (.obj ms) =
      ((member? ms "kind").bind fun k => k.bind Kind.ofValue?).bind fun k =>
        ((member? ms "flags").bind (fieldOr? wordOfValue? 0)).bind fun f =>
          ((member? ms "line").bind (fieldOr? wordOfValue? 0)).bind fun l =>
            ((member? ms "children").bind (fieldOr? childrenOf? [])).map fun cs =>
              ⟨k, f, l, cs⟩ := by
  unfold Node.ofValue?
  rw [nodeFields?_eq, ← Json.scanField?_bind_id, ← Json.scanField?_map_getD,
    ← Json.scanField?_map_getD, ← Json.scanField?_map_getD]
  rcases Json.scanField? Kind.ofValue? "kind" none ms with _ | _ | k <;>
    cases Json.scanField? wordOfValue? "flags" none ms <;>
    cases Json.scanField? wordOfValue? "line" none ms <;>
    cases Json.scanField? childrenOf? "children" none ms <;> rfl

/-- Reads the parts of a node. -/
def NodeParts.node? (p : NodeParts) : Option Node := do
  return ⟨← Kind.ofValue? p.kind, ← fieldOr? wordOfValue? 0 p.flags,
    ← fieldOr? wordOfValue? 0 p.line, ← fieldOr? childrenOf? [] p.children⟩

/-- A node is read of its parts. -/
theorem NodeParts.In.ofValue? {p : NodeParts} {v : Value} (h : p.In v) :
    Node.ofValue? v = p.node? := by
  induction h with
  | object kind flags line children =>
    rw [Node.ofValue?_obj, kind, flags, line, children]
    unfold NodeParts.node?
    simp only [Option.bind_some, Option.map_eq_bind]
    rfl
  | one k => rfl
  | two k f => rfl
  | three k f l => rfl
  | four k f l c =>
    unfold NodeParts.node?
    -- an array of four is read as a node only if its last item is an array
    cases c with
    | arr vs => rfl
    | _ => simp [Node.ofValue?, fieldOr?, childrenOf?]

/-- A value that is read as a node has its parts. -/
theorem NodeParts.exists_in {v : Value} {n : Node} (h : Node.ofValue? v = some n) :
    ∃ p : NodeParts, p.In v := by
  have hnode := h
  unfold Node.ofValue? at h
  split at h
  next ms =>
    -- reading an object asks for all four members before it looks at the values
    rw [Node.ofValue?_obj] at hnode
    obtain ⟨k, hk, hnode⟩ := Option.bind_eq_some_iff.mp hnode
    obtain ⟨f, hf, hnode⟩ := Option.bind_eq_some_iff.mp hnode
    obtain ⟨l, hl, hnode⟩ := Option.bind_eq_some_iff.mp hnode
    obtain ⟨cs, hcs, -⟩ := Option.map_eq_some_iff.mp hnode
    obtain ⟨kind?, hkind, hk⟩ := Option.bind_eq_some_iff.mp hk
    obtain ⟨kind, rfl, -⟩ := Option.bind_eq_some_iff.mp hk
    obtain ⟨flags, hflags, -⟩ := Option.bind_eq_some_iff.mp hf
    obtain ⟨line, hline, -⟩ := Option.bind_eq_some_iff.mp hl
    obtain ⟨children, hchildren, -⟩ := Option.bind_eq_some_iff.mp hcs
    exact ⟨⟨kind, flags, line, children⟩, .object hkind hflags hline hchildren⟩
  next k => exact ⟨_, .one k⟩
  next k f => exact ⟨_, .two k f⟩
  next k f l => exact ⟨_, .three k f l⟩
  next k f l vs => exact ⟨_, .four k f l (.arr vs)⟩
  next => cases h

/-! ## §3. Kinds and words. -/

/-- A kind is read of its two written forms alone. -/
theorem Kind.ofValue?_eq_some_iff {v : Value} {k : Kind} :
    Kind.ofValue? v = some k ↔ k.WrittenAs v := by
  constructor
  · intro h
    unfold Kind.ofValue? at h
    split at h
    · cases h
      exact .text _
    · cases h
      exact .entry _
    · cases h
  · intro h
    cases h with
    | text s => rfl
    | entry s => rfl

/-- A value that is read as a word is its number. -/
theorem eq_toNat_of_wordOfValue? {v : Value} {w : UInt32} (h : wordOfValue? v = some w) :
    v = .int w.toNat := by
  unfold wordOfValue? at h
  split at h
  next i =>
    by_cases hi : 0 ≤ i ∧ i < 0x1_0000_0000
    · -- in range nothing is lost by the 32 bits
      rw [if_pos hi, Option.some_inj] at h
      have htoNat : ((UInt32.ofNat i.toNat).toNat : Int) = i := by
        rw [UInt32.toNat_ofNat']
        omega
      rw [← h, htoNat]
    · rw [if_neg hi] at h
      cases h
  next => cases h

/-- A word is read of the number that it is, or of nothing. -/
theorem fieldOr?_wordOfValue?_eq_some_iff {o : Option Value} {w : UInt32} :
    fieldOr? wordOfValue? 0 o = some w ↔ WordWritten w o := by
  constructor
  · intro h
    cases o with
    | none =>
      cases h
      exact .missing
    | some v =>
      rw [eq_toNat_of_wordOfValue? h]
      exact .given w
  · intro h
    cases h with
    | missing => rfl
    | given w => rw [Json.fieldOr?_some, wordOfValue?_toNat]

/-! ## §4. Numbers. -/

mutual

/-- The numbers in a value, at any depth. -/
def Json.Value.numbers : Value → List Number
  | .num n => [n]
  | .arr vs => itemsNumbers vs
  | .obj ms => membersNumbers ms
  | _ => []
termination_by structural v => v

/-- The numbers in items. -/
def itemsNumbers : List Value → List Number
  | [] => []
  | v :: vs => v.numbers ++ itemsNumbers vs
termination_by structural vs => vs

/-- The numbers in the values of members. -/
def membersNumbers : List (String × Value) → List Number
  | [] => []
  | (_, v) :: ms => v.numbers ++ membersNumbers ms
termination_by structural ms => ms

end

/-- The number is an integer of a signed word of 64 bits. -/
def Json.Number.IsSigned : Number → Prop
  | .int i => -Json.signedBound ≤ i ∧ i < Json.signedBound
  | .float _ => False

theorem mem_itemsNumbers {x : Number} {v : Value} {vs : List Value} (hv : v ∈ vs)
    (hx : x ∈ v.numbers) : x ∈ itemsNumbers vs := by
  induction hv with
  | head vs => exact List.mem_append_left _ hx
  | tail w _ ih => exact List.mem_append_right _ ih

theorem mem_membersNumbers {x : Number} {m : String × Value} {ms : List (String × Value)}
    (hm : m ∈ ms) (hx : x ∈ m.2.numbers) : x ∈ membersNumbers ms := by
  induction hm with
  | head ms => exact List.mem_append_left _ hx
  | tail w _ ih => exact List.mem_append_right _ ih

/-- A signed word is written as it was read. -/
theorem Leaf.toValue_ofNumber {x : Number} (h : x.IsSigned) :
    (Leaf.ofNumber x).toValue = .num x := by
  cases x with
  | int i =>
    have hi : -(Json.signedBound : Int) ≤ i ∧ i < (Json.signedBound : Int) := h
    show (if -(Json.signedBound : Int) ≤ i ∧ i < (Json.signedBound : Int) then
      Leaf.int (Int64.ofInt i) else .float (Float.ofInt i)).toValue = .num (.int i)
    rw [if_pos hi]
    show Value.num (.int (Int64.ofInt i).toInt) = .num (.int i)
    unfold Json.signedBound at hi
    rw [Int64.toInt_ofInt_of_le (by omega) (by omega)]
  | float f => exact absurd h id

/-! ## §5. What is read has been written. -/

/-- The children stand inside of the node. -/
theorem NodeParts.In.children_inside {p : NodeParts} {v : Value} {vs : List Value} (h : p.In v)
    (hvs : p.children = some (.arr vs)) :
    Json.itemsNesting vs < v.nesting ∧ ∀ x ∈ itemsNumbers vs, x ∈ v.numbers := by
  -- inside as a member of the object, or as the fourth item; the shorter arrays have no children
  cases h with
  | @object _ ms _ _ _ children =>
    rw [hvs] at children
    have hmem := Json.mem_of_member? children
    have hnesting : Json.itemsNesting vs + 1 ≤ Json.membersNesting ms :=
      Json.nesting_le_membersNesting hmem
    refine ⟨?_, fun x hx => mem_membersNumbers hmem hx⟩
    show Json.itemsNesting vs < Json.membersNesting ms + 1
    omega
  | one k => cases hvs
  | two k f => cases hvs
  | three k f l => cases hvs
  | four k f l c =>
    cases hvs
    have hmem : Value.arr vs ∈ [k, f, l, .arr vs] := by simp
    have hnesting : Json.itemsNesting vs + 1 ≤ Json.itemsNesting [k, f, l, .arr vs] :=
      Json.nesting_le_itemsNesting hmem
    refine ⟨?_, fun x hx => mem_itemsNumbers hmem hx⟩
    show Json.itemsNesting vs < Json.itemsNesting [k, f, l, .arr vs] + 1
    omega

/-- Slots that have been read are written by the grammar, if the nodes among them are and all
    numbers fit a signed word. -/
theorem slotsWritten_of_slots? {vs : List Value} {cs : Slots}
    (hsigned : ∀ x ∈ itemsNumbers vs, x.IsSigned)
    (hnodes : ∀ v ∈ vs, ∀ n, Node.ofValue? v = some n → n.WrittenAs v)
    (h : slots? vs = some cs) : SlotsWritten cs vs := by
  induction vs generalizing cs with
  | nil =>
    cases h
    exact .nil
  | cons v vs ih =>
    obtain ⟨slot, hslot, h⟩ := Option.bind_eq_some_iff.mp h
    obtain ⟨rest, hrest, h⟩ := Option.bind_eq_some_iff.mp h
    cases h
    have hwritten : SlotsWritten rest vs :=
      ih (fun x hx => hsigned x (List.mem_append_right _ hx))
        (fun w hw => hnodes w (List.mem_cons_of_mem v hw)) hrest
    cases v with
    | null =>
      cases hslot
      exact .absent hwritten
    | bool b => cases hslot
    | num x =>
      -- a number that is no signed word would be read as a leaf that is written differently
      cases hslot
      have hx : x.IsSigned := hsigned x List.mem_cons_self
      rw [← Leaf.toValue_ofNumber hx]
      exact .leaf (.ofNumber x) hwritten
    | str s =>
      cases hslot
      exact .leaf (.str s) hwritten
    | arr _ | obj _ =>
      obtain ⟨n, hn, heq⟩ := Option.map_eq_some_iff.mp hslot
      cases heq
      exact .node (hnodes _ List.mem_cons_self n hn) hwritten

/-- What is read as a node has been written as this node, at any depth. -/
theorem Node.writtenAs_of_ofValue? {v : Value} {n : Node} (hsigned : ∀ x ∈ v.numbers, x.IsSigned)
    (h : Node.ofValue? v = some n) : n.WrittenAs v := by
  -- the children stand inside of the node, so they are nested less deep
  induction hnesting : v.nesting using Nat.strongRecOn generalizing v n with
  | _ nesting ih =>
    obtain ⟨p, hp⟩ := NodeParts.exists_in h
    rw [hp.ofValue?] at h
    obtain ⟨k, hk, h⟩ := Option.bind_eq_some_iff.mp h
    obtain ⟨f, hf, h⟩ := Option.bind_eq_some_iff.mp h
    obtain ⟨l, hl, h⟩ := Option.bind_eq_some_iff.mp h
    obtain ⟨cs, hcs, h⟩ := Option.bind_eq_some_iff.mp h
    cases h
    have hchildren : ChildrenWritten cs p.children := by
      cases hc : p.children with
      | none =>
        rw [hc] at hcs
        cases hcs
        exact .missing
      | some c =>
        rw [hc] at hcs
        match c with
        | .arr vs =>
          obtain ⟨hinside, hnumbers⟩ := hp.children_inside hc
          refine .given (slotsWritten_of_slots? (fun x hx => hsigned x (hnumbers x hx)) ?_ hcs)
          intro w hw m hm
          have hle := Json.nesting_le_itemsNesting hw
          exact ih w.nesting (by omega)
            (fun x hx => hsigned x (hnumbers x (mem_itemsNumbers hw hx))) hm rfl
        | .null | .bool _ | .num _ | .str _ | .obj _ => cases hcs
    exact .intro hp (Kind.ofValue?_eq_some_iff.mp hk) (fieldOr?_wordOfValue?_eq_some_iff.mp hf)
      (fieldOr?_wordOfValue?_eq_some_iff.mp hl) hchildren

/-! ## §6. What has been written is read. -/

/-- A slot takes what can be read as a node for this node. -/
theorem NodeParts.In.slotOf? {p : NodeParts} {v : Value} (h : p.In v) (n : Option Node) :
    slotOf? v n = n.map fun n => some (.node n) := by
  cases h <;> rfl

/-- A leaf is read as itself, whatever node might be read in its place. -/
theorem Leaf.slotOf?_toValue (a : Leaf) (n : Option Node) :
    slotOf? a.toValue n = some (some (.leaf a)) := by
  cases a with
  | str s => rfl
  | int i =>
    show some (some (Child.leaf (.ofNumber (.int i.toInt)))) = _
    rw [Leaf.ofNumber_toInt]
  | float f => rfl

mutual

/-- What has been written as a node is read as this node, at any depth. -/
theorem Node.WrittenAs.ofValue? {n : Node} {v : Value} (h : n.WrittenAs v) :
    Node.ofValue? v = some n :=
  match h with
  | .intro hp hkind hflags hline hchildren => by
    rw [hp.ofValue?]
    unfold NodeParts.node?
    rw [Kind.ofValue?_eq_some_iff.mpr hkind, fieldOr?_wordOfValue?_eq_some_iff.mpr hflags,
      fieldOr?_wordOfValue?_eq_some_iff.mpr hline, hchildren.read]
    rfl
termination_by structural h

theorem ChildrenWritten.read {cs : Slots} {o : Option Value} (h : ChildrenWritten cs o) :
    fieldOr? childrenOf? [] o = some cs :=
  match h with
  | .missing => rfl
  | .given hslots => hslots.slots?
termination_by structural h

/-- Slots that are written by the grammar are read. -/
theorem SlotsWritten.slots? {cs : Slots} {vs : List Value} (h : SlotsWritten cs vs) :
    slots? vs = some cs :=
  match h with
  | .nil => rfl
  | .absent hslots => by
    unfold PhpNames.slots?
    rw [hslots.slots?]
    rfl
  | .leaf a hslots => by
    unfold PhpNames.slots?
    rw [hslots.slots?, a.slotOf?_toValue]
    rfl
  | .node hnode hslots => by
    -- a value with the parts of a node is an array or an object, so no leaf is taken for it
    obtain ⟨p, hp⟩ := NodeParts.exists_in hnode.ofValue?
    unfold PhpNames.slots?
    rw [hslots.slots?, hp.slotOf?, hnode.ofValue?]
    rfl
termination_by structural h

end

/-! ## §7. The ways of writing a node. -/

/-- The names of the fields of a node. -/
def nodeFieldNames : List String := ["kind", "flags", "line", "children"]

/-- An object has the same parts as one with the same members for the fields. -/
theorem NodeParts.In.of_members {p : NodeParts} {ms ms' : List (String × Value)}
    (h : p.In (.obj ms)) (hmember : ∀ key ∈ nodeFieldNames, member? ms key = member? ms' key) :
    p.In (.obj ms') := by
  cases h with
  | object kind flags line children =>
    rw [hmember _ (by decide)] at kind flags line children
    exact .object kind flags line children

/-- The members of an object may stand in any order. -/
theorem NodeParts.In.perm {p : NodeParts} {ms ms' : List (String × Value)} (h : p.In (.obj ms))
    (hperm : ms.Perm ms') : p.In (.obj ms') :=
  h.of_members fun key _ => Json.member?_perm hperm key

/-- Members with other keys are passed over. -/
theorem NodeParts.in_filter {p : NodeParts} {ms : List (String × Value)} :
    p.In (.obj (ms.filter fun m => nodeFieldNames.contains m.1)) ↔ p.In (.obj ms) := by
  constructor
  · intro h
    exact h.of_members fun key hkey => Json.member?_filter hkey ms
  · intro h
    exact h.of_members fun key hkey => (Json.member?_filter hkey ms).symm

/-- A value has one kind of parts. -/
theorem NodeParts.In.unique {p q : NodeParts} {v : Value} (hp : p.In v) (hq : q.In v) : p = q := by
  obtain ⟨k, f, l, c⟩ := p
  obtain ⟨k', f', l', c'⟩ := q
  -- an object has one value for each key, and arrays of different lengths differ
  cases hp with
  | object kind flags line children =>
    cases hq with
    | object kind' flags' line' children' =>
      cases kind.symm.trans kind'
      cases flags.symm.trans flags'
      cases line.symm.trans line'
      cases children.symm.trans children'
      rfl
  | one | two | three | four =>
    cases hq
    rfl

/-- It does not matter to the node in which of its forms the parts stand. -/
theorem Node.WrittenAs.of_in {n : Node} {p : NodeParts} {v w : Value} (h : n.WrittenAs v)
    (hv : p.In v) (hw : p.In w) : n.WrittenAs w := by
  cases h with
  | intro parts kind flags line children =>
    cases parts.unique hv
    exact .intro hw kind flags line children

mutual

/-- Among the ways of writing a node is the one with all fields. -/
theorem Node.writtenAs_toValue (n : Node) : n.WrittenAs n.toValue :=
  match n with
  | ⟨kind, flags, line, children⟩ => by
    have hkind : kind.WrittenAs (.str kind.text) := by
      rw [← Kind.ofValue?_eq_some_iff]
      exact congrArg some kind.ofText_text
    have hparts : NodeParts.In ⟨.str kind.text, some (.int flags.toNat), some (.int line.toNat),
        some (.arr (slotValues children))⟩ (Node.toValue ⟨kind, flags, line, children⟩) :=
      .object rfl rfl rfl rfl
    exact .intro hparts hkind (.given flags) (.given line)
      (.given (slotsWritten_slotValues children))
termination_by structural n

/-- What the writer writes for slots is written by the grammar. -/
theorem slotsWritten_slotValues (cs : Slots) : SlotsWritten cs (slotValues cs) :=
  match cs with
  | [] => .nil
  | none :: cs => .absent (slotsWritten_slotValues cs)
  | some (.leaf a) :: cs => .leaf a (slotsWritten_slotValues cs)
  | some (.node n) :: cs => .node n.writtenAs_toValue (slotsWritten_slotValues cs)
termination_by structural cs

end

/-- A text all of which is readable is read as its value is. -/
theorem Node.parse?_of_value {t : String} {v : Value} (h : Value.parse? t = some v) :
    Node.parse? t = Node.ofValue? v := by
  obtain ⟨d, hd, hv⟩ := Option.bind_eq_some_iff.mp h
  unfold Node.parse? Node.ofDocument?
  rw [hd, Option.bind_some]
  refine Json.Document.select?_bind_of_value? hv fun ms => ?_
  rw [Node.ofValue?_obj, Node.ofValue?_obj, Json.member?_filter (by decide),
    Json.member?_filter (by decide), Json.member?_filter (by decide),
    Json.member?_filter (by decide)]

/-- **The grammar of nodes**: where all numbers are signed words, a value is read as a node exactly
    if it has been written as this node.  Each way of writing a node is read as this node, and the
    form in which its parts stand, at whatever depth, makes no difference: neither the order of
    members, nor members with other keys, nor the array in place of the object.  A text is read as
    its value is. -/
theorem Node.ofValue?_iff_writtenAs :
    (∀ (v : Value) (n : Node), (∀ x ∈ v.numbers, x.IsSigned) →
      (Node.ofValue? v = some n ↔ n.WrittenAs v)) ∧
    (∀ n : Node, n.WrittenAs n.toValue ∧ ∀ v, n.WrittenAs v → Node.ofValue? v = some n) ∧
    (∀ (n : Node) (p : NodeParts) (v w : Value), p.In v → p.In w →
      n.WrittenAs v → n.WrittenAs w) ∧
    (∀ (p : NodeParts) (ms ms' : List (String × Value)), ms.Perm ms' →
      p.In (.obj ms) → p.In (.obj ms')) ∧
    (∀ (p : NodeParts) (ms : List (String × Value)),
      p.In (.obj (ms.filter fun m => nodeFieldNames.contains m.1)) ↔ p.In (.obj ms)) ∧
    ∀ (t : String) (v : Value), Value.parse? t = some v → Node.parse? t = Node.ofValue? v :=
  ⟨fun _ _ hsigned => ⟨Node.writtenAs_of_ofValue? hsigned, Node.WrittenAs.ofValue?⟩,
    fun n => ⟨n.writtenAs_toValue, fun _ h => h.ofValue?⟩,
    fun _ _ _ _ hv hw h => h.of_in hv hw,
    fun _ _ _ hperm h => h.perm hperm,
    fun _ _ => NodeParts.in_filter,
    fun _ _ h => Node.parse?_of_value h⟩

/-- An assignment to a variable, with an object around an array and the other way around. -/
theorem Node.ofValue?_iff_writtenAs_assignment :
    let n : Node := ⟨.assign, 0, 7, [some (.node (.var "x" 7)), none, some (.leaf (.int (-5)))]⟩
    let kind : Value := .obj [("assign", .null)]
    let children : Value := .arr [.arr [.str "var", .int 0, .int 7, .arr [.str "x"]], .null,
      .int (-5)]
    let v : Value := .obj [("line", .int 7), ("kind", kind), ("file", .arr [.int (-1)]),
      ("children", children), ("flags", .int 0)]
    let w : Value := .arr [kind, .int 0, .int 7, children]
    (∀ x ∈ v.numbers, x.IsSigned) ∧ n.WrittenAs v ∧ n.WrittenAs w ∧ Node.ofValue? w = some n ∧
      Node.parse? v.write = some n := by
  intro n kind children v w
  have hsigned : ∀ x ∈ v.numbers, x.IsSigned := by
    simp [v, kind, children, Json.Value.numbers, itemsNumbers, membersNumbers,
      Json.Number.IsSigned, Json.signedBound]
  -- from the reading of the object follows that it was written so, and then so is the array
  have hv : n.WrittenAs v := (Node.ofValue?_iff_writtenAs.1 v n hsigned).mp rfl
  have hw : n.WrittenAs w := Node.ofValue?_iff_writtenAs.2.2.1 n
    ⟨kind, some (.int 0), some (.int 7), some children⟩ v w (.object rfl rfl rfl rfl)
    (.four _ _ _ _) hv
  have hparse : Value.parse? v.write = some v := by
    rw [Json.Value.parse?_write]
    rfl
  have hread : Node.ofValue? w = some n := (Node.ofValue?_iff_writtenAs.2.1 n).2 w hw
  refine ⟨hsigned, hv, hw, hread, ?_⟩
  rw [Node.ofValue?_iff_writtenAs.2.2.2.2.2 v.write v hparse]
  rfl

end PhpNames
