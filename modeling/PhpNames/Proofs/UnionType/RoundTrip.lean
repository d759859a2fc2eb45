/-
  PhpNames.Proofs.UnionType.RoundTrip — the text of a union, read again.

  A `|` inside an atom cannot be told from the `|` between two atoms.  For a union of atoms this is
  the only obstacle:

      ofText u.text = u   ↔   no atom of `u` contains a `|`      (`ofText_text_iff`)

  Reading a type text never leaves a `|` in an atom, and neither joining nor marking puts one in.
  A list of written atoms may bring one, and nothing takes it out again.  So the text of a union
  that has been made in any way reads back as that union exactly when no list of atoms on the way
  had a `|` in it (`ofText_text_iff_listsPlain`).
-/
import PhpNames.Proofs.UnionType.FirstSeen
import PhpNames.UnionType.Json

namespace PhpNames

/-! ## §1. Separators in texts. -/

/-- The pieces between separators have no separator in them. -/
theorem not_mem_of_mem_splitOn {sep : Char} {cs part : List Char} (h : part ∈ cs.splitOn sep) :
    sep ∉ part := by
  induction cs generalizing part with
  | nil =>
    obtain rfl : part = [] := by simpa using h
    simp
  | cons c cs ih =>
    rw [List.splitOn_cons_eq_if_modifyHead] at h
    split at h
    · rcases List.mem_cons.mp h with rfl | hrest
      · simp
      · exact ih hrest
    · next hc =>
      -- `c` belongs to the first part; the other parts are those of `cs`
      cases hparts : cs.splitOn sep with
      | nil => exact absurd hparts (List.splitOn_ne_nil sep cs)
      | cons first rest =>
        rw [hparts, List.modifyHead_cons] at h
        rw [hparts] at ih
        rcases List.mem_cons.mp h with rfl | hrest
        · have hne : sep ≠ c := fun he => hc (by simp [he])
          simp [hne, ih List.mem_cons_self]
        · exact ih (List.mem_cons_of_mem first hrest)

namespace Text

/-- Cutting blanks off takes nothing else away. -/
theorem mem_trim_of_not_isBlank {s : String} {c : Char} (hc : isBlank c = false)
    (h : c ∈ s.toList) : c ∈ (trim s).toList := by
  have hdrop : ∀ {cs : List Char}, c ∈ cs → c ∈ cs.dropWhile isBlank := by
    intro cs hmem
    rw [← List.takeWhile_append_dropWhile (p := isBlank) (l := cs)] at hmem
    rcases List.mem_append.mp hmem with hmem | hmem
    · simp [List.mem_takeWhile_imp hmem] at hc
    · exact hmem
  -- the start is cut off first, and then the end, as the start of the reversed text
  rw [toList_trim]
  unfold cut dropEndWhile
  rw [List.mem_reverse]
  apply hdrop
  rw [List.mem_reverse]
  exact hdrop h

end Text

namespace UnionType

/-! ## §2. Plain atoms. -/

/-- The text has no `|` in it. -/
def IsPlain (a : String) : Prop := '|' ∉ a.toList

/-- No atom of the union has a `|` in it. -/
def Plain (u : UnionType) : Prop := ∀ a ∈ u.atoms, IsPlain a

/-- Trimming takes no `|` away. -/
theorem isPlain_trim_iff {s : String} : IsPlain (Text.trim s) ↔ IsPlain s := by
  unfold IsPlain
  constructor
  · intro h hmem
    exact h (Text.mem_trim_of_not_isBlank rfl hmem)
  · intro h hmem
    exact h (Text.mem_of_mem_trim hmem)

/-- Marking brings no `|` in. -/
theorem isPlain_markNull_iff {a : String} : IsPlain (markNull a) ↔ IsPlain a := by
  unfold IsPlain
  rw [toList_markNull]
  split <;> simp

/-- The parts of a text have no `|` in them. -/
theorem isPlain_of_mem_parts {text part : String} (h : part ∈ parts text) : IsPlain part := by
  unfold parts at h
  obtain ⟨cs, hcs, rfl⟩ := List.mem_map.mp h
  unfold IsPlain
  rw [String.toList_ofList]
  exact not_mem_of_mem_splitOn hcs

theorem plain_empty : empty.Plain := by
  simp [Plain]

/-- Blank atoms are dropped and the others trimmed, so only a `|` decides. -/
theorem plain_ofAtoms_iff {written : List String} :
    (ofAtoms written).Plain ↔ ∀ w ∈ written, IsPlain w := by
  unfold Plain
  simp only [atoms_ofAtoms, List.mem_eraseDups, mem_writtenAtoms]
  constructor
  · intro h w hw
    by_cases hblank : Text.trim w = ""
    · -- `w` is dropped, but it had blanks in it only
      rw [← isPlain_trim_iff, hblank]
      simp [IsPlain]
    · rw [← isPlain_trim_iff]
      exact h (Text.trim w) ⟨w, hw, hblank, rfl⟩
  · rintro h a ⟨w, hw, -, rfl⟩
    exact isPlain_trim_iff.mpr (h w hw)

/-- The atoms of a text have no `|` in them. -/
theorem plain_ofText (text : String) : (ofText text).Plain := by
  unfold ofText
  rw [plain_ofAtoms_iff]
  intro part hpart
  exact isPlain_of_mem_parts hpart

/-- The atoms of a union of two have no `|` in them if those of both have none. -/
theorem plain_union_iff {u v : UnionType} : (u.union v).Plain ↔ u.Plain ∧ v.Plain := by
  unfold Plain
  simp only [mem_union]
  constructor
  · intro h
    exact ⟨fun a ha => h a (Or.inl ha), fun a ha => h a (Or.inr ha)⟩
  · rintro ⟨hu, hv⟩ a (ha | ha)
    · exact hu a ha
    · exact hv a ha

/-- Marking the atoms of a union brings no `|` into them and takes none away. -/
theorem plain_nullable_iff {u : UnionType} (h : u.WellFormed) : u.nullable.Plain ↔ u.Plain := by
  unfold Plain
  simp only [atoms_nullable h, List.mem_eraseDups, List.mem_map]
  constructor
  · intro hmarked a ha
    exact isPlain_markNull_iff.mp (hmarked (markNull a) ⟨a, ha, rfl⟩)
  · rintro hu b ⟨a, ha, rfl⟩
    exact isPlain_markNull_iff.mpr (hu a ha)

/-! ## §3. Reading the text of a union. -/

/-- The parts of the text of a union are its atoms, if none of these has a `|` in it. -/
theorem parts_text {u : UnionType} (hne : u.atoms ≠ []) (h : u.Plain) : parts u.text = u.atoms := by
  unfold parts text
  rw [String.toList_ofList, List.splitOn_intercalate, List.map_map]
  · show u.atoms.map (String.ofList ∘ String.toList) = u.atoms
    rw [show String.ofList ∘ String.toList = id from funext fun a => String.ofList_toList,
      List.map_id]
  · intro cs hcs
    obtain ⟨a, ha, rfl⟩ := List.mem_map.mp hcs
    exact h a ha
  · simpa using hne

/-- **A plain union comes back** from its own text, with its atoms in order. -/
theorem ofText_text {u : UnionType} (hw : u.WellFormed) (hp : u.Plain) : ofText u.text = u := by
  by_cases hne : u.atoms = []
  · -- the empty text has one part, which is blank
    obtain rfl : u = empty := by
      ext1
      exact hne
    rfl
  · unfold ofText
    rw [parts_text hne hp, ofAtoms_atoms hw]

/-- **When a text reads back**: the text of a union of atoms is read as that union exactly when
    its atoms are plain. -/
theorem ofText_text_iff {u : UnionType} (h : u.WellFormed) : ofText u.text = u ↔ u.Plain := by
  constructor
  · intro heq
    rw [← heq]
    exact plain_ofText u.text
  · exact ofText_text h

/-- A union of plain atoms: one that its text determines. -/
structure Readable (u : UnionType) : Prop where
  wellFormed : u.WellFormed
  plain : u.Plain

theorem readable_empty : empty.Readable := ⟨wellFormed_empty, plain_empty⟩

/-- What is read from a text can be read from its own text. -/
theorem readable_ofText (text : String) : (ofText text).Readable :=
  ⟨wellFormed_ofText text, plain_ofText text⟩

theorem Readable.union {u v : UnionType} (hu : u.Readable) (hv : v.Readable) :
    (u.union v).Readable :=
  ⟨hu.wellFormed.union hv.wellFormed, plain_union_iff.mpr ⟨hu.plain, hv.plain⟩⟩

theorem Readable.nullable {u : UnionType} (h : u.Readable) : u.nullable.Readable :=
  ⟨wellFormed_nullable u, (plain_nullable_iff h.wellFormed).mpr h.plain⟩

theorem Readable.ofText_text {u : UnionType} (h : u.Readable) : UnionType.ofText u.text = u :=
  UnionType.ofText_text h.wellFormed h.plain

/-! ## §4. All ways to make a union. -/

/-- How a union is made: from nothing, from a text, from a list of atoms or from a document; and
    from other unions. -/
inductive Construction where
  | empty
  | mixed
  /-- A type name or a type text. -/
  | ofText (text : String)
  | ofAtoms (written : List String)
  | ofJson (document : String)
  | withText (c : Construction) (text : String)
  | union (c d : Construction)
  | nullable (c : Construction)

namespace Construction

/-- The union that is made; none if a document on the way does not hold a union. -/
def build? : Construction → Option UnionType
  | empty => some .empty
  | mixed => some .mixed
  | ofText text => some (.ofText text)
  | ofAtoms written => some (.ofAtoms written)
  | ofJson document => UnionType.parse? document
  | withText c text => do return (← c.build?).withText text
  | union c d => do return (← c.build?).union (← d.build?)
  | nullable c => do return (← c.build?).nullable

/-- No list of atoms that is used has a `|` inside of an atom. -/
def ListsPlain : Construction → Prop
  | empty | mixed | ofText _ | ofJson _ => True
  | ofAtoms written => ∀ w ∈ written, IsPlain w
  | withText c _ => c.ListsPlain
  | union c d => c.ListsPlain ∧ d.ListsPlain
  | nullable c => c.ListsPlain

end Construction

/-- What is read from a document is read from a text. -/
theorem eq_ofText_of_parse? {document : String} {u : UnionType} (h : parse? document = some u) :
    ∃ text, u = ofText text := by
  unfold parse? at h
  obtain ⟨v, -, hv⟩ := Option.bind_eq_some_iff.mp h
  cases v with
  | str text => exact ⟨text, (Option.some.inj hv).symm⟩
  | _ => cases hv

namespace Construction

/-- Whatever a union is made of, its atoms have no blanks around them. -/
theorem wellFormed_of_build? (c : Construction) {u : UnionType} (h : c.build? = some u) :
    u.WellFormed := by
  -- by construction step; only joins need the steps before to be in order
  induction c generalizing u with
  | empty =>
    obtain rfl := Option.some.inj h
    exact wellFormed_empty
  | mixed =>
    obtain rfl := Option.some.inj h
    exact wellFormed_ofText "mixed"
  | ofText text =>
    obtain rfl := Option.some.inj h
    exact wellFormed_ofText text
  | ofAtoms written =>
    obtain rfl := Option.some.inj h
    exact wellFormed_ofAtoms written
  | ofJson document =>
    obtain ⟨text, rfl⟩ := eq_ofText_of_parse? h
    exact wellFormed_ofText text
  | withText c text ih =>
    obtain ⟨v, hv, hu⟩ := Option.bind_eq_some_iff.mp h
    obtain rfl := Option.some.inj hu
    exact (ih hv).union (wellFormed_ofText text)
  | union c d ihc ihd =>
    obtain ⟨v, hv, hrest⟩ := Option.bind_eq_some_iff.mp h
    obtain ⟨w, hw, hu⟩ := Option.bind_eq_some_iff.mp hrest
    obtain rfl := Option.some.inj hu
    exact (ihc hv).union (ihd hw)
  | nullable c _ =>
    obtain ⟨v, -, hu⟩ := Option.bind_eq_some_iff.mp h
    obtain rfl := Option.some.inj hu
    exact wellFormed_nullable v

/-- Only a list of atoms brings a `|` in, and it stays. -/
theorem plain_iff_listsPlain (c : Construction) {u : UnionType} (h : c.build? = some u) :
    u.Plain ↔ c.ListsPlain := by
  -- bars come in through lists of atoms alone: a text is split at them, and the joins add none
  induction c generalizing u with
  | empty =>
    obtain rfl := Option.some.inj h
    exact iff_of_true plain_empty trivial
  | mixed =>
    obtain rfl := Option.some.inj h
    exact iff_of_true (plain_ofText "mixed") trivial
  | ofText text =>
    obtain rfl := Option.some.inj h
    exact iff_of_true (plain_ofText text) trivial
  | ofAtoms written =>
    obtain rfl := Option.some.inj h
    exact plain_ofAtoms_iff
  | ofJson document =>
    obtain ⟨text, rfl⟩ := eq_ofText_of_parse? h
    exact iff_of_true (plain_ofText text) trivial
  | withText c text ih =>
    obtain ⟨v, hv, hu⟩ := Option.bind_eq_some_iff.mp h
    obtain rfl := Option.some.inj hu
    show (v.union (UnionType.ofText text)).Plain ↔ c.ListsPlain
    rw [plain_union_iff, ih hv]
    exact and_iff_left (plain_ofText text)
  | union c d ihc ihd =>
    obtain ⟨v, hv, hrest⟩ := Option.bind_eq_some_iff.mp h
    obtain ⟨w, hw, hu⟩ := Option.bind_eq_some_iff.mp hrest
    obtain rfl := Option.some.inj hu
    rw [plain_union_iff, ihc hv, ihd hw]
    exact Iff.rfl
  | nullable c ih =>
    obtain ⟨v, hv, hu⟩ := Option.bind_eq_some_iff.mp h
    obtain rfl := Option.some.inj hu
    rw [plain_nullable_iff (c.wellFormed_of_build? hv), ih hv]
    exact Iff.rfl

/-- **The round trip**: whichever way a union has been made, its text is read as the same atoms in
    the same order exactly when no list of atoms on the way had a `|` in it. -/
theorem ofText_text_iff_listsPlain (c : Construction) {u : UnionType} (h : c.build? = some u) :
    UnionType.ofText u.text = u ↔ c.ListsPlain := by
  rw [ofText_text_iff (c.wellFormed_of_build? h)]
  exact c.plain_iff_listsPlain h

/-- A list of two atoms is joined with a text and made nullable. -/
theorem ofText_text_of_plain_lists :
    ∃ u, (nullable (union (ofAtoms ["A", " int "]) (ofText "B|?int"))).build? = some u ∧
      u.atoms = ["?A", "?int", "?B"] ∧ UnionType.ofText u.text = u := by
  refine ⟨_, rfl, by decide +kernel, ?_⟩
  rw [ofText_text_iff_listsPlain (nullable (union (ofAtoms ["A", " int "]) (ofText "B|?int"))) rfl]
  refine ⟨?_, trivial⟩
  show ∀ w ∈ ["A", " int "], '|' ∉ w.toList
  decide

/-- A list with a `|` in an atom makes a union of one atom, whose text is read as two. -/
theorem not_forall_ofText_text :
    ¬ ∀ (c : Construction) (u : UnionType), c.build? = some u → UnionType.ofText u.text = u := by
  intro h
  have hone := congrArg UnionType.size (h (ofAtoms ["a|b"]) _ rfl)
  revert hone
  decide +kernel

end Construction

end UnionType

end PhpNames
