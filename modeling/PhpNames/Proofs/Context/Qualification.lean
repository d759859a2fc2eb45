/-
  PhpNames.Proofs.Context.Qualification — what qualification reads, and what it gives.

  A relative name gets its meaning by the first of four rules that applies (`FirstRule`).  Two
  entries of one import table and the namespace are enough to tell which: the entries of the whole
  name and of its first segment (`qualification_congr`).

  Where the imports stand for full names and the namespace is written as one may write it, the
  result is a full name again, unless a class name spells a native type and stays as it is
  (`fullName_qualify`).  The rules join names in three places, and in each of them exactly one
  separator comes between a segment and a segment:

      target \ rest          of an import and what follows the first segment,
      \ name                 in the root namespace,
      \space \ name          in any other one.
-/
import PhpNames.Context.Basic
import PhpNames.Proofs.Context.Segments
import PhpNames.Proofs.Text.Trimmed

namespace PhpNames

/-! ## §1. What qualification reads. -/

namespace Context

theorem alias?_ofFile (file : String) (k : AliasKind) (short : String) :
    (ofFile file).alias? k short = none := by
  cases k <;> exact Std.ExtTreeMap.getElem?_empty

/-- An import sets its own entry and leaves the others. -/
theorem alias?_withAlias (c : Context) (k l : AliasKind) (short other target : String) :
    (c.withAlias k short target).alias? l other =
      if k = l ∧ short = other then some target else c.alias? l other :=
  c.aliases.get?_insert k l short other target

/-- What a name means by the first rule that applies to it: a rule has its own condition, and the
    conditions of those before it fail. -/
inductive FirstRule (c : Context) (k : AliasKind) (name : String) : Qualification → Prop where
  | native (hnative : k = .cls ∧ isNativeTypeName name) : FirstRule c k name (.native name)
  | exact {target : String} (hnative : ¬(k = .cls ∧ isNativeTypeName name))
      (hwhole : c.alias? k name = some target) : FirstRule c k name (.exact name target)
  | segment {head rest target : String} (hnative : ¬(k = .cls ∧ isNativeTypeName name))
      (hwhole : c.alias? k name = none) (hsplit : splitSegment? name = some (head, rest))
      (hhead : c.alias? k head = some target) :
      FirstRule c k name (.segment name head target rest)
  | current (hnative : ¬(k = .cls ∧ isNativeTypeName name)) (hwhole : c.alias? k name = none)
      (hhead : ∀ head rest, splitSegment? name = some (head, rest) → c.alias? k head = none) :
      FirstRule c k name (.current c.space name)

/-- Some rule always applies, since the last one needs nothing. -/
theorem exists_firstRule (c : Context) (k : AliasKind) (name : String) :
    ∃ q, c.FirstRule k name q := by
  -- in the order of the rules, each time with the ones before it excluded
  by_cases hnative : k = .cls ∧ isNativeTypeName name
  · exact ⟨_, .native hnative⟩
  · cases hwhole : c.alias? k name with
    | some target => exact ⟨_, .exact hnative hwhole⟩
    | none =>
      by_cases hhead : ∃ head rest target,
          splitSegment? name = some (head, rest) ∧ c.alias? k head = some target
      · obtain ⟨head, rest, target, hsplit, htarget⟩ := hhead
        exact ⟨_, .segment hnative hwhole hsplit htarget⟩
      · refine ⟨_, .current hnative hwhole ?_⟩
        intro head rest hsplit
        -- a target would make the rule before this one apply
        rw [Option.eq_none_iff_forall_ne_some]
        intro target htarget
        exact hhead ⟨head, rest, target, hsplit, htarget⟩

/-- The first rule that applies gives the meaning. -/
theorem FirstRule.qualification_eq {c : Context} {k : AliasKind} {name : String}
    {q : Qualification} (h : c.FirstRule k name q) : c.qualification k name = q := by
  unfold qualification
  cases h with
  | native hnative => rw [if_pos hnative]
  | exact hnative hwhole => rw [if_neg hnative, hwhole]
  | segment hnative hwhole hsplit hhead =>
    rw [if_neg hnative, hwhole, hsplit]
    dsimp only
    rw [hhead]
  | current hnative hwhole hhead =>
    rw [if_neg hnative, hwhole]
    -- there is a first segment that is not imported, or there is none
    cases hsplit : splitSegment? name with
    | none => rfl
    | some parts =>
      obtain ⟨head, rest⟩ := parts
      dsimp only
      rw [hhead head rest hsplit]

/-- A native type stays as it is, whatever is imported under its name. -/
theorem qualification_native (c : Context) {k : AliasKind} {name : String}
    (h : k = .cls ∧ isNativeTypeName name) : c.qualification k name = .native name :=
  (FirstRule.native h).qualification_eq

/-- Contexts give a name the same meaning if they have the same namespace and the same imports of
    the name and of its first segment; a class name that spells a native type reads nothing. -/
theorem qualification_congr {c d : Context} {k : AliasKind} {name : String}
    (hspace : c.space = d.space)
    (hreads : ¬(k = .cls ∧ isNativeTypeName name) →
      c.alias? k name = d.alias? k name ∧
        ∀ head rest, splitSegment? name = some (head, rest) → c.alias? k head = d.alias? k head) :
    c.qualification k name = d.qualification k name := by
  by_cases hnative : k = .cls ∧ isNativeTypeName name
  · rw [qualification_native c hnative, qualification_native d hnative]
  · obtain ⟨hwhole, hhead⟩ := hreads hnative
    unfold qualification
    rw [if_neg hnative, if_neg hnative, hwhole, hspace]
    cases hsplit : splitSegment? name with
    | none => rfl
    | some parts =>
      obtain ⟨head, rest⟩ := parts
      dsimp only
      rw [hhead head rest hsplit]

end Context

/-! ## §2. Written namespaces. -/

/-- A namespace as it may be written: nothing or a separator for the root; else a full name, or a
    relative one, after which a separator may stand. -/
inductive WrittenNamespace : String → Prop where
  | empty : WrittenNamespace ""
  | root : WrittenNamespace "\\"
  | relative {r : String} (hr : RelativeName r) : WrittenNamespace r
  | trailing {r : String} (hr : RelativeName r) : WrittenNamespace (r ++ "\\")
  | full {f : String} (hf : FullName f) : WrittenNamespace f

namespace Namespace

/-- The namespace is the root, or its path is a full name. -/
def WellFormed (ns : Namespace) : Prop := ns = root ∨ FullName ns.path

/-- Separators around a relative name are cut off, and there are no blanks around them. -/
theorem ofText_eq_of_relative {r written : String} (hr : RelativeName r) (before after : List Char)
    (hwritten : written.toList = before ++ (r.toList ++ after))
    (hbefore : ∀ c ∈ before, c = separator) (hafter : ∀ c ∈ after, c = separator) :
    ofText written = ⟨"\\" ++ r⟩ := by
  have hnotBlank : ∀ c, c = separator ∨ isSegmentChar c = true → Text.isBlank c = false := by
    rintro c (rfl | hc)
    · rfl
    · exact not_isBlank_of_isSegmentChar hc
  -- at both ends of the text stands a separator or a character of a segment
  have htrim : Text.trim written = written := by
    rw [Text.trim_eq_self_iff, hwritten]
    constructor
    · intro c hc
      apply hnotBlank
      cases before with
      | nil =>
        rw [List.nil_append, List.head?_append_of_ne_nil _ hr.toList_ne_nil] at hc
        exact Or.inr (hr.ends.1 c hc)
      | cons b before =>
        obtain rfl : b = c := Option.some.inj hc
        exact Or.inl (hbefore b List.mem_cons_self)
    · intro c hc
      apply hnotBlank
      rw [List.getLast?_append_of_ne_nil _ (by simp [hr.toList_ne_nil])] at hc
      by_cases hnil : after = []
      · rw [hnil, List.append_nil] at hc
        exact Or.inr (hr.ends.2 c hc)
      · rw [List.getLast?_append_of_ne_nil _ hnil] at hc
        exact Or.inl (hafter c (List.mem_of_mem_getLast? hc))
  -- cutting stops at the ends of `r`
  have hends : Text.cut (· == separator) r.toList = r.toList := by
    rw [Text.cut_eq_self_iff]
    constructor
    · intro c hc
      exact beq_eq_false_iff_ne.mpr (ne_separator_of_isSegmentChar (hr.ends.1 c hc))
    · intro c hc
      exact beq_eq_false_iff_ne.mpr (ne_separator_of_isSegmentChar (hr.ends.2 c hc))
  have hcut : Text.cut (· == separator) written.toList = r.toList := by
    rw [hwritten]
    refine Text.cut_append_append ?_ ?_ hr.toList_ne_nil hends
    · intro c hc
      exact beq_iff_eq.mpr (hbefore c hc)
    · intro c hc
      exact beq_iff_eq.mpr (hafter c hc)
  unfold ofText
  rw [htrim, hcut]
  split
  · next hnil => exact absurd hnil hr.toList_ne_nil
  · rw [mk.injEq, ← String.toList_inj]
    simp [separator]

/-- A namespace that is written by the grammar is well formed. -/
theorem wellFormed_ofText {written : String} (h : WrittenNamespace written) :
    (ofText written).WellFormed := by
  cases h with
  | empty => exact Or.inl (by decide +kernel)
  | root => exact Or.inl (by decide +kernel)
  -- the other three ways of writing differ in the separators around a relative name
  | relative hr =>
    right
    rw [ofText_eq_of_relative hr [] [] (by simp) (by simp) (by simp)]
    exact .root hr
  | @trailing r hr =>
    right
    rw [ofText_eq_of_relative hr [] [separator] (by simp [separator])
      (by simp) (by simp)]
    exact .root hr
  | full hf =>
    cases hf with
    | @root r hr =>
      right
      rw [ofText_eq_of_relative hr [separator] [] (by simp [separator])
        (by simp) (by simp)]
      exact .root hr

/-- A relative name inside a namespace has a full name. -/
theorem WellFormed.fullName_qualify {ns : Namespace} (h : ns.WellFormed) {name : String}
    (hname : RelativeName name) : FullName (ns.qualify name) := by
  unfold Namespace.qualify
  rcases h with rfl | hpath
  · have hroot : root.path.toList.getLast? = some separator := by decide +kernel
    rw [if_pos hroot]
    exact .root hname
  · rw [if_neg hpath.separators.2.1]
    exact hpath.join hname

end Namespace

/-! ## §3. Full names are closed under qualification. -/

namespace Context

/-- Every import stands for a full name. -/
def ImportsFull (c : Context) : Prop :=
  ∀ k short target, c.alias? k short = some target → FullName target

theorem importsFull_ofFile (file : String) : (ofFile file).ImportsFull := by
  intro k short target h
  rw [alias?_ofFile] at h
  cases h

/-- Imports stay full names as long as only full names are imported. -/
theorem ImportsFull.withAlias {c : Context} (h : c.ImportsFull) (k : AliasKind) (short : String)
    {target : String} (htarget : FullName target) : (c.withAlias k short target).ImportsFull := by
  intro l other found hfound
  rw [alias?_withAlias] at hfound
  split at hfound
  · obtain rfl := Option.some.inj hfound
    exact htarget
  · exact h l other found hfound

/-- A relative name that is no native type gets a full name. -/
theorem fullName_qualify {c : Context} (hspace : c.space.WellFormed) (himports : c.ImportsFull)
    {k : AliasKind} {name : String} (hname : RelativeName name)
    (hnative : ¬(k = .cls ∧ isNativeTypeName name)) : FullName (c.qualify k name) := by
  obtain ⟨q, hq⟩ := c.exists_firstRule k name
  unfold qualify
  rw [hq.qualification_eq]
  cases hq with
  | native h => exact absurd h hnative
  | exact _ hwhole => exact himports k name _ hwhole
  | segment _ _ hsplit hhead => exact (himports k _ _ hhead).join (hname.rest hsplit)
  | current => exact hspace.fullName_qualify hname

/-- **Full names are closed under qualification**: a relative name gets a full name, in which no
    separator is missing, doubled or left over at the end; only a class name that spells a native
    type stays as it is.  The first character tells which of the two it is. -/
theorem qualify_full_or_native (c : Context) (written : String)
    (hspace : c.space = .ofText written) (hwritten : WrittenNamespace written)
    (himports : c.ImportsFull) (k : AliasKind) (name : String) (hname : RelativeName name) :
    (if k = .cls ∧ isNativeTypeName name then c.qualify k name = name
      else
        FullName (c.qualify k name) ∧
        (c.qualify k name).toList.getLast? ≠ some separator ∧
        ¬ [separator, separator] <:+: (c.qualify k name).toList) ∧
    ((c.qualify k name).toList.head? = some separator ↔ ¬(k = .cls ∧ isNativeTypeName name)) := by
  by_cases hnative : k = .cls ∧ isNativeTypeName name
  · have hsame : c.qualify k name = name := by
      unfold qualify
      rw [qualification_native c hnative]
      rfl
    rw [if_pos hnative, hsame]
    refine ⟨rfl, iff_of_false ?_ (not_not_intro hnative)⟩
    -- a native type starts as a relative name does, with a character of a segment
    intro hhead
    exact ne_separator_of_isSegmentChar (hname.ends.1 separator hhead) rfl
  · have hns : c.space.WellFormed := by
      rw [hspace]
      exact Namespace.wellFormed_ofText hwritten
    have hfull : FullName (c.qualify k name) := fullName_qualify hns himports hname hnative
    obtain ⟨hhead, hlast, hdoubled⟩ := hfull.separators
    rw [if_neg hnative]
    exact ⟨⟨hfull, hlast, hdoubled⟩, iff_of_true hhead hnative⟩

/-- The first segment of a name is imported, in a namespace that is written with a separator at its
    end. -/
theorem qualify_full_or_native_segment :
    ∃ (c : Context) (written name : String),
      c.space = .ofText written ∧ WrittenNamespace written ∧ c.ImportsFull ∧ RelativeName name ∧
      c.qualify .cls name = "\\Vendor\\Foo\\Bar" ∧ FullName (c.qualify .cls name) := by
  let c : Context :=
    ((Context.ofFile "a.php").withNamespace "App\\").withAlias .cls "Foo" "\\Vendor\\Foo"
  have hwritten : WrittenNamespace ("App" ++ "\\") := .trailing (.segment (by decide +kernel))
  have hname : RelativeName ("Foo" ++ "\\" ++ "Bar") :=
    .cons (by decide +kernel) (.segment (by decide +kernel))
  have htarget : FullName ("\\" ++ ("Vendor" ++ "\\" ++ "Foo")) :=
    .root (.cons (by decide +kernel) (.segment (by decide +kernel)))
  have himports : c.ImportsFull := (importsFull_ofFile "a.php").withAlias .cls "Foo" htarget
  have hnative : ¬(AliasKind.cls = .cls ∧ isNativeTypeName "Foo\\Bar") := by decide +kernel
  have hclosed := qualify_full_or_native c "App\\" rfl hwritten himports .cls "Foo\\Bar" hname
  rw [if_neg hnative] at hclosed
  exact ⟨c, "App\\", "Foo\\Bar", rfl, hwritten, himports, hname, by decide +kernel, hclosed.1.1⟩

end Context

end PhpNames
