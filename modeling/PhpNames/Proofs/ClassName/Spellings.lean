/-
  PhpNames.Proofs.ClassName.Spellings — a table of classes that is declared name by name.

  Names are names of one class if they are equal up to letter case once the blanks around them are
  gone and one separator stands in front (`SameClass`).  A table that has been declared name by name
  remembers one spelling for each class:

      spelling of a name    =   that of the last declared name of the same class
      known classes         =   the classes of the declared names, each counted once

  A declaration changes the spelling of its own class alone, and adds a class if it is a new one
  (`spelling?_insert`, `size_insert`).  Both laws follow by induction from the last declaration.
-/
import Mathlib.Data.Finset.Card
import Mathlib.Data.Finset.Lattice.Lemmas
import Mathlib.Data.List.Induction
import PhpNames.Proofs.ClassName.LetterCase

namespace PhpNames.KnownClasses

/-! ## §1. Names of one class. -/

/-- The two are names of one class: rooted, they differ in letter case at most. -/
def SameClass (a b : String) : Prop := LettersEq (rooted a) (rooted b)

instance (a b : String) : Decidable (SameClass a b) :=
  inferInstanceAs (Decidable (Text.lower (rooted a) = Text.lower (rooted b)))

/-- Being names of one class is an equivalence. -/
def classes : Setoid String where
  r := SameClass
  iseqv := ⟨fun _ => rfl, fun h => h.symm, fun h h' => h.trans h'⟩

instance : DecidableEq (Quotient classes) :=
  @Quotient.decidableEq String classes fun a b => inferInstanceAs (Decidable (SameClass a b))

/-- The classes that some names are names of. -/
def classesOf (names : List String) : Finset (Quotient classes) :=
  (names.map (Quotient.mk classes)).toFinset

/-- A class is among those of some names if one of these is of it. -/
theorem mem_classesOf_iff {names : List String} {name : String} :
    Quotient.mk classes name ∈ classesOf names ↔ ∃ x ∈ names, SameClass x name := by
  unfold classesOf
  rw [List.mem_toFinset, List.mem_map]
  constructor
  · rintro ⟨x, hx, heq⟩
    exact ⟨x, hx, Quotient.exact heq⟩
  · rintro ⟨x, hx, hsame⟩
    exact ⟨x, hx, Quotient.sound hsame⟩

/-- One more name adds its class, if that is not there. -/
theorem classesOf_concat (names : List String) (name : String) :
    classesOf (names ++ [name]) = Insert.insert (Quotient.mk classes name) (classesOf names) := by
  unfold classesOf
  rw [List.map_append, List.toFinset_append, Finset.union_comm]
  rfl

/-! ## §2. One more declaration. -/

theorem ofList_concat (names : List String) (name : String) :
    ofList (names ++ [name]) = (ofList names).insert name := List.foldl_append

/-- A declaration makes the table larger by one, unless the class was known. -/
theorem size_insert (known : KnownClasses) (name : String) :
    (known.insert name).size = if known.contains name then known.size else known.size + 1 := by
  have hcontains : known.spellings.contains (key name) = known.contains name :=
    Std.ExtTreeMap.isSome_getElem?_eq_contains.symm
  unfold KnownClasses.size KnownClasses.insert
  rw [Std.ExtTreeMap.size_insert, hcontains]

/-! ## §3. All declarations. -/

/-- The last declared name of the class gives the spelling. -/
theorem spelling?_ofList (names : List String) (name : String) :
    (ofList names).spelling? name =
      ((names.filter fun x => SameClass x name).getLast?).map rooted := by
  induction names using List.reverseRecOn with
  | nil => exact spelling?_empty name
  | append_singleton names declared ih =>
    rw [ofList_concat, spelling?_insert, List.filter_append, List.getLast?_append, ih]
    -- the last declaration is of the class that is asked for, or it can be left out
    by_cases hsame : SameClass declared name
    · have hkey : key declared = key name := hsame
      have hlast : [declared].filter (fun x => SameClass x name) = [declared] := by simp [hsame]
      rw [if_pos hkey, hlast]
      rfl
    · have hkey : key declared ≠ key name := hsame
      have hlast : [declared].filter (fun x => SameClass x name) = [] := by simp [hsame]
      rw [if_neg hkey, hlast]
      rfl

/-- A class is known once a name of it has been declared. -/
theorem contains_ofList_iff {names : List String} {name : String} :
    (ofList names).contains name = true ↔ ∃ x ∈ names, SameClass x name := by
  unfold contains
  rw [spelling?_ofList, Option.isSome_map, List.getLast?_isSome]
  simp

/-- As many classes are known as the declared names are names of. -/
theorem size_ofList (names : List String) : (ofList names).size = (classesOf names).card := by
  induction names using List.reverseRecOn with
  | nil => exact Std.ExtTreeMap.size_empty
  | append_singleton names name ih =>
    -- the class is new to the table exactly when it is new among the classes
    have hnew : (ofList names).contains name = true ↔
        Quotient.mk classes name ∈ classesOf names := by
      rw [contains_ofList_iff, mem_classesOf_iff]
    rw [ofList_concat, size_insert, classesOf_concat, Finset.card_insert_eq_ite, ih]
    exact if_congr hnew rfl rfl

/-- **The last declaration of a class decides**: declared name by name, a table gives the rooted
    form of the last declared name of the class that is asked for, and nothing if no name of it has
    been declared; it counts every class once; and a spelling that it gives is given again for the
    spelling itself, in whatever letter case.  The rooted form is a separator and the name without
    the blanks around it and without the separators that it then starts with. -/
theorem last_declaration_decides (names : List String) :
    (∀ x, (rooted x).toList =
      separator :: (Text.trim x).toList.dropWhile (· == separator)) ∧
    (∀ name, (ofList names).spelling? name =
      ((names.filter fun x => SameClass x name).getLast?).map rooted) ∧
    (∀ name, (ofList names).contains name = true ↔ ∃ x ∈ names, SameClass x name) ∧
    (ofList names).size = (classesOf names).card ∧
    ∀ name spelling, (ofList names).spelling? name = some spelling →
      ∀ other, LettersEq other spelling → (ofList names).spelling? other = some spelling := by
  refine ⟨toList_rooted, spelling?_ofList names, fun name => contains_ofList_iff,
    size_ofList names, ?_⟩
  intro name spelling hfound other hother
  rw [spelling?_congr (ofList names) hother]
  exact (wellKeyed_ofList names).spelling?_spelling hfound

/-- Four declarations are of two classes, one of them the name of nothing but separators. -/
theorem last_declaration_decides_respelled :
    ∃ (names : List String) (name spelling other : String),
      (ofList names).spelling? name = some spelling ∧ LettersEq other spelling ∧
      spelling = "\\app\\Model" ∧ other = "\\APP\\MODEL" ∧
      (ofList names).spelling? other = some spelling ∧
      (ofList names).size = 2 ∧ (ofList names).contains "\t" = true ∧
      (ofList names).contains "Model" = false ∧
      (rooted "\u3000\\\\app\\Model\n").toList = "\\app\\Model".toList := by
  let names : List String := ["App\\Model", " \\\\ ", "\u3000\\\\app\\Model\n", "\\"]
  obtain ⟨hrooted, hspelling, hcontains, hsize, hsettled⟩ := last_declaration_decides names
  have hfound : (ofList names).spelling? "App\\model" = some "\\app\\Model" := by
    rw [hspelling]
    decide +kernel
  have hother : LettersEq "\\APP\\MODEL" "\\app\\Model" := by
    show Text.lower _ = Text.lower _
    decide +kernel
  refine ⟨names, "App\\model", _, _, hfound, hother, rfl, rfl,
    hsettled _ _ hfound _ hother, ?_, ?_, ?_, ?_⟩
  · rw [hsize]
    decide +kernel
  · rw [hcontains]
    decide +kernel
  · rw [← Bool.not_eq_true, hcontains]
    decide +kernel
  · rw [hrooted]
    decide +kernel

end PhpNames.KnownClasses
