/-
  PhpNames.Proofs.ClassName.LetterCase — letter case of classes, and of the place where they are
  named.

  A known class is found by the small letters of its name, and what is found is a spelling that
  finds itself (`KnownClasses.WellKeyed`, kept by every declaration).

  So the letters of the namespace, of the full names behind the imports and of the enclosing class
  need not be written in any particular case.  Two contexts that differ in them alone give names
  that differ in letter case alone: rule by rule in a qualification
  (`Context.SameLetters.lettersEq_qualify`), and for the enclosing class.  The looked-up class is
  then one and the same (`className_settled_and_caseless`).  The names written in the program and
  the keys of the imports are compared exactly, and stay so.
-/
import Mathlib.Data.Option.Basic
import PhpNames.Proofs.ClassName.Names
import PhpNames.Proofs.Context.Qualification
import PhpNames.Proofs.Text.Lowered

namespace PhpNames

/-! ## §1. Names in small letters. -/

/-- Equality of names up to the case of their letters. -/
def LettersEq (a b : String) : Prop := Text.lower a = Text.lower b

/-- Letter case may be changed in each part of a name by itself. -/
theorem LettersEq.append {a a' b b' : String} (ha : LettersEq a a') (hb : LettersEq b b') :
    LettersEq (a ++ b) (a' ++ b') := by
  unfold LettersEq
  rw [Text.lower_append, Text.lower_append, ha, hb]

/-- A name that differs in letter case from the empty one is empty. -/
theorem LettersEq.eq_empty_iff {a b : String} (h : LettersEq a b) : a = "" ↔ b = "" := by
  rw [← Text.lower_eq_empty_iff, h, Text.lower_eq_empty_iff]

/-- Only a separator is one in small letters. -/
theorem getLast?_lower (s : String) :
    (Text.lower s).toList.getLast? = some separator ↔ s.toList.getLast? = some separator := by
  rw [Text.toList_lower, List.getLast?_map]
  cases s.toList.getLast? with
  | none => simp
  | some c => simp [Text.toLower_eq_separator_iff]

namespace KnownClasses

/-- **What a rooted name is**: a separator, and the name without the blanks around it and then
    without the separators it starts with. -/
theorem toList_rooted (name : String) :
    (rooted name).toList =
      separator :: (Text.trim name).toList.dropWhile (· == separator) := by
  simp [rooted]

/-- A rooted name has no blanks around it: it starts with a separator, and it ends like a trimmed
    name unless it is no more than that. -/
theorem trim_rooted (name : String) : Text.trim (rooted name) = rooted name := by
  rw [Text.trim_eq_self_iff, toList_rooted]
  constructor
  · intro c hc
    obtain rfl : separator = c := Option.some.inj hc
    rfl
  · intro c hc
    obtain ⟨front, hfront⟩ := List.dropWhile_suffix (l := (Text.trim name).toList) (· == separator)
    cases hrest : (Text.trim name).toList.dropWhile (· == separator) with
    | nil =>
      rw [hrest] at hc
      obtain rfl : separator = c := Option.some.inj hc
      rfl
    | cons d rest =>
      -- the last character is the one of the trimmed name
      have hlast : (Text.trim name).toList.getLast? = some c := by
        rw [← hfront, hrest, List.getLast?_append_of_ne_nil _ (List.cons_ne_nil d rest)]
        rw [hrest] at hc
        exact hc
      exact (Text.trim_eq_self_iff.mp (Text.trim_trim name)).2 c hlast

/-- Rooting a name twice is rooting it once. -/
theorem rooted_rooted (name : String) : rooted (rooted name) = rooted name := by
  rw [← String.toList_inj, toList_rooted, trim_rooted, toList_rooted]
  -- one more separator is dropped and put back, and there is no further one
  rw [List.dropWhile_cons, if_pos (beq_self_eq_true separator), List.dropWhile_idempotent]

/-- The key of a name is the rooted name in small letters, in whichever order the two are done. -/
theorem key_eq_rooted_lower (name : String) : key name = rooted (Text.lower name) := by
  unfold key
  rw [← String.toList_inj, Text.toList_lower, toList_rooted, toList_rooted, List.map_cons,
    ← Text.lower_trim, Text.toList_lower, List.dropWhile_map]
  have hsep : (fun c => c == separator) ∘ Char.toLower = fun c => c == separator := by
    funext c
    rw [Function.comp_apply, Bool.eq_iff_iff, beq_iff_eq, beq_iff_eq]
    exact Text.toLower_eq_separator_iff
  rw [hsep]
  rfl

/-- A name and its rooted form have one key. -/
theorem key_rooted (name : String) : key (rooted name) = key name := by
  unfold key
  rw [rooted_rooted]

/-- Names that differ in letter case alone are names of one class. -/
theorem spelling?_congr (known : KnownClasses) {a b : String} (h : LettersEq a b) :
    known.spelling? a = known.spelling? b := by
  unfold spelling?
  rw [key_eq_rooted_lower, key_eq_rooted_lower, h]

/-! ## §2. Spellings. -/

/-- Every class is found under the key of its spelling. -/
def WellKeyed (known : KnownClasses) : Prop :=
  ∀ name spelling, known.spelling? name = some spelling → key spelling = key name

theorem wellKeyed_empty : empty.WellKeyed := by
  intro name spelling hfound
  rw [spelling?_empty] at hfound
  cases hfound

/-- A declaration enters its spelling under the key of that spelling. -/
theorem WellKeyed.insert {known : KnownClasses} (h : known.WellKeyed) (declared : String) :
    (known.insert declared).WellKeyed := by
  intro name spelling hfound
  rw [spelling?_insert] at hfound
  split at hfound
  · next hkey =>
    obtain rfl := Option.some.inj hfound
    rw [key_rooted, hkey]
  · exact h name spelling hfound

/-- Any number of declarations keep the spellings under their own keys. -/
theorem wellKeyed_foldl (names : List String) {known : KnownClasses} (h : known.WellKeyed) :
    (names.foldl KnownClasses.insert known).WellKeyed := by
  induction names generalizing known with
  | nil => exact h
  | cons name names ih => exact ih (h.insert name)

theorem wellKeyed_ofList (names : List String) : (ofList names).WellKeyed :=
  wellKeyed_foldl names wellKeyed_empty

/-- The declared spelling of a class is found under itself. -/
theorem WellKeyed.spelling?_spelling {known : KnownClasses} (h : known.WellKeyed)
    {name spelling : String} (hfound : known.spelling? name = some spelling) :
    known.spelling? spelling = some spelling := by
  have hkey : key spelling = key name := h name spelling hfound
  rw [← hfound]
  unfold spelling?
  rw [hkey]

/-- A class is the empty text or a declared spelling. -/
theorem WellKeyed.className {known : KnownClasses} (h : known.WellKeyed) (c : Context) (n : Node) :
    (known.rule.className c n).value = "" ∨
      known.spelling? (known.rule.className c n).value =
        some (known.rule.className c n).value := by
  rw [ClassRule.value_className]
  cases (known.rule.candidate c n).value with
  | none => exact Or.inl rfl
  | some name =>
    dsimp only
    split
    · exact Or.inl rfl
    · -- an accepted name is one that was found in the table
      show (known.spelling? name).getD "" = "" ∨
        known.spelling? ((known.spelling? name).getD "") = some ((known.spelling? name).getD "")
      cases hfound : known.spelling? name with
      | none => exact Or.inl rfl
      | some spelling => exact Or.inr (h.spelling?_spelling hfound)

end KnownClasses

/-! ## §3. Contexts that differ in letter case. -/

/-- Two places have the same names but for letter case: the same keys of imported classes, and
    namespaces, full names behind the keys and enclosing classes that differ in letter case at
    most. -/
structure Context.SameLetters (c d : Context) : Prop where
  space : LettersEq c.space.path d.space.path
  imports : ∀ short, Option.Rel LettersEq (c.alias? .cls short) (d.alias? .cls short)
  enclosing : Option.Rel LettersEq c.enclosingClass d.enclosingClass

/-- In namespaces whose paths differ in letter case at most, the full forms of a name do so too. -/
theorem Namespace.lettersEq_qualify {ns ns' : Namespace} (h : LettersEq ns.path ns'.path)
    (name : String) : LettersEq (ns.qualify name) (ns'.qualify name) := by
  have hlast : ns.path.toList.getLast? = some separator ↔
      ns'.path.toList.getLast? = some separator := by
    rw [← getLast?_lower, h, getLast?_lower]
  unfold Namespace.qualify
  by_cases hsep : ns.path.toList.getLast? = some separator
  · rw [if_pos hsep, if_pos (hlast.mp hsep)]
    exact h.append rfl
  · rw [if_neg hsep, if_neg (mt hlast.mpr hsep)]
    exact (h.append rfl).append rfl

namespace Context

variable {c d : Context}

/-- Imports whose targets differ in letter case keep two contexts alike. -/
theorem SameLetters.withAlias (h : c.SameLetters d) (k : AliasKind) (short : String)
    {target target' : String} (htarget : LettersEq target target') :
    (c.withAlias k short target).SameLetters (d.withAlias k short target') where
  space := h.space
  imports other := by
    rw [alias?_withAlias, alias?_withAlias]
    split
    · exact .some htarget
    · exact h.imports other
  enclosing := h.enclosing

/-- What is imported in one of two alike contexts is imported in the other, up to letter case. -/
theorem SameLetters.exists_alias? (h : c.SameLetters d) {short target : String}
    (hfound : c.alias? .cls short = some target) :
    ∃ target', d.alias? .cls short = some target' ∧ LettersEq target target' := by
  have himport := h.imports short
  rw [hfound] at himport
  generalize d.alias? .cls short = found at himport
  cases himport with
  | some htarget => exact ⟨_, rfl, htarget⟩

/-- What is not imported in one of two alike contexts is not imported in the other. -/
theorem SameLetters.alias?_eq_none (h : c.SameLetters d) {short : String}
    (hnone : c.alias? .cls short = none) : d.alias? .cls short = none := by
  have himport := h.imports short
  rw [hnone] at himport
  generalize d.alias? .cls short = found at himport
  cases himport with
  | none => rfl

/-- A name that is written once gets full names that differ in letter case at most, by the same
    rule in both places: the keys decide the rule. -/
theorem SameLetters.lettersEq_qualify (h : c.SameLetters d) (name : String) :
    LettersEq (c.qualify .cls name) (d.qualify .cls name) := by
  obtain ⟨q, hq⟩ := c.exists_firstRule .cls name
  unfold qualify
  rw [hq.qualification_eq]
  -- the rule for `c` applies in `d` too, with a target that differs in letter case at most
  cases hq with
  | native hnative =>
    rw [qualification_native d hnative]
    rfl
  | exact hnative hwhole =>
    obtain ⟨target', hwhole', htarget⟩ := h.exists_alias? hwhole
    rw [(FirstRule.exact hnative hwhole').qualification_eq]
    exact htarget
  | segment hnative hwhole hsplit hhead =>
    obtain ⟨target', hhead', htarget⟩ := h.exists_alias? hhead
    rw [(FirstRule.segment hnative (h.alias?_eq_none hwhole) hsplit hhead').qualification_eq]
    exact (htarget.append rfl).append rfl
  | current hnative hwhole hhead =>
    have hcurrent : d.FirstRule .cls name (.current d.space name) := by
      refine .current hnative (h.alias?_eq_none hwhole) ?_
      intro head rest hsplit
      exact h.alias?_eq_none (hhead head rest hsplit)
    rw [hcurrent.qualification_eq]
    exact Namespace.lettersEq_qualify h.space name

/-- The class names of a name node differ in letter case at most. -/
theorem SameLetters.classOfName (h : c.SameLetters d) (n : Node) :
    Option.Rel LettersEq (c.classOfName n).value (d.classOfName n).value := by
  unfold Context.classOfName
  split
  · exact .none
  · cases n.childText? 0 with
    | none => exact .none
    | some name =>
      dsimp only
      split
      · -- a name that is not relative is the same text in both places
        exact .some rfl
      · split
        · -- `self` and `static` are the class around; `parent` names nothing here
          exact h.enclosing
        · split
          · exact .none
          · rw [Logged.value_bind, Logged.value_bind, value_qualifyLogged, value_qualifyLogged]
            exact .some (h.lettersEq_qualify name)

/-- Alike contexts take alike names of classes from a node, or none both. -/
theorem SameLetters.classCandidate (h : c.SameLetters d) (n : Node) :
    Option.Rel LettersEq (c.classCandidate n).value (d.classCandidate n).value := by
  unfold Context.classCandidate
  cases n.classNode? with
  | none => exact .none
  | some m => exact h.classOfName m

/-- Alike contexts accept the same class name at a node, in the spelling that was declared. -/
theorem SameLetters.className (h : c.SameLetters d) (known : KnownClasses) (n : Node) :
    (known.rule.className c n).value = (known.rule.className d n).value := by
  rw [ClassRule.value_className, ClassRule.value_className]
  have hcandidate : Option.Rel LettersEq (known.rule.candidate c n).value
      (known.rule.candidate d n).value := h.classCandidate n
  generalize (known.rule.candidate c n).value = a at hcandidate
  generalize (known.rule.candidate d n).value = b at hcandidate
  cases hcandidate with
  | none => rfl
  | some hname =>
    -- no name is empty in one place only, and both are looked up under the same key
    dsimp only
    simp only [hname.eq_empty_iff]
    show (if _ then "" else (known.spelling? _).getD "") = _
    rw [known.spelling?_congr hname]
    rfl

end Context

/-- **Classes are declared, and letter case does not matter**: the class of a node is the empty
    text or a declared spelling, which is found under itself; and places whose namespaces, imported
    classes and enclosing classes differ in letter case at most give every node the same class. -/
theorem KnownClasses.className_settled_and_caseless (names : List String) :
    (∀ (c : Context) (n : Node),
      ((ofList names).rule.className c n).value = "" ∨
        (ofList names).spelling? ((ofList names).rule.className c n).value =
          some ((ofList names).rule.className c n).value) ∧
    ∀ c d : Context, c.SameLetters d → ∀ n : Node,
      ((ofList names).rule.className c n).value = ((ofList names).rule.className d n).value :=
  ⟨(wellKeyed_ofList names).className, fun _ _ h => h.className (ofList names)⟩

/-- The namespace, the class around and the target of an import are in other letter case in one of
    two contexts. -/
theorem KnownClasses.className_settled_and_caseless_imported :
    ∃ (names : List String) (c d : Context) (n self : Node),
      c ≠ d ∧ c.SameLetters d ∧
      ((ofList names).rule.className c n).value = "\\Vendor\\Client" ∧
      ((ofList names).rule.className c n).value = ((ofList names).rule.className d n).value ∧
      ((ofList names).rule.className c self).value = "\\App\\Model" ∧
      ((ofList names).rule.className c self).value =
        ((ofList names).rule.className d self).value := by
  let names : List String := ["Vendor\\Client", "\\App\\Model"]
  let place (space target enclosing : String) : Context :=
    (((Context.ofFile "a.php").withNamespace space).withClass enclosing).withAlias .cls "C" target
  let c : Context := place "App" "\\Vendor\\Client" "App\\Model"
  let d : Context := place "APP" "\\VENDOR\\client" "app\\MODEL"
  have hplaces : c.SameLetters d := by
    apply Context.SameLetters.withAlias _ .cls "C"
    · show Text.lower _ = Text.lower _
      decide +kernel
    · constructor
      · show Text.lower _ = Text.lower _
        decide +kernel
      · intro short
        exact .none
      · apply Option.Rel.some
        show Text.lower _ = Text.lower _
        decide +kernel
  have hne : c ≠ d := by
    intro heq
    have hspace := congrArg (fun e : Context => e.space) heq
    revert hspace
    decide +kernel
  obtain ⟨-, hcaseless⟩ := className_settled_and_caseless names
  exact ⟨names, c, d, .ofName "C" relativeFlag 1,
    ⟨.new, 0, 2, [some (.node (.ofName "SELF" relativeFlag 2))]⟩, hne, hplaces,
    by decide +kernel, hcaseless c d hplaces _, by decide +kernel, hcaseless c d hplaces _⟩

end PhpNames
