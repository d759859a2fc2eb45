/-
  PhpNames.Proofs.Context.RootedPaths — the namespace of a context that is built step by step.

  A namespace may be written with any mixture of blanks and separators around it.  What is kept of
  it is rooted:

      \              the root,
      \ a … z        every other namespace, where neither `a` nor `z` is a separator.

  Every context has a rooted namespace, from the top of a file or from a description through any
  number of steps (`rooted_run`): a step keeps the namespace, or reads a new one from a text
  (`rooted_step`).  In a rooted namespace a name is joined to the path by exactly one separator
  (`Rooted.joinedOnce_qualify`), which is there already in the root and is put in everywhere else.
-/
import PhpNames.Proofs.Context.BuildRuns
import PhpNames.UnitDescription

namespace PhpNames

/-! ## §1. Written namespaces. -/

namespace Namespace

/-- What the two cuts leave of a written namespace. -/
def inside (written : String) : List Char :=
  Text.cut (· == separator) (Text.trim written).toList

/-- There is no separator left around the inside. -/
theorem cut_inside (written : String) :
    Text.cut (· == separator) (inside written) = inside written :=
  Text.cut_cut _ _

/-- The path is a separator and what is left; in the root this is nothing. -/
theorem toList_path_ofText (written : String) :
    (ofText written).path.toList = separator :: inside written := by
  unfold ofText inside
  split
  · next hnil =>
    rw [hnil]
    rfl
  · exact String.toList_ofList

/-- Two texts are of one namespace if they have the same inside. -/
theorem ofText_eq_iff {written other : String} :
    ofText written = ofText other ↔ inside written = inside other := by
  constructor
  · intro h
    have hpath : separator :: inside written = separator :: inside other := by
      rw [← toList_path_ofText, ← toList_path_ofText, h]
    exact (List.cons.inj hpath).2
  · intro h
    unfold ofText
    unfold inside at h
    rw [h]

/-- A text without an inside is of the root namespace. -/
theorem ofText_eq_root_iff (written : String) : ofText written = root ↔ inside written = [] := by
  -- the root is the namespace that the empty text stands for
  show ofText written = ofText "" ↔ inside written = inside ""
  exact ofText_eq_iff

/-! ## §2. Rooted namespaces. -/

/-- The path begins with a separator.  That is all of it, or else neither its second character nor
    its last one is a separator. -/
structure Rooted (ns : Namespace) : Prop where
  begins : ns.path.toList.head? = some separator
  root_or : ns = root ∨
    ns.path.toList.getLast? ≠ some separator ∧ ns.path.toList[1]? ≠ some separator

theorem rooted_root : root.Rooted := ⟨by decide +kernel, Or.inl rfl⟩

/-- The second cut is the one that counts: what it leaves has no separator at either end, even
    where the first one has left some. -/
theorem rooted_ofText (written : String) : (ofText written).Rooted := by
  obtain ⟨hhead, hlast⟩ := Text.cut_eq_self_iff.mp (cut_inside written)
  constructor
  · rw [toList_path_ofText]
    rfl
  · rw [toList_path_ofText, ofText_eq_root_iff]
    -- behind the separator in front stands nothing, or what has been cut at both ends
    by_cases hnil : inside written = []
    · exact Or.inl hnil
    · refine Or.inr ⟨?_, ?_⟩
      · intro h
        rw [← List.singleton_append, List.getLast?_append_of_ne_nil _ hnil] at h
        simpa using hlast separator h
      · intro h
        rw [List.getElem?_cons_succ, ← List.head?_eq_getElem?] at h
        simpa using hhead separator h

/-! ## §3. Joining a name to a rooted namespace. -/

/-- `full` is made of the namespace and the name, with exactly one separator between them. -/
def JoinedOnce (ns : Namespace) (name full : String) : Prop :=
  ∃ front : String, (ns.path = front ∨ ns.path = front ++ "\\") ∧
    full = front ++ "\\" ++ name ∧
    front.toList.getLast? ≠ some separator ∧ name.toList.head? ≠ some separator

/-- In the root namespace a name gets one separator in front. -/
theorem qualify_root (name : String) : root.qualify name = "\\" ++ name := by
  have hroot : root.path.toList.getLast? = some separator := by decide +kernel
  unfold qualify
  rw [if_pos hroot]
  rfl

/-- In a namespace whose path does not end in a separator a name gets the path and one separator in
    front. -/
theorem qualify_of_getLast?_ne {ns : Namespace} (h : ns.path.toList.getLast? ≠ some separator)
    (name : String) : ns.qualify name = ns.path ++ "\\" ++ name := by
  unfold qualify
  rw [if_neg h]

/-- In a rooted namespace a name is joined by one separator, whether the path ends in one or not. -/
theorem Rooted.joinedOnce_qualify {ns : Namespace} (h : ns.Rooted) {name : String}
    (hname : name.toList.head? ≠ some separator) : ns.JoinedOnce name (ns.qualify name) := by
  rcases h.root_or with rfl | ⟨hlast, -⟩
  · -- the separator of the root is the one between
    rw [qualify_root]
    exact ⟨"", Or.inr rfl, rfl, by simp, hname⟩
  · rw [qualify_of_getLast?_ne hlast]
    exact ⟨ns.path, Or.inl rfl, rfl, hlast, hname⟩

/-- A full name begins with one separator. -/
theorem Rooted.begins_qualify {ns : Namespace} (h : ns.Rooted) {name : String}
    (hname : name.toList.head? ≠ some separator) :
    (ns.qualify name).toList.head? = some separator ∧
      (ns.qualify name).toList[1]? ≠ some separator := by
  rcases h.root_or with rfl | ⟨hlast, hsecond⟩
  · have hchars : ("\\" ++ name).toList = separator :: name.toList := by simp [separator]
    rw [qualify_root, hchars]
    refine ⟨rfl, ?_⟩
    rw [List.getElem?_cons_succ, ← List.head?_eq_getElem?]
    exact hname
  · obtain ⟨rest, hpath⟩ := List.head?_eq_some_iff.mp h.begins
    -- a path that ends otherwise goes on after its first character
    have hrest : rest ≠ [] := by
      rintro rfl
      rw [hpath] at hlast
      exact hlast rfl
    rw [hpath, List.getElem?_cons_succ, ← List.head?_eq_getElem?] at hsecond
    have hchars : (ns.path ++ "\\" ++ name).toList =
        separator :: (rest ++ ("\\" ++ name).toList) := by
      simp [hpath]
    rw [qualify_of_getLast?_ne hlast, hchars]
    refine ⟨rfl, ?_⟩
    rw [List.getElem?_cons_succ, ← List.head?_eq_getElem?, List.head?_append_of_ne_nil _ hrest]
    exact hsecond

end Namespace

/-! ## §4. Contexts. -/

namespace Context

/-- Where the building of a context begins: at the top of a file, or with a description of it. -/
inductive IsStart : Context → Prop where
  | top (file : String) : IsStart (ofFile file)
  | described (d : UnitDescription) : IsStart d.toContext

/-- Both ways of starting give a rooted namespace. -/
theorem IsStart.rooted {c : Context} (h : c.IsStart) : c.space.Rooted := by
  cases h with
  | top file => exact Namespace.rooted_root
  | described d =>
    dsimp only [UnitDescription.toContext]
    exact Namespace.rooted_ofText d.space

/-- Only one kind of step touches the namespace, and it reads a new one. -/
theorem rooted_step {c : Context} (h : c.space.Rooted) (s : BuildStep) :
    (c.step s).space.Rooted := by
  cases s with
  | withNamespace written =>
    dsimp only [step, withNamespace]
    exact Namespace.rooted_ofText written
  | withAliases tables => exact h
  | withAlias k short target => exact h
  | withLine line => exact h
  | withClass name => exact h
  | withScope scope => exact h

/-- Every step keeps the namespace rooted, so a run of them does. -/
theorem rooted_run {c : Context} (h : c.space.Rooted) (steps : List BuildStep) :
    (c.run steps).space.Rooted := by
  induction steps generalizing c with
  | nil => exact h
  | cons s steps ih => exact ih (rooted_step h s)

/-- **Every namespace is rooted**: whatever has been written on the way to a context, the path of
    its namespace is a separator, or begins with one and has none beside it nor at its end.  So a
    name without a separator in front is joined to it by exactly one, and the full name begins with
    exactly one. -/
theorem rooted_and_joined_once {c : Context} (h : c.IsStart) (steps : List BuildStep) :
    (c.run steps).space.Rooted ∧
    ∀ name : String, name.toList.head? ≠ some separator →
      ((c.run steps).space.qualify name).toList.head? = some separator ∧
      ((c.run steps).space.qualify name).toList[1]? ≠ some separator ∧
      (c.run steps).space.JoinedOnce name ((c.run steps).space.qualify name) := by
  have hrooted : (c.run steps).space.Rooted := rooted_run h.rooted steps
  refine ⟨hrooted, ?_⟩
  intro name hname
  obtain ⟨hfirst, hsecond⟩ := hrooted.begins_qualify hname
  exact ⟨hfirst, hsecond, hrooted.joinedOnce_qualify hname⟩

/-- Blanks that come to light between separators stay, and nothing is wrong with that. -/
theorem rooted_and_joined_once_blanks :
    ∃ (d : UnitDescription) (steps : List BuildStep) (name : String),
      d.toContext.IsStart ∧ name.toList.head? ≠ some separator ∧
      (d.toContext.run steps).space.path = "\\ App\\Sub " ∧
      (d.toContext.run steps).space.Rooted ∧
      (d.toContext.run steps).space.JoinedOnce name "\\ App\\Sub \\X\\Y" := by
  let d : UnitDescription := { space := "\\\\" }
  let steps : List BuildStep :=
    [.withClass "\\C", .withNamespace "\t\\\\ App\\Sub \\ ", .withAlias .cls "X" "\\Z"]
  have hname : "X\\Y".toList.head? ≠ some separator := by decide +kernel
  obtain ⟨hrooted, hjoined⟩ := rooted_and_joined_once (.described d) steps
  obtain ⟨-, -, honce⟩ := hjoined "X\\Y" hname
  have hfull : (d.toContext.run steps).space.qualify "X\\Y" = "\\ App\\Sub \\X\\Y" := by
    decide +kernel
  rw [hfull] at honce
  exact ⟨d, steps, "X\\Y", .described d, hname, by decide +kernel, hrooted, honce⟩

end Context

end PhpNames
