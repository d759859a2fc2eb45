/-
  PhpNames.Proofs.Context.BuildRuns — contexts that are built step by step.

  A context is made from the top of a file by any number of steps.  Three of its tables hold what
  has been imported, and a step may replace them all:

    • `alias?_build` — an entry is what the last import of it says since the tables were last
      replaced, or else what these tables say,
    • `run_permuted` — imports of different names may be made in any order, in between of steps
      that do not replace the tables; across the last such step they may not
      (`imports_across_tables`), and those before it are forgotten (`run_others_withAliases`),
    • `qualify_withAlias_ne` — an import can change the meaning of those names only that it is
      looked up for.
-/
import Mathlib.Data.List.DropRight
import Mathlib.Data.List.Forall2
import Mathlib.Data.List.Pairwise
import Mathlib.Data.List.Perm.Basic
import PhpNames.Proofs.Context.Qualification

namespace PhpNames

/-! ## §1. Steps. -/

/-- A step on the way to a context. -/
inductive BuildStep where
  | withNamespace (written : String)
  | withAliases (tables : AliasTables)
  | withAlias (k : AliasKind) (short target : String)
  | withLine (line : UInt32)
  | withClass (name : String)
  | withScope (scope : Scope)

namespace BuildStep

/-- The tables that a step puts in the place of the old ones. -/
def tables? : BuildStep → Option AliasTables
  | withAliases tables => some tables
  | _ => none

/-- The kind and the short name that a step imports. -/
def imported? : BuildStep → Option (AliasKind × String)
  | withAlias k short _ => some (k, short)
  | _ => none

/-- What a step makes a short name stand for. -/
def target? (k : AliasKind) (short : String) : BuildStep → Option String
  | withAlias l other target => if l = k ∧ other = short then some target else none
  | _ => none

/-- The steps since the tables were last replaced. -/
def sinceTables (steps : List BuildStep) : List BuildStep :=
  steps.rtakeWhile fun s => s.tables?.isNone

/-- The tables that were last put in. -/
def lastTables? (steps : List BuildStep) : Option AliasTables := (steps.filterMap tables?).getLast?

/-- What the last of the steps that import a short name makes it stand for. -/
def lastTarget? (k : AliasKind) (short : String) (steps : List BuildStep) : Option String :=
  (steps.filterMap (target? k short)).getLast?

end BuildStep

open BuildStep

namespace Context

/-- Takes a step. -/
def step (c : Context) : BuildStep → Context
  | .withNamespace written => c.withNamespace written
  | .withAliases tables => c.withAliases tables
  | .withAlias k short target => c.withAlias k short target
  | .withLine line => c.withLine line
  | .withClass name => c.withClass name
  | .withScope scope => c.withScope scope

/-- Takes one step after the other. -/
def run (c : Context) (steps : List BuildStep) : Context := steps.foldl step c

/-- The context that is built from the top of a file. -/
def build (file : String) (steps : List BuildStep) : Context := (ofFile file).run steps

/-- More steps start from the context that the first ones build. -/
theorem run_append (c : Context) (steps more : List BuildStep) :
    c.run (steps ++ more) = (c.run steps).run more := List.foldl_append

theorem run_concat (c : Context) (steps : List BuildStep) (s : BuildStep) :
    c.run (steps ++ [s]) = (c.run steps).step s := c.run_append steps [s]

/-- Only imports and replacements touch the tables. -/
theorem aliases_step (c : Context) {s : BuildStep} (htables : s.tables? = none)
    (himported : s.imported? = none) : (c.step s).aliases = c.aliases := by
  cases s with
  | withAliases tables => cases htables
  | withAlias k short target => cases himported
  | _ => simp only [step, withNamespace, withLine, withClass, withScope]

/-! ## §2. Entries of the tables. -/

/-- What a step does to an entry. -/
theorem alias?_step (c : Context) (s : BuildStep) (k : AliasKind) (short : String) :
    (c.step s).alias? k short =
      match s.tables? with
      | some tables => tables.get? k short
      | none => (s.target? k short).or (c.alias? k short) := by
  cases s with
  | withAliases tables => rfl
  | withAlias l other target =>
    show (c.withAlias l other target).alias? k short =
      (if l = k ∧ other = short then some target else none).or (c.alias? k short)
    rw [alias?_withAlias]
    split <;> rfl
  | _ =>
    unfold alias?
    rw [aliases_step c rfl rfl]
    exact (Option.none_or).symm

/-- A step that imports the short name is the last one to say what it stands for. -/
theorem lastTarget?_concat (k : AliasKind) (short : String) (steps : List BuildStep)
    (s : BuildStep) :
    lastTarget? k short (steps ++ [s]) = (s.target? k short).or (lastTarget? k short steps) := by
  unfold lastTarget?
  rw [List.filterMap_append, List.getLast?_append]
  cases h : s.target? k short with
  | none => simp [h]
  | some target => simp [h]

/-- **What an entry says**: the last target since the tables were replaced, or else what the new
    tables say, or what was there at the start if they never were. -/
theorem alias?_run (c : Context) (steps : List BuildStep) (k : AliasKind) (short : String) :
    (c.run steps).alias? k short =
      (lastTarget? k short (sinceTables steps)).or
        (match lastTables? steps with
        | some tables => tables.get? k short
        | none => c.alias? k short) := by
  induction steps using List.reverseRecOn with
  | nil => rfl
  | append_singleton steps s ih =>
    rw [run_concat, alias?_step]
    unfold sinceTables lastTables?
    rw [List.rtakeWhile_concat, List.filterMap_append, List.getLast?_append]
    cases htables : s.tables? with
    | some tables =>
      -- everything before the step is forgotten
      simp [htables, lastTarget?]
    | none =>
      have hsince : lastTarget? k short (sinceTables steps ++ [s]) =
          (s.target? k short).or (lastTarget? k short (sinceTables steps)) :=
        lastTarget?_concat k short (sinceTables steps) s
      -- the step comes behind the others, and may set the entry anew
      rw [ih]
      unfold sinceTables lastTables? at *
      simp [htables, hsince, Option.or_assoc]

/-- From the top of a file there are no entries but those of the last tables and of the imports
    since then. -/
theorem alias?_build (file : String) (steps : List BuildStep) (k : AliasKind) (short : String) :
    (build file steps).alias? k short =
      (lastTarget? k short (sinceTables steps)).or
        ((lastTables? steps).bind (·.get? k short)) := by
  unfold build
  rw [alias?_run, alias?_ofFile]
  cases lastTables? steps <;> rfl

/-- An import before the tables are replaced is forgotten, and one after that is not. -/
example :
    (build "a.php" [.withAlias .cls "A" "\\X", .withAliases {},
      .withAlias .cls "B" "\\Y"]).alias? .cls "A" = none := by decide +kernel

/-! ## §3. The order of imports. -/

/-- Two steps may be taken in either order. -/
def StepsCommute (s t : BuildStep) : Prop := ∀ c : Context, (c.step s).step t = (c.step t).step s

instance : Std.Symm StepsCommute := ⟨fun _ _ h c => (h c).symm⟩

/-- Imports of different names are different entries. -/
theorem stepsCommute_of_imported_ne {s t : BuildStep} {p q : AliasKind × String}
    (hs : s.imported? = some p) (ht : t.imported? = some q) (hne : p ≠ q) : StepsCommute s t := by
  intro c
  cases s with
  | withAlias k short target =>
    cases t with
    | withAlias l other found =>
      obtain rfl := Option.some.inj hs
      obtain rfl := Option.some.inj ht
      have hentries : (c.aliases.insert k short target).insert l other found =
          (c.aliases.insert l other found).insert k short target := by
        apply AliasTables.ext_get?
        intro m name
        simp only [AliasTables.get?_insert]
        -- no entry is both
        grind
      show { c with aliases := (c.aliases.insert k short target).insert l other found } =
        { c with aliases := (c.aliases.insert l other found).insert k short target }
      rw [hentries]
    | _ => cases ht
  | _ => cases hs

/-- An import may be made before or after whatever else does not touch the tables. -/
theorem stepsCommute_of_not_imported {s t : BuildStep} {p : AliasKind × String}
    (hs : s.imported? = some p) (ht : t.imported? = none) (htables : t.tables? = none) :
    StepsCommute s t := by
  intro c
  cases s with
  | withAlias k short target =>
    cases t with
    | withAlias => cases ht
    | withAliases => cases htables
    | _ => simp only [step, withNamespace, withAlias, withLine, withClass, withScope]
  | _ => cases hs

/-- A step may be moved behind steps that all commute with it. -/
theorem run_step_comm (steps : List BuildStep) {s : BuildStep}
    (h : ∀ t ∈ steps, StepsCommute s t) (c : Context) :
    (c.step s).run steps = (c.run steps).step s := by
  induction steps generalizing c with
  | nil => rfl
  | cons t steps ih =>
    have ht : StepsCommute s t := h t List.mem_cons_self
    have hrest : ∀ u ∈ steps, StepsCommute s u := fun u hu => h u (List.mem_cons_of_mem t hu)
    show ((c.step s).step t).run steps = ((c.step t).run steps).step s
    rw [ht c, ih hrest]

/-- Steps of which any two commute may be taken in any order. -/
theorem run_perm {steps steps' : List BuildStep} (hperm : steps.Perm steps')
    (h : steps.Pairwise StepsCommute) (c : Context) : c.run steps = c.run steps' := by
  -- any two of the steps commute, since a step does with itself
  have hall := h.forall_of_forall fun _ _ _ => rfl
  exact hperm.foldl_eq' (fun _ hs _ ht => hall hs ht) c

/-- The steps that import something. -/
def imports (steps : List BuildStep) : List BuildStep := steps.filter (·.imported?.isSome)

/-- The steps that import nothing. -/
def others (steps : List BuildStep) : List BuildStep := steps.filter (·.imported?.isNone)

/-- The imports may be made after everything else. -/
theorem run_eq_others_imports (steps : List BuildStep) (h : ∀ s ∈ steps, s.tables? = none)
    (c : Context) : c.run steps = (c.run (others steps)).run (imports steps) := by
  induction steps generalizing c with
  | nil => rfl
  | cons s steps ih =>
    have hrest : ∀ t ∈ steps, t.tables? = none := fun t ht => h t (List.mem_cons_of_mem s ht)
    have hsteps := ih hrest (c.step s)
    show (c.step s).run steps = _
    cases himported : s.imported? with
    | none =>
      have hothers : others (s :: steps) = s :: others steps := by simp [others, himported]
      have himports : imports (s :: steps) = imports steps := by simp [imports, himported]
      rw [hothers, himports, hsteps]
      rfl
    | some p =>
      have hothers : others (s :: steps) = others steps := by simp [others, himported]
      have himports : imports (s :: steps) = s :: imports steps := by simp [imports, himported]
      -- the first import is moved behind all that imports nothing
      have hcomm : ∀ t ∈ others steps, StepsCommute s t := by
        intro t ht
        obtain ⟨hmem, hnone⟩ := List.mem_filter.mp ht
        exact stepsCommute_of_not_imported himported (Option.isNone_iff_eq_none.mp hnone)
          (hrest t hmem)
      rw [hothers, himports, hsteps, run_step_comm (others steps) hcomm]
      rfl

/-- The imports among the steps are made in another order; they are of different names, and the
    tables are not replaced meanwhile. -/
structure ImportsPermuted (steps steps' : List BuildStep) : Prop where
  keepsTables : ∀ s ∈ steps, s.tables? = none
  distinct : (steps.filterMap imported?).Nodup
  perm : (imports steps).Perm (imports steps')
  others_eq : others steps = others steps'

/-- Imports in another order do not replace the tables either. -/
theorem ImportsPermuted.keepsTables' {steps steps' : List BuildStep}
    (h : ImportsPermuted steps steps') : ∀ s ∈ steps', s.tables? = none := by
  intro s hs
  cases himported : s.imported? with
  | some p =>
    cases s with
    | withAlias => rfl
    | _ => cases himported
  | none =>
    have hmem : s ∈ others steps' := List.mem_filter.mpr ⟨hs, by rw [himported]; rfl⟩
    rw [← h.others_eq] at hmem
    exact h.keepsTables s (List.mem_filter.mp hmem).1

/-- Imports of different names commute, any two of them. -/
theorem ImportsPermuted.pairwise {steps steps' : List BuildStep}
    (h : ImportsPermuted steps steps') : (imports steps).Pairwise StepsCommute := by
  have hdistinct := List.pairwise_filterMap.mp h.distinct
  refine (hdistinct.filter _).imp_of_mem ?_
  intro s t hs ht hne
  obtain ⟨p, hp⟩ := Option.isSome_iff_exists.mp (List.mem_filter.mp hs).2
  obtain ⟨q, hq⟩ := Option.isSome_iff_exists.mp (List.mem_filter.mp ht).2
  exact stepsCommute_of_imported_ne hp hq (hne p hp q hq)

/-- **The order of imports** of different names does not matter. -/
theorem run_permuted {steps steps' : List BuildStep} (h : ImportsPermuted steps steps')
    (c : Context) : c.run steps = c.run steps' := by
  calc c.run steps
      = (c.run (others steps)).run (imports steps) := run_eq_others_imports steps h.keepsTables c
    _ = (c.run (others steps')).run (imports steps) := by rw [h.others_eq]
    _ = (c.run (others steps')).run (imports steps') := run_perm h.perm h.pairwise _
    _ = c.run steps' := (run_eq_others_imports steps' h.keepsTables' c).symm

/-- A step right before the tables are replaced may as well be taken in other tables. -/
theorem step_withAliases (c : Context) (s : BuildStep) (tables : AliasTables) :
    (c.step s).step (.withAliases tables) =
      ((c.step (.withAliases tables)).step s).step (.withAliases tables) := by
  cases s with
  | withAlias | withAliases => rfl
  | _ => simp only [step, withNamespace, withAliases, withLine, withClass, withScope]

/-- **What is imported before the tables are replaced is forgotten.** -/
theorem run_others_withAliases (c : Context) (steps : List BuildStep) (tables : AliasTables) :
    (c.run steps).step (.withAliases tables) =
      (c.run (others steps)).step (.withAliases tables) := by
  induction steps using List.reverseRecOn with
  | nil => rfl
  | append_singleton steps s ih =>
    cases himported : s.imported? with
    | none =>
      have hothers : others (steps ++ [s]) = others steps ++ [s] := by simp [others, himported]
      rw [hothers, run_concat, run_concat, step_withAliases, ih, ← step_withAliases]
    | some p =>
      have hothers : others (steps ++ [s]) = others steps := by simp [others, himported]
      cases s with
      | withAlias k short target =>
        rw [hothers, run_concat, ← ih]
        rfl
      | _ => cases himported

/-- A stretch of a run in which the imports may be made in another order.  Either they are of
    different names and the tables are not replaced meanwhile, or the tables are replaced at the end
    and nothing is left of them. -/
inductive StretchPermuted : List BuildStep → List BuildStep → Prop where
  | same (steps : List BuildStep) : StretchPermuted steps steps
  | distinct {steps steps' : List BuildStep} (h : ImportsPermuted steps steps') :
      StretchPermuted steps steps'
  | forgotten {steps steps' : List BuildStep} (h : others steps = others steps')
      (tables : AliasTables) :
      StretchPermuted (steps ++ [.withAliases tables]) (steps' ++ [.withAliases tables])

/-- Both ways to go through a stretch come to the same context. -/
theorem StretchPermuted.run_eq {steps steps' : List BuildStep} (h : StretchPermuted steps steps')
    (c : Context) : c.run steps = c.run steps' := by
  cases h with
  | same => rfl
  | distinct h => exact run_permuted h c
  | @forgotten steps steps' h tables =>
    rw [run_concat, run_concat, run_others_withAliases, h, ← run_others_withAliases]

/-- **The order of imports in a whole run** does not matter, stretch by stretch. -/
theorem run_flatten_permuted {stretches stretches' : List (List BuildStep)}
    (h : List.Forall₂ StretchPermuted stretches stretches') (c : Context) :
    c.run stretches.flatten = c.run stretches'.flatten := by
  induction h generalizing c with
  | nil => rfl
  | cons hsteps _ ih =>
    rw [List.flatten_cons, List.flatten_cons, run_append, run_append, ih, hsteps.run_eq]

/-! ## §4. One more import. -/

/-- **What an import can change**: the meaning of those names of its kind that it is looked up
    for, as a whole or as the first segment, and never of a native type. -/
theorem qualify_withAlias_ne {c : Context} {k l : AliasKind} {short target name : String}
    (h : (c.withAlias k short target).qualify l name ≠ c.qualify l name) :
    k = l ∧ (short = name ∨ ∃ rest, name = short ++ "\\" ++ rest ∧ separator ∉ short.toList) ∧
      ¬(l = .cls ∧ isNativeTypeName name) := by
  by_contra hnot
  apply h
  unfold qualify
  congr 1
  refine qualification_congr rfl ?_
  intro hnative
  constructor
  · rw [alias?_withAlias, if_neg]
    rintro ⟨rfl, rfl⟩
    exact hnot ⟨rfl, Or.inl rfl, hnative⟩
  · intro head rest hsplit
    rw [alias?_withAlias, if_neg]
    rintro ⟨rfl, rfl⟩
    exact hnot ⟨rfl, Or.inr ⟨rest, splitSegment?_eq_some_iff.mp hsplit⟩, hnative⟩

/-- **Imports over a whole run**: an entry is what the last import of it says since the tables were
    replaced, or else what these say.  So imports of different names may be made in any order, as
    long as none of them is moved across the last replacement, and one more import changes only what
    it is looked up for. -/
theorem build_imports (file : String) :
    (∀ (steps : List BuildStep) (k : AliasKind) (short : String),
      (build file steps).alias? k short =
        (lastTarget? k short (sinceTables steps)).or
          ((lastTables? steps).bind (·.get? k short))) ∧
    (∀ stretches stretches' : List (List BuildStep),
      List.Forall₂ StretchPermuted stretches stretches' →
      ∀ (k : AliasKind) (name : String),
        (build file stretches.flatten).qualify k name =
          (build file stretches'.flatten).qualify k name) ∧
    ∀ (steps : List BuildStep) (k l : AliasKind) (short target name : String),
      (build file (steps ++ [.withAlias k short target])).qualify l name ≠
        (build file steps).qualify l name →
      k = l ∧ (short = name ∨ ∃ rest, name = short ++ "\\" ++ rest ∧ separator ∉ short.toList) ∧
        ¬(l = .cls ∧ isNativeTypeName name) := by
  refine ⟨alias?_build file, ?_, ?_⟩
  · intro stretches stretches' h k name
    exact congrArg (fun c : Context => c.qualify k name) (run_flatten_permuted h (ofFile file))
  · intro steps k l short target name h
    unfold build at h
    rw [run_concat] at h
    exact qualify_withAlias_ne h

/-- Imports are made in another order on both sides of a replacement.  Those before it are of one
    name, and which of them is the last does not matter. -/
theorem build_imports_swapped :
    ∃ (stretches stretches' : List (List BuildStep)) (name : String),
      List.Forall₂ StretchPermuted stretches stretches' ∧
      (build "a.php" stretches.flatten).qualify .cls name = "\\X\\B" ∧
      (build "a.php" stretches'.flatten).qualify .cls name = "\\X\\B" ∧
      (build "a.php" ([.withNamespace "App"] ++ [.withAlias .cls "A" "\\X"])).qualify .cls name ≠
        (build "a.php" [.withNamespace "App"]).qualify .cls name ∧
      ∃ rest, name = "A" ++ "\\" ++ rest := by
  let early : List BuildStep :=
    [.withAlias .cls "A" "\\Old", .withNamespace "App", .withAlias .cls "A" "\\Y"]
  let early' : List BuildStep :=
    [.withAlias .cls "A" "\\Y", .withAlias .cls "A" "\\Old", .withNamespace "App"]
  let late : List BuildStep :=
    [.withAlias .cls "A" "\\X", .withLine 3, .withAlias .function "A" "\\f"]
  let late' : List BuildStep :=
    [.withLine 3, .withAlias .function "A" "\\f", .withAlias .cls "A" "\\X"]
  obtain ⟨-, hpermuted, hchanged⟩ := build_imports "a.php"
  have hlate : ImportsPermuted late late' := by
    refine ⟨?_, by decide +kernel, .swap _ _ _, rfl⟩
    simp [late, tables?]
  have hearly : others early = others early' := rfl
  have hstretches : List.Forall₂ StretchPermuted [early ++ [.withAliases {}], late]
      [early' ++ [.withAliases {}], late'] :=
    .cons (.forgotten hearly {}) (.cons (.distinct hlate) .nil)
  have hresult : (build "a.php" [early ++ [.withAliases {}], late].flatten).qualify .cls "A\\B" =
      "\\X\\B" := by
    decide +kernel
  have hne : (build "a.php" ([.withNamespace "App"] ++ [.withAlias .cls "A" "\\X"])).qualify .cls
      "A\\B" ≠ (build "a.php" [.withNamespace "App"]).qualify .cls "A\\B" := by
    decide +kernel
  refine ⟨_, _, "A\\B", hstretches, hresult, ?_, hne, ?_⟩
  · rw [← hpermuted _ _ hstretches, hresult]
  · obtain ⟨-, heq | ⟨rest, hrest, -⟩, -⟩ := hchanged _ .cls .cls "A" "\\X" "A\\B" hne
    · exact absurd heq (by decide)
    · exact ⟨rest, hrest⟩

/-- **An import that is moved across a replacement of the tables** is not the same.  What was made
    after it and is made before it now is forgotten. -/
theorem imports_across_tables :
    ∃ steps steps' : List BuildStep,
      (steps.filterMap imported?).Nodup ∧ (imports steps).Perm (imports steps') ∧
      others steps = others steps' ∧
      (build "a.php" steps).qualify .cls "B" = "\\Y" ∧
      (build "a.php" steps').qualify .cls "B" = "\\B" := by
  let steps : List BuildStep :=
    [.withAlias .cls "A" "\\X", .withAliases {}, .withAlias .cls "B" "\\Y"]
  let steps' : List BuildStep :=
    [.withAlias .cls "B" "\\Y", .withAliases {}, .withAlias .cls "A" "\\X"]
  have hkept : (build "a.php" steps).qualify .cls "B" = "\\Y" := by decide +kernel
  have hforgotten : (build "a.php" steps').qualify .cls "B" = "\\B" := by decide +kernel
  exact ⟨steps, steps', by decide +kernel, .swap _ _ _, rfl, hkept, hforgotten⟩

end Context

end PhpNames
