/-
  PhpNames.Proofs.Resolve.Reporting — what the reporting options may change.

  Two of the options say which undeclared variables are reported; the third one bounds how deep a
  variable name may be nested.  The first two have no influence on what is resolved.  Beside a run
  of a session stands the run of the same operations where these two are as by default:

    • every answer is the same,
    • what is reported is what is reported there, without the undeclared variables that the options
      do not want to hear of (`Options.keeps`).

  The two runs are compared computation by computation (`Logged.Muted`).  Only the type of a plain
  variable looks at the options (`muted_typeOfName`), and everything above it passes the relation
  on.  A step keeps two sessions in the relation (`muted_perform`), and so does a run
  (`muted_performAll`).
-/
import Mathlib.Data.List.Forall2
import PhpNames.ClassName
import PhpNames.Proofs.Resolve.History
import PhpNames.Proofs.Resolve.VariableTypes

namespace PhpNames

/-! ## §1. The diagnostics that options keep. -/

namespace Diagnostic

/-- Whether the diagnostic reports that the variable `name` is undeclared. -/
def isAbout (d : Diagnostic) (name : String) : Bool := d == undefinedVariable d.file d.line name

/-- The message tells which variable it is. -/
theorem isAbout_undefinedVariable (file : String) (line : UInt32) (name other : String) :
    (undefinedVariable file line name).isAbout other = (name == other) := by
  rw [Bool.eq_iff_iff, beq_iff_eq]
  constructor
  · intro h
    have hsame : undefinedVariable file line name = undefinedVariable file line other :=
      eq_of_beq h
    have hmessage := congrArg Diagnostic.message hsame
    rw [message_undefinedVariable, message_undefinedVariable] at hmessage
    -- the same words stand before and after both names
    simpa [← String.toList_inj] using hmessage
  · rintro rfl
    exact beq_self_eq_true _

end Diagnostic

namespace Options

/-- The options with the same bound that report as by default. -/
def atDefaults (o : Options) : Options := { maxNameChain := o.maxNameChain }

/-- Whether a diagnostic is wanted: an undeclared variable is, if such are reported at all and it
    is not one that is always present; everything else is. -/
def keeps (o : Options) (d : Diagnostic) : Bool :=
  d.kind != .undefinedVariable || (o.reportUndefined && !o.extraSuperglobals.any d.isAbout)

/-- An undeclared variable is reported if such are, and if it is not one of the extra names. -/
theorem keeps_undefinedVariable (o : Options) (file : String) (line : UInt32) (name : String) :
    o.keeps (.undefinedVariable file line name) =
      (o.reportUndefined && !o.extraSuperglobals.contains name) := by
  have hany : o.extraSuperglobals.any (Diagnostic.undefinedVariable file line name).isAbout =
      o.extraSuperglobals.contains name := by
    rw [List.contains_eq_any_beq]
    congr 1
    funext other
    exact Diagnostic.isAbout_undefinedVariable file line name other
  show (false || (o.reportUndefined && !o.extraSuperglobals.any _)) = _
  rw [hany, Bool.false_or]

/-- A chain that is too deep is always reported. -/
theorem keeps_malformedNameChain (o : Options) (file : String) (line : UInt32) (bound : Nat) :
    o.keeps (.malformedNameChain file line bound) = true := rfl

end Options

/-! ## §2. Muted computations. -/

namespace Logged

variable {α β : Type} {o : Options}

/-- `x` has the value of `y`, and reports what the options want of what `y` reports. -/
structure Muted (o : Options) (x y : Logged α) : Prop where
  value : x.value = y.value
  diagnostics : x.diagnostics = y.diagnostics.filter o.keeps

/-- With nothing to report there is nothing to leave out. -/
theorem Silent.muted {x : Logged α} (h : x.Silent) : Muted o x x := by
  refine ⟨rfl, ?_⟩
  have hnone : x.diagnostics = [] := h
  rw [hnone]
  rfl

theorem muted_pure (a : α) : Muted o (pure a) (pure a) := (silent_pure a).muted

/-- If each of two computations reports what is wanted of its counterpart, both do. -/
theorem Muted.bind {x y : Logged α} {f g : α → Logged β} (hx : Muted o x y)
    (hf : ∀ a, Muted o (f a) (g a)) : Muted o (x >>= f) (y >>= g) := by
  have hrest : Muted o (f y.value) (g y.value) := hf y.value
  constructor
  · rw [value_bind, value_bind, hx.value]
    exact hrest.value
  · rw [diagnostics_bind, diagnostics_bind, hx.value, hx.diagnostics, hrest.diagnostics,
      List.filter_append]

theorem Muted.bind_pure {x y : Logged α} (hx : Muted o x y) (g : α → β) :
    Muted o (x >>= fun a => pure (g a)) (y >>= fun a => pure (g a)) :=
  hx.bind fun a => muted_pure (g a)

end Logged

open Logged (Muted muted_pure)

namespace Resolution

variable {α β : Type} {o : Options}

/-- Two computations that may fail report what is wanted if each does; both counterparts fail, or
    none. -/
theorem muted_bind {x y : Resolution α} {f g : α → Resolution β} (hx : Muted o x.run y.run)
    (hf : ∀ a, Muted o (f a).run (g a).run) : Muted o (x >>= f).run (y >>= g).run := by
  rw [ExceptT.run_bind, ExceptT.run_bind]
  refine hx.bind ?_
  intro outcome
  cases outcome with
  | ok a => exact hf a
  | error e => exact muted_pure _

theorem muted_bind_pure {x y : Resolution α} (hx : Muted o x.run y.run) (g : α → β) :
    Muted o (x >>= fun a => pure (g a)).run (y >>= fun a => pure (g a)).run :=
  muted_bind hx fun a => (silent_ok (g a)).muted

/-- A list of computations reports what is wanted, up to the first failure, if each of them does. -/
theorem muted_mapM {f g : α → Resolution β} (h : ∀ a, Muted o (f a).run (g a).run) (l : List α) :
    Muted o (l.mapM f).run (l.mapM g).run := by
  induction l with
  | nil => exact (silent_ok []).muted
  | cons a l ih =>
    rw [List.mapM_cons, List.mapM_cons]
    refine muted_bind (h a) ?_
    intro b
    exact muted_bind_pure ih (b :: ·)

end Resolution

/-! ## §3. One question under two options. -/

namespace Resolver

open Resolution

variable (r : Resolver)

/-- The resolver in the same place that reports as by default. -/
def atDefaults : Resolver := { r with options := r.options.atDefaults }

/-- By default only the built-in names are always present. -/
theorem isSuperglobal_atDefaults (name : String) :
    r.atDefaults.isSuperglobal name = superglobals.contains name := by
  show (superglobals.contains name || ([] : List String).contains name) = _
  rw [List.contains_nil, Bool.or_false]

/-- The only place where the reporting options are looked at. -/
theorem muted_typeOfName (name : String) (line : UInt32) :
    Muted r.options (r.typeOfName name line) (r.atDefaults.typeOfName name line) := by
  constructor
  · rw [value_typeOfName, value_typeOfName]
    rfl
  · rw [diagnostics_typeOfName, diagnostics_typeOfName, isSuperglobal_atDefaults]
    have hkeeps := r.options.keeps_undefinedVariable r.context.file line name
    by_cases hbound : r.context.scope.get? name = none
    · unfold isSuperglobal
      cases hbuiltin : superglobals.contains name with
      | true => simp [atDefaults, hbound]
      | false =>
        -- by default it is reported; the options keep that report exactly when they make it
        simp only [atDefaults, Options.atDefaults, hbound, Bool.false_or, true_and, and_self,
          if_true]
        rw [List.filter_singleton, hkeeps]
        cases r.options.extraSuperglobals.contains name <;>
          cases r.options.reportUndefined <;> rfl
    · have hloud : r.atDefaults.context.scope.get? name ≠ none := hbound
      simp [hbound, hloud]

/-- **Where the options decide**: a variable has its type all the same, and is reported if that is
    wanted. -/
theorem muted_variableType (n : Node) :
    Muted r.options (r.variableType n) (r.atDefaults.variableType n) := by
  cases hname : n.childText? 0 with
  | some name =>
    rw [variableType_of_name hname, variableType_of_name hname]
    exact r.muted_typeOfName name n.line
  | none =>
    obtain ⟨u, -, hfixed⟩ := exists_variableType_of_not_plain hname
    rw [hfixed r, hfixed r.atDefaults]
    exact muted_pure u

/-- A node has its type all the same, and of its reports those that are wanted are made. -/
theorem muted_typeOfNode (n : Node) :
    Muted r.options (r.typeOfNode n).run (r.atDefaults.typeOfNode n).run := by
  -- names and type positions are silent, and the same in both places
  have htype : Muted r.options (r.context.typeOfTypeNode n).run (r.context.typeOfTypeNode n).run :=
    (r.context.silent_typeOfTypeNode n).muted
  unfold typeOfNode
  cases n.kind with
  | var => exact (r.muted_variableType n).bind_pure Except.ok
  | name => exact muted_bind_pure (r.context.silent_nameOfNode .cls n).muted _
  | type => exact htype
  | nullableType => exact htype
  | typeUnion => exact htype
  | _ => exact (silent_ok UnionType.empty).muted

theorem muted_typeOfExpression (t : Child) :
    Muted r.options (r.typeOfExpression t).run (r.atDefaults.typeOfExpression t).run := by
  cases t with
  | node n => exact r.muted_typeOfNode n
  | leaf l => cases l <;> exact (silent_ok _).muted

/-- A class-name position stands for its name all the same. -/
theorem muted_qualifiedName (n : Node) :
    Muted r.options (r.qualifiedName n).run (r.atDefaults.qualifiedName n).run := by
  unfold qualifiedName
  split
  · exact (r.context.silent_nameOfNode .cls n).muted
  · exact muted_bind_pure (r.muted_typeOfNode n) UnionType.text

theorem muted_qualifiedNames (list : Option Child) :
    Muted r.options (r.qualifiedNames list).run (r.atDefaults.qualifiedNames list).run := by
  match list with
  | some (.node n) =>
    refine muted_mapM ?_ n.present
    intro entry
    cases entry with
    | node m => exact r.muted_qualifiedName m
    | leaf l => exact (silent_ok l.text).muted
  | some (.leaf _) => exact (silent_ok []).muted
  | none => exact (silent_ok []).muted

/-- The name of a variable depends on the bound alone, and one that is too deep is always reported.
    -/
theorem muted_variableNameOrEmpty (t : Child) :
    Muted r.options (r.variableNameOrEmpty t) (r.atDefaults.variableNameOrEmpty t) := by
  -- the bound is the same, and that it was passed is always reported
  have hname : r.atDefaults.variableName t = r.variableName t := rfl
  unfold variableNameOrEmpty
  rw [hname]
  cases r.variableName t with
  | ok name => exact muted_pure name
  | error overrun =>
    refine ⟨rfl, ?_⟩
    show [_] = List.filter r.options.keeps
      [.malformedNameChain r.context.file overrun.line overrun.bound]
    rw [List.filter_singleton, Options.keeps_malformedNameChain]
    rfl

/-- A question has the same answer under both options. -/
theorem muted_answer (q : Question) : Muted r.options (r.answer q) (r.atDefaults.answer q) := by
  cases q with
  | typeOfExpression t => exact (r.muted_typeOfExpression t).bind_pure _
  | typeOfNode n => exact (r.muted_typeOfNode n).bind_pure _
  | typeOfType t => exact (r.context.silent_typeOfType t).muted.bind_pure _
  | variableType n => exact (r.muted_variableType n).bind_pure _
  | qualifiedName n => exact (r.muted_qualifiedName n).bind_pure _
  | qualifiedNames list => exact (r.muted_qualifiedNames list).bind_pure _
  | variableName t => exact muted_pure _
  | variableNameOrEmpty t => exact (r.muted_variableNameOrEmpty t).bind_pure _

end Resolver

/-! ## §4. Operations and runs. -/

/-- What a resolver is asked that its place in the program alone decides. -/
inductive Lookup where
  | typeOfTypeNode (n : Node)
  /-- The full name in a function-name or constant-name position. -/
  | fullName (k : AliasKind) (n : Node)
  | className (rule : ClassRule) (n : Node)

/-- The answer to a lookup, with its record.  A class rule gives a name and reports nothing. -/
def Context.lookUp (c : Context) : Lookup → Logged Answer
  | .typeOfTypeNode n => do return .union (← (c.typeOfTypeNode n).run)
  | .fullName k n => do return .name (← (c.nameOfNode k n).run)
  | .className rule n => return .name (.ok (rule.className c n).value)

/-- Everything that a session is used for. -/
inductive Operation where
  | request (q : Request)
  | lookUp (l : Lookup)

/-- What an operation gives back, and the diagnostics that it takes away. -/
structure Outcome where
  reply : Reply
  removed : List Diagnostic

/-- The answer in a reply.  What is handed over is no answer. -/
def Reply.answer? : Reply → Option Answer
  | answered a => some a
  | taken _ | drained _ => none

namespace Session

/-- Performs an operation. -/
def perform (s : Session) : Operation → Outcome × Session
  | .request q => (⟨(s.serve q).1, s.removedBy q⟩, (s.serve q).2)
  | .lookUp l =>
    let (a, s') := s.run (s.resolver.context.lookUp l)
    (⟨.answered a, []⟩, s')

/-- Performs one operation after the other. -/
def performAll (s : Session) : List Operation → List Outcome × Session
  | [] => ([], s)
  | op :: ops =>
    let (rest, last) := (s.perform op).2.performAll ops
    ((s.perform op).1 :: rest, last)

/-- The answers of a run that begins with a fresh session. -/
def answers (r : Resolver) (ops : List Operation) : List (Option Answer) :=
  ((fresh r).performAll ops).1.map (·.reply.answer?)

/-- The diagnostics that each operation of a run takes away, and last those that are held at its
    end. -/
def batches (r : Resolver) (ops : List Operation) : List (List Diagnostic) :=
  ((fresh r).performAll ops).1.map Outcome.removed ++ [((fresh r).performAll ops).2.pending]

/-- The diagnostics that a run reports, in order. -/
def reported (r : Resolver) (ops : List Operation) : List Diagnostic := (batches r ops).flatten

end Session

/-- What a context answers without a resolver reports nothing. -/
theorem Context.silent_lookUp (c : Context) (l : Lookup) : (c.lookUp l).Silent := by
  cases l with
  | typeOfTypeNode n => exact (c.silent_typeOfTypeNode n).bind fun _ => rfl
  | fullName k n => exact (c.silent_nameOfNode k n).bind fun _ => rfl
  | className rule n => rfl

/-- The same answer, and what is taken away there without what the options do not want. -/
structure Outcome.Muted (o : Options) (x y : Outcome) : Prop where
  answer : x.reply.answer? = y.reply.answer?
  removed : x.removed = y.removed.filter o.keeps

namespace Session

/-- `t` reports as by default in the place of `s`, and `s` holds what it wants of what `t` holds. -/
structure Muted (s t : Session) : Prop where
  resolver : t.resolver = s.resolver.atDefaults
  pending : s.pending = t.pending.filter s.resolver.options.keeps

theorem muted_fresh (r : Resolver) : Muted (fresh r) (fresh r.atDefaults) := ⟨rfl, rfl⟩

/-- What is reported by a computation is held in both sessions. -/
theorem Muted.run {α : Type} {s t : Session} (h : Muted s t) {x y : Logged α}
    (hxy : Logged.Muted s.resolver.options x y) :
    (s.run x).1 = (t.run y).1 ∧ Muted (s.run x).2 (t.run y).2 := by
  refine ⟨hxy.value, h.resolver, ?_⟩
  show s.pending ++ x.diagnostics = (t.pending ++ y.diagnostics).filter s.resolver.options.keeps
  rw [List.filter_append, ← h.pending, ← hxy.diagnostics]

/-- **One operation** keeps the sessions in step. -/
theorem muted_perform {s t : Session} (h : Muted s t) (op : Operation) :
    Outcome.Muted s.resolver.options (s.perform op).1 (t.perform op).1 ∧
      Muted (s.perform op).2 (t.perform op).2 := by
  have hr : t.resolver = s.resolver.atDefaults := h.resolver
  cases op with
  | request q =>
    cases q with
    | ask q =>
      -- what is reported goes behind what is held, in both sessions
      have hq : Logged.Muted s.resolver.options (s.resolver.answer q) (t.resolver.answer q) := by
        rw [hr]
        exact s.resolver.muted_answer q
      obtain ⟨hanswer, hafter⟩ := h.run hq
      exact ⟨⟨congrArg some hanswer, rfl⟩, hafter⟩
    -- what is held goes away as a whole, and nothing is held any more
    | take => exact ⟨⟨rfl, h.pending⟩, hr, rfl⟩
    | drain sink => exact ⟨⟨rfl, h.pending⟩, hr, rfl⟩
  | lookUp l =>
    -- both sessions are in the same place, and a lookup is silent
    have hl : Logged.Muted s.resolver.options (s.resolver.context.lookUp l)
        (t.resolver.context.lookUp l) := by
      rw [hr]
      exact (s.resolver.context.silent_lookUp l).muted
    obtain ⟨hanswer, hafter⟩ := h.run hl
    exact ⟨⟨congrArg some hanswer, rfl⟩, hafter⟩

/-- An operation leaves the resolver alone. -/
theorem perform_resolver (s : Session) (op : Operation) :
    (s.perform op).2.resolver = s.resolver := by
  cases op with
  | request q => exact serve_resolver s q
  | lookUp l => rfl

/-- **A run** keeps the sessions in step. -/
theorem muted_performAll (ops : List Operation) {s t : Session} (h : Muted s t) :
    List.Forall₂ (Outcome.Muted s.resolver.options) (s.performAll ops).1 (t.performAll ops).1 ∧
      Muted (s.performAll ops).2 (t.performAll ops).2 := by
  induction ops generalizing s t with
  | nil => exact ⟨.nil, h⟩
  | cons op ops ih =>
    obtain ⟨houtcome, hafter⟩ := muted_perform h op
    obtain ⟨hrest, hlast⟩ := ih hafter
    -- the options are the same in the session after `op`
    rw [perform_resolver] at hrest
    exact ⟨.cons houtcome hrest, hlast⟩

theorem performAll_resolver (ops : List Operation) (s : Session) :
    (s.performAll ops).2.resolver = s.resolver := by
  induction ops generalizing s with
  | nil => rfl
  | cons op ops ih =>
    show ((s.perform op).2.performAll ops).2.resolver = s.resolver
    rw [ih, perform_resolver]

/-- The answers of a run are those by default, with the same bound. -/
theorem answers_atDefaults (r : Resolver) (ops : List Operation) :
    answers r ops = answers r.atDefaults ops := by
  obtain ⟨houtcomes, -⟩ := muted_performAll ops (muted_fresh r)
  unfold answers
  -- two lists are equal when they are so position by position
  rw [← List.forall₂_eq_eq_eq, List.forall₂_map_left_iff, List.forall₂_map_right_iff]
  exact houtcomes.imp fun _ _ h => h.answer

/-- Each batch has what is wanted of the batch by default. -/
theorem batches_atDefaults (r : Resolver) (ops : List Operation) :
    batches r ops = (batches r.atDefaults ops).map (List.filter r.options.keeps) := by
  obtain ⟨houtcomes, hlast⟩ := muted_performAll ops (muted_fresh r)
  -- batch by batch, from the step that keeps the two sessions alike
  have hremoved : ((fresh r).performAll ops).1.map Outcome.removed =
      (((fresh r.atDefaults).performAll ops).1.map Outcome.removed).map
        (List.filter r.options.keeps) := by
    rw [← List.forall₂_eq_eq_eq, List.map_map, List.forall₂_map_left_iff,
      List.forall₂_map_right_iff]
    exact houtcomes.imp fun _ _ h => h.removed
  have hpending := hlast.pending
  rw [performAll_resolver] at hpending
  -- and what is left over at the end is a batch of its own
  unfold batches
  rw [List.map_append, hremoved, hpending]
  rfl

/-- **Reporting options never change what is resolved**: options with the same bound give the same
    answers in every run.  What is reported under some options, batch by batch and as a whole, is
    what is reported under the defaults without what they do not want. -/
theorem options_decide_reports_only (c : Context) (ops : List Operation) :
    (∀ o p : Options, o.maxNameChain = p.maxNameChain →
      answers ⟨c, o⟩ ops = answers ⟨c, p⟩ ops) ∧
    ∀ o : Options,
      batches ⟨c, o⟩ ops = (batches ⟨c, o.atDefaults⟩ ops).map (List.filter o.keeps) ∧
      reported ⟨c, o⟩ ops = (reported ⟨c, o.atDefaults⟩ ops).filter o.keeps := by
  constructor
  · intro o p hbound
    have hdefaults : o.atDefaults = p.atDefaults := by
      unfold Options.atDefaults
      rw [hbound]
    -- both runs are compared with the same one
    calc answers ⟨c, o⟩ ops
        = answers ⟨c, o.atDefaults⟩ ops := answers_atDefaults ⟨c, o⟩ ops
      _ = answers ⟨c, p.atDefaults⟩ ops := by rw [hdefaults]
      _ = answers ⟨c, p⟩ ops := (answers_atDefaults ⟨c, p⟩ ops).symm
  · intro o
    have hbatches := batches_atDefaults ⟨c, o⟩ ops
    refine ⟨hbatches, ?_⟩
    unfold reported
    rw [hbatches, List.filter_flatten]
    rfl

/-- Of two variables that are not bound one is among the extra names, and with other options none is
    reported. -/
theorem options_decide_reports_only_superglobal :
    ∃ (c : Context) (o p : Options) (ops : List Operation) (d e : Diagnostic),
      o.maxNameChain = p.maxNameChain ∧ answers ⟨c, o⟩ ops = answers ⟨c, p⟩ ops ∧
      reported ⟨c, o.atDefaults⟩ ops = [d, e] ∧ reported ⟨c, o⟩ ops = [e] := by
  let c : Context := .ofFile "a.php"
  let o : Options := { extraSuperglobals := ["config"] }
  let p : Options := { reportUndefined := false }
  let ops : List Operation :=
    [.request (.ask (.typeOfNode (.var "config" 1))), .request .take,
      .request (.ask (.qualifiedName (.var "x" 2))), .request .take]
  obtain ⟨hanswers, hreports⟩ := options_decide_reports_only c ops
  refine ⟨c, o, p, ops, .undefinedVariable "a.php" 1 "config", .undefinedVariable "a.php" 2 "x",
    rfl, hanswers o p rfl, ?_, ?_⟩
  · rfl
  · rw [(hreports o).2]
    rfl

end Session

end PhpNames
