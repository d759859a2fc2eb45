/-
  PhpNames.Proofs.Property.DeclaredType — the declared type of a property, call after call.

  A property is changed in place: its type is set, or resolved from what stands in a type position.
  A call that fails may leave a part of its work behind.  This one does not, since it looks the
  type up first and writes last (`exec_resolveAndDeclare`), so that

      what a call leaves   =   the property, with what the call writes if it writes anything

  (`value_perform`).  Over any number of calls the slot holds what was written last, and everything
  else is as it was (`after_eq`).
-/
import Mathlib.Data.List.Induction
import PhpNames.Proofs.Resolve.History
import PhpNames.Proofs.Resolve.Silent
import PhpNames.Property

namespace PhpNames.Property

/-! ## §1. Changes in place. -/

/-- A computation on a property in place.  What it has changed stays changed when it fails. -/
abbrev InPlace := ExceptT ResolveError (StateT Property Logged)

namespace InPlace

variable {α β : Type}

/-- The outcome of a computation on a property, and the property afterwards. -/
def exec (x : InPlace α) (p : Property) : Logged (Except ResolveError α × Property) := x.run.run p

/-- Finds something out that the property decides. -/
def consult (x : Property → Resolution α) : InPlace α :=
  ExceptT.mk fun p => do return (← (x p).run, p)

/-- Changes the property. -/
def change (f : Property → Logged Property) : InPlace Unit :=
  ExceptT.mk fun p => do return (.ok (), ← f p)

/-- What follows works on the property as it has been left, unless there was a failure. -/
theorem exec_bind (x : InPlace α) (f : α → InPlace β) (p : Property) :
    (x >>= f).exec p = do
      match ← x.exec p with
      | (.ok a, q) => (f a).exec q
      | (.error e, q) => return (.error e, q) := by
  unfold exec
  rw [ExceptT.run_bind, StateT.run_bind]
  congr 1
  funext result
  obtain ⟨outcome, q⟩ := result
  cases outcome <;> rfl

/-- Finding something out leaves the property as it is. -/
theorem exec_consult (x : Property → Resolution α) (p : Property) :
    (consult x).exec p = do return (← (x p).run, p) := rfl

end InPlace

/-! ## §2. Calls. -/

/-- Sets the declared type in place. -/
def declare (u : UnionType) : InPlace Unit := .change (·.setDeclared u)

/-- Resolves the declared type in place. -/
def resolveAndDeclare : Option Child → InPlace Unit
  | none => return ()
  | some t => do
    let u ← InPlace.consult (·.context.typeOfType t)
    declare u

/-- In place it is the same: a property that is resolved anew takes the place of the old one, and
    a failure leaves that one there. -/
theorem exec_resolveAndDeclare (p : Property) (t : Option Child) :
    (resolveAndDeclare t).exec p = do
      match ← (p.resolveDeclared t).run with
      | .ok q => return (.ok (), q)
      | .error e => return (.error e, p) := by
  cases t with
  | none => rfl
  | some t =>
    unfold resolveAndDeclare resolveDeclared
    rw [InPlace.exec_bind, InPlace.exec_consult, ExceptT.run_bind]
    simp only [bind_assoc, pure_bind]
    congr 1
    funext outcome
    cases outcome with
    | ok u => exact Logged.ext rfl (List.append_nil _).symm
    | error e => rfl

/-- What may be done about the declared type. -/
inductive Call where
  | set (u : UnionType)
  /-- Resolve what stands in a type position, if anything does. -/
  | resolve (t : Option Child)

/-- Makes a call. -/
def perform (p : Property) : Call → Logged (Except ResolveError Unit × Property)
  | .set u => (declare u).exec p
  | .resolve t => (resolveAndDeclare t).exec p

/-- The property after a sequence of calls, whether they fail or not. -/
def after (p : Property) (calls : List Call) : Property :=
  calls.foldl (fun q call => (q.perform call).value.2) p

namespace Call

/-- What a call writes into a property in a context: none if there is no type, or no union that it
    stands for. -/
def written? (c : Context) : Call → Option UnionType
  | set u => some u
  | resolve none => none
  | resolve (some t) => (c.typeOfType t).run.value.toOption

end Call

/-! ## §3. One call. -/

/-- The resolved type is what the context says of the type position, and it is stored. -/
theorem value_resolveDeclared (p : Property) (t : Child) :
    (p.resolveDeclared (some t)).run.value =
      (p.context.typeOfType t).run.value.map fun u => { p with declared := some u } := by
  show (p.context.typeOfType t >>= fun u => liftM (p.setDeclared u) :
    Resolution Property).run.value = _
  rw [ExceptT.run_bind, Logged.value_bind]
  cases (p.context.typeOfType t).run.value with
  | ok u => rfl
  | error e => rfl

/-- Resolving a type position writes its type, or fails as the type does. -/
theorem value_perform_resolve (p : Property) (t : Child) :
    (p.perform (.resolve (some t))).value =
      match (p.context.typeOfType t).run.value with
      | .ok u => (.ok (), { p with declared := some u })
      | .error e => (.error e, p) := by
  show ((resolveAndDeclare (some t)).exec p).value = _
  rw [exec_resolveAndDeclare, Logged.value_bind, value_resolveDeclared]
  cases (p.context.typeOfType t).run.value with
  | ok u => rfl
  | error e => rfl

/-- **One call** writes its union, if it has one, and leaves everything else alone. -/
theorem value_perform (p : Property) (call : Call) :
    (p.perform call).value.2 =
      { p with declared := (call.written? p.context).or p.declared } := by
  cases call with
  | set u => rfl
  | resolve t =>
    cases t with
    | none => rfl
    | some t =>
      rw [value_perform_resolve]
      show _ = { p with declared := (p.context.typeOfType t).run.value.toOption.or p.declared }
      cases (p.context.typeOfType t).run.value with
      | ok u => rfl
      | error e => rfl

/-- A call without a type, or one that fails, changes nothing. -/
theorem perform_unchanged {p : Property} {call : Call}
    (h : call = .resolve none ∨ (p.perform call).value.1 ≠ .ok ()) :
    (p.perform call).value.2 = p := by
  cases call with
  | set u =>
    -- a type that is given is always set
    rcases h with h | h
    · cases h
    · exact absurd rfl h
  | resolve t =>
    cases t with
    | none => rfl
    | some t =>
      rw [value_perform_resolve] at h ⊢
      cases hv : (p.context.typeOfType t).run.value with
      | ok u => simp [hv] at h
      | error e => rfl

/-- Setting a type reports nothing. -/
theorem silent_setDeclared (p : Property) (u : UnionType) : (p.setDeclared u).Silent := by
  unfold setDeclared
  cases p.declared <;> rfl

/-- Resolving a type reports nothing, whether it fails or not. -/
theorem silent_resolveDeclared (p : Property) (t : Option Child) :
    (p.resolveDeclared t).run.Silent := by
  cases t with
  | none => rfl
  | some t =>
    refine Resolution.silent_bind (p.context.silent_typeOfType t) ?_
    intro u
    exact (p.silent_setDeclared u).bind fun _ => rfl

/-- No call reports anything. -/
theorem silent_perform (p : Property) (call : Call) : (p.perform call).Silent := by
  cases call with
  | set u => exact (p.silent_setDeclared u).bind fun _ => rfl
  | resolve t =>
    show ((resolveAndDeclare t).exec p).Silent
    rw [exec_resolveAndDeclare]
    refine (p.silent_resolveDeclared t).bind ?_
    intro outcome
    cases outcome <;> rfl

/-! ## §4. Any number of calls. -/

theorem after_concat (p : Property) (calls : List Call) (call : Call) :
    p.after (calls ++ [call]) = ((p.after calls).perform call).value.2 := List.foldl_concat ..

/-- **A run of calls** leaves what the last one of them has written that has written anything. -/
theorem after_eq (p : Property) (calls : List Call) :
    p.after calls =
      { p with
        declared := (calls.filterMap (Call.written? p.context)).getLast?.or p.declared } := by
  induction calls using List.reverseRecOn with
  | nil => rfl
  | append_singleton calls call ih =>
    -- the context is the same for every call
    rw [after_concat, value_perform, ih, List.filterMap_append, List.getLast?_append]
    cases hwritten : call.written? p.context with
    | none => simp [hwritten]
    | some u => simp [hwritten]

/-- What a resolver answers about a type position depends on its place alone. -/
theorem reply_typeOfType (s : Session) (t : Child) :
    (s.serve (.ask (.typeOfType t))).1 =
      .answered (.union (s.resolver.context.typeOfType t).run.value) := rfl

/-- A fresh session holds nothing after it was asked about a type position. -/
theorem pending_typeOfType (r : Resolver) (t : Child) :
    ((Session.fresh r).serve (.ask (.typeOfType t))).2.pending = [] := by
  have hsilent : (r.answer (.typeOfType t)).Silent :=
    (r.context.silent_typeOfType t).bind fun _ => rfl
  rw [Session.serve_fresh]
  exact hsilent

/-- **The slot for the declared type** of any property, whatever has been done to it before.  A call
    sets the type, or it resolves it and puts the property with the resolved type in the place of
    this one, if there is no failure.  After a sequence of calls the slot holds what the last call
    has written that has written anything; it is not set if it was not set and none has; and the
    rest of the property is untouched.  A call without a type, or one that fails, leaves the
    property as it is.  What stands in a type position is resolved as by any resolver in the place
    of the property, whatever its options and whatever it holds, and no diagnostic comes up on the
    way. -/
theorem declared_over_calls (p : Property) :
    (∀ u : UnionType, p.perform (.set u) = do return (.ok (), ← p.setDeclared u)) ∧
    (∀ t : Option Child, p.perform (.resolve t) = do
      match ← (p.resolveDeclared t).run with
      | .ok q => return (.ok (), q)
      | .error e => return (.error e, p)) ∧
    (∀ calls : List Call,
      p.after calls =
        { p with
          declared := (calls.filterMap (Call.written? p.context)).getLast?.or p.declared } ∧
      ((p.after calls).declared = none ↔
        p.declared = none ∧ ∀ call ∈ calls, call.written? p.context = none)) ∧
    (∀ call : Call,
      (call = .resolve none ∨ (p.perform call).value.1 ≠ .ok ()) →
      (p.perform call).value.2 = p) ∧
    (∀ (t : Child) (s : Session), s.resolver.context = p.context →
      ∃ outcome : Except ResolveError UnionType,
        (s.serve (.ask (.typeOfType t))).1 = .answered (.union outcome) ∧
        (p.perform (.resolve (some t))).value =
          match outcome with
          | .ok u => (.ok (), { p with declared := some u })
          | .error e => (.error e, p)) ∧
    (∀ (t : Child) (o : Options),
      ((Session.fresh ⟨p.context, o⟩).serve (.ask (.typeOfType t))).2.pending = []) ∧
    ∀ call : Call, (p.perform call).diagnostics = [] := by
  refine ⟨fun _ => rfl, p.exec_resolveAndDeclare, ?_, ?_, ?_, ?_, ?_⟩
  · intro calls
    have hafter := p.after_eq calls
    refine ⟨hafter, ?_⟩
    rw [hafter]
    show Option.or _ p.declared = none ↔ _
    rw [Option.or_eq_none_iff, List.getLast?_eq_none_iff, List.filterMap_eq_nil_iff, and_comm]
  · intro call hcall
    exact perform_unchanged hcall
  · intro t s hs
    refine ⟨_, reply_typeOfType s t, ?_⟩
    rw [value_perform_resolve, hs]
  · intro t o
    exact pending_typeOfType ⟨p.context, o⟩ t
  · intro call
    exact p.silent_perform call

/-- A fault below other nodes comes after a type that can be resolved, and nothing is kept of it. -/
theorem declared_over_calls_fault :
    ∃ (p q : Property) (good bad : Child) (s : Session) (u : UnionType) (e : ResolveError),
      p.after [.resolve (some bad), .resolve none, .resolve (some good), .resolve (some bad)] = q ∧
      q.declared = some u ∧ u.text = "?\\Carbon\\Carbon" ∧
      (q.perform (.resolve (some bad))).value = (.error e, q) ∧ e.line = 2 ∧
      (q.perform (.resolve none)).value.2 = q ∧ s.resolver.context = q.context ∧
      (s.serve (.ask (.typeOfType bad))).1 = .answered (.union (.error e)) := by
  let c : Context :=
    ((Context.ofFile "a.php").withNamespace "App").withAlias .cls "Carbon" "\\Carbon\\Carbon"
  let p : Property := ⟨"at", c, 0, none⟩
  let good : Child := .node ⟨.nullableType, 0, 1, [some (.node (.ofName "Carbon" 1 1))]⟩
  let bad : Child := .node ⟨.typeUnion, 0, 1, [some good, none, some (.node (.ofKeyword 4242 2))]⟩
  let calls : List Call :=
    [.resolve (some bad), .resolve none, .resolve (some good), .resolve (some bad)]
  let s : Session := ⟨⟨c, { reportUndefined := false }⟩, [.undefinedVariable "b.php" 1 "x"]⟩
  let u : UnionType := .ofText "?\\Carbon\\Carbon"
  let e : ResolveError := .unknownKeyword 4242 2
  have hgood : (c.typeOfType good).run.value = .ok u := by decide +kernel
  have hbad : (c.typeOfType bad).run.value = .error e := by decide +kernel
  have hwritten : calls.filterMap (Call.written? c) = [u] := by
    have hwgood : Call.written? c (.resolve (some good)) = some u := congrArg Except.toOption hgood
    have hwbad : Call.written? c (.resolve (some bad)) = none := congrArg Except.toOption hbad
    have hwnone : Call.written? c (.resolve none) = none := rfl
    simp only [calls, List.filterMap_cons, hwgood, hwbad, hwnone, List.filterMap_nil]
  obtain ⟨-, -, hcalls, -⟩ := p.declared_over_calls
  have hafter : p.after calls = { p with declared := some u } := by
    rw [(hcalls calls).1, hwritten]
    rfl
  obtain ⟨-, -, -, hunchanged, hresolve, -⟩ := declared_over_calls { p with declared := some u }
  obtain ⟨outcome, hanswer, hvalue⟩ := hresolve bad s rfl
  obtain rfl : outcome = .error e := by
    rw [reply_typeOfType] at hanswer
    injection hanswer with hanswer
    injection hanswer with hanswer
    exact hanswer.symm.trans hbad
  exact ⟨p, _, good, bad, s, u, e, hafter, rfl, by decide +kernel, hvalue, rfl,
    hunchanged (.resolve none) (Or.inl rfl), rfl, hanswer⟩

end PhpNames.Property
