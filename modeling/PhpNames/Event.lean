/-
  PhpNames.Event — what the library tells an observer while it works, and computations that keep
  such a record.

  A diagnostic is reported by an event of its own, so the diagnostics of a computation are a part
  of its record.  A computation that fails keeps the events from before the failure.
-/
import PhpNames.Context.Alias
import PhpNames.Diagnostic
import PhpNames.Resolve.Error

namespace PhpNames

open Text (natText)

/-! ## Events -/

/-- One observation. -/
inductive Event where
  /-- A name is imported as a whole. -/
  | exactAlias (name target : String)
  /-- The first segment of a name is imported. -/
  | segmentAlias (name head target : String)
  /-- A relative name has been given its full form. -/
  | qualified (kind : AliasKind) (name result : String)
  /-- A variable is not bound, but always present. -/
  | unboundSuperglobal (name : String)
  /-- A variable name is nested too deep. -/
  | chainRejected (error : ResolveError)
  /-- A diagnostic is reported. -/
  | reported (d : Diagnostic)
  /-- The declared type of a property replaces another one. -/
  | typeOverwritten (property previous replacement : String)
  /-- A node names a class that is not accepted. -/
  | classRejected (candidate : String) (kind : Kind)
  /-- The receiver of a diagnostic is gone. -/
  | receiverGone (code : UInt32)
  deriving DecidableEq, Repr

/-- How important an event is. -/
inductive Level where
  | trace
  | debug
  | warn
  deriving DecidableEq, Repr

/-- The name of a level. -/
def Level.text : Level → String
  | trace => "TRACE"
  | debug => "DEBUG"
  | warn => "WARN"

namespace Event

/-- The level of an event. -/
def level : Event → Level
  | reported _ => .debug
  | chainRejected _ => .warn
  | receiverGone _ => .warn
  | _ => .trace

/-- The message of an event. -/
def message : Event → String
  | exactAlias .. => "exact alias"
  | segmentAlias .. => "prefix alias"
  | qualified .. => "qualified"
  | unboundSuperglobal _ => "unbound superglobal"
  | chainRejected _ => "variable name chain rejected"
  | reported d => d.message
  | typeOverwritten .. => "declared type overwritten"
  | classRejected .. => "class name rejected"
  | receiverGone _ => "diagnostic receiver dropped"

/-- The particulars of an event, by name. -/
def details : Event → List (String × String)
  | exactAlias name target => [("name", name), ("target", target)]
  | segmentAlias name head target => [("name", name), ("head", head), ("target", target)]
  | qualified kind name result => [("name", name), ("qualified", result), ("kind", kind.text)]
  | unboundSuperglobal name => [("name", name)]
  | chainRejected error => [("err", error.message)]
  | reported d =>
    [("code", natText d.kind.code.toNat), ("file", d.file), ("line", natText d.line.toNat)]
  | typeOverwritten property previous replacement =>
    [("property", property), ("previous", previous), ("replacement", replacement)]
  | classRejected candidate kind => [("candidate", candidate), ("kind", kind.text)]
  | receiverGone code => [("code", natText code.toNat)]

/-- The diagnostic that an event reports. -/
def diagnostic? : Event → Option Diagnostic
  | reported d => some d
  | _ => none

end Event

/-! ## Recorded computations -/

/-- A value and the events on the way to it, in order. -/
structure Logged (α : Type) where
  value : α
  events : List Event

namespace Logged

/-- Computations with the same value and the same record are the same. -/
@[ext] theorem ext {α : Type} {x y : Logged α} (hv : x.value = y.value)
    (he : x.events = y.events) : x = y := by
  cases x; cases y; simp_all

instance : Monad Logged where
  pure a := ⟨a, []⟩
  bind x f :=
    let y := f x.value
    ⟨y.value, x.events ++ y.events⟩

@[simp] theorem value_pure {α : Type} (a : α) : (pure a : Logged α).value = a := rfl

@[simp] theorem events_pure {α : Type} (a : α) : (pure a : Logged α).events = [] := rfl

/-- The value of two computations is that of the second one, which starts from the value of the
    first. -/
@[simp] theorem value_bind {α β : Type} (x : Logged α) (f : α → Logged β) :
    (x >>= f).value = (f x.value).value := rfl

/-- The record of two computations is that of the first followed by that of the second. -/
@[simp] theorem events_bind {α β : Type} (x : Logged α) (f : α → Logged β) :
    (x >>= f).events = x.events ++ (f x.value).events := rfl

instance : LawfulMonad Logged := LawfulMonad.mk' _
  (fun x => by ext1 <;> simp [Functor.map])
  (fun a f => by ext1 <;> simp)
  (fun x f g => by ext1 <;> simp [List.append_assoc])

/-- Records one event. -/
def emit (e : Event) : Logged Unit := ⟨(), [e]⟩

/-- Reports a diagnostic. -/
def report (d : Diagnostic) : Logged Unit := emit (.reported d)

/-- The diagnostics that a computation reports, in order. -/
def diagnostics {α : Type} (x : Logged α) : List Diagnostic :=
  x.events.filterMap Event.diagnostic?

@[simp] theorem diagnostics_pure {α : Type} (a : α) : (pure a : Logged α).diagnostics = [] := rfl

/-- The diagnostics of two computations are those of the first, then those of the second. -/
@[simp] theorem diagnostics_bind {α β : Type} (x : Logged α) (f : α → Logged β) :
    (x >>= f).diagnostics = x.diagnostics ++ (f x.value).diagnostics := by
  simp [diagnostics]

end Logged

/-- A recorded computation that may fail. -/
abbrev Resolution := ExceptT ResolveError Logged

end PhpNames
