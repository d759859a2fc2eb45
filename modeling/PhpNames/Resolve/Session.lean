/-
  PhpNames.Resolve.Session — several computations in one place of a program.  Their diagnostics are
  held, oldest first, until the caller takes them or has them sent to a sink.
-/
import PhpNames.Resolve.Expressions

namespace PhpNames

/-- Where diagnostics are sent: to a receiver, or to one that is gone. -/
inductive Sink where
  | receiving (received : List Diagnostic)
  | gone
  deriving DecidableEq, Repr

namespace Sink

/-- Sends a diagnostic; it is lost when the receiver is gone. -/
def send : Sink → Diagnostic → Logged Sink
  | receiving ds, d => return receiving (ds ++ [d])
  | gone, d => do
    Logged.emit (.receiverGone d.kind.code)
    return gone

/-- What has been received. -/
def received : Sink → List Diagnostic
  | receiving ds => ds
  | gone => []

end Sink

/-- A resolver and the diagnostics it holds. -/
structure Session where
  resolver : Resolver
  pending : List Diagnostic := []

namespace Session

/-- Runs a computation and holds the diagnostics it reports. -/
def run {α : Type} (s : Session) (x : Logged α) : α × Session :=
  (x.value, { s with pending := s.pending ++ x.diagnostics })

/-- Hands the diagnostics over. -/
def take (s : Session) : List Diagnostic × Session :=
  (s.pending, { s with pending := [] })

/-- Sends the diagnostics to a sink, oldest first. -/
def drain (s : Session) (sink : Sink) : Logged (Sink × Session) := do
  let sink ← s.pending.foldlM Sink.send sink
  return (sink, { s with pending := [] })

end Session

end PhpNames
