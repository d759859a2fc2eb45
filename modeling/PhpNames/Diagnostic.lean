/-
  PhpNames.Diagnostic — what is reported about a program.

  Each kind of diagnostic has a code, a category and a message template, which the arguments of
  the diagnostic fill.
-/
import PhpNames.Text.Template

namespace PhpNames

/-- How serious a diagnostic is. -/
inductive Category where
  | warning
  | error
  deriving DecidableEq, Repr

namespace Category

/-- The name of a category. -/
def text : Category → String
  | warning => "Warning"
  | error => "Error"

/-- The number of a category. -/
def number : Category → Nat
  | warning => 0
  | error => 1

end Category

/-- What a diagnostic is about. -/
inductive DiagnosticKind where
  /-- A variable that is neither bound nor always present. -/
  | undefinedVariable
  /-- A variable name that is nested too deep. -/
  | malformedNameChain
  deriving DecidableEq, Repr

namespace DiagnosticKind

/-- All kinds. -/
def all : List DiagnosticKind := [undefinedVariable, malformedNameChain]

/-- The name of a kind. -/
def text : DiagnosticKind → String
  | undefinedVariable => "UndefinedVariable"
  | malformedNameChain => "MalformedNameChain"

/-- The code of a kind. -/
def code : DiagnosticKind → UInt32
  | undefinedVariable => 1001
  | malformedNameChain => 1002

/-- The category of a kind. -/
def category : DiagnosticKind → Category
  | undefinedVariable => .warning
  | malformedNameChain => .error

/-- The message template of a kind. -/
def template : DiagnosticKind → String
  | undefinedVariable => "Variable $\x7b0\x7d is undeclared"
  | malformedNameChain => "Variable name chain exceeds \x7b0\x7d nested nodes"

/-- The kind with a name. -/
def ofText? (s : String) : Option DiagnosticKind := all.find? fun k => k.text == s

/-- The kind with a code. -/
def ofCode? (code : UInt32) : Option DiagnosticKind := all.find? fun k => k.code == code

end DiagnosticKind

/-- A diagnostic: its kind, its place and its message. -/
structure Diagnostic where
  kind : DiagnosticKind
  file : String
  line : UInt32
  message : String
  deriving DecidableEq, Repr

namespace Diagnostic

/-- A diagnostic whose message is the kind's template, filled. -/
def ofArgs (kind : DiagnosticKind) (file : String) (line : UInt32) (args : List String) :
    Diagnostic :=
  ⟨kind, file, line, Text.fill kind.template args⟩

/-- The diagnostic for a variable that is not declared. -/
def undefinedVariable (file : String) (line : UInt32) (name : String) : Diagnostic :=
  ofArgs .undefinedVariable file line [name]

/-- The diagnostic for a variable name nested deeper than `bound` nodes. -/
def malformedNameChain (file : String) (line : UInt32) (bound : Nat) : Diagnostic :=
  ofArgs .malformedNameChain file line [Text.natText bound]

example : (undefinedVariable "a.php" 3 "x").message = "Variable $x is undeclared" := by
  decide +kernel

end Diagnostic

end PhpNames
