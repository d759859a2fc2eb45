/-
  PhpNames.LogSettings — which events are shown, and how, as two settings of the environment say.
-/
import PhpNames.Text.Letters
import PhpNames.Text.Trim

namespace PhpNames

/-- How events are laid out. -/
inductive LogLayout where
  | text
  | tree
  | json
  deriving DecidableEq, Repr

namespace LogLayout

/-- The name of a layout. -/
def name : LogLayout → String
  | text => "Text"
  | tree => "Tree"
  | json => "Json"

/-- The layout that a setting asks for; flat text unless it names another one. -/
def ofText (setting : String) : LogLayout :=
  let s := Text.lower (Text.trim setting)
  if s = "tree" then tree else if s = "json" then json else text

end LogLayout

/-- The filter for events, and their layout.  Without a filter nothing is shown. -/
structure LogSettings where
  directives : Option String := none
  layout : LogLayout := .text
  deriving DecidableEq, Repr

namespace LogSettings

/-- The settings for the values of three variables: the filter of this library, the general filter
    that it falls back to, and the layout. -/
def ofVariables (own general layout : Option String) : LogSettings where
  directives := own.or general
  layout := (layout.map LogLayout.ofText).getD .text

/-- Whether anything is shown. -/
def isEnabled (s : LogSettings) : Bool := s.directives.isSome

end LogSettings

end PhpNames
