/-
  PhpNames.ClassName — the class that a node refers to.

  A class rule says which name a node gives for a class, and under which spelling a name is
  accepted.  The usual rule looks for a name node in the place that the node's kind provides, and
  accepts the classes that are known.
-/
import PhpNames.Resolve.Names
import PhpNames.Text.Letters

namespace PhpNames

/-! ## Known classes -/

/-- The declared classes: the spelling of each, by its name in small letters. -/
structure KnownClasses where
  spellings : Std.ExtTreeMap String String := ∅

namespace KnownClasses

/-- A class name without the blanks around it and with exactly one separator in front. -/
def rooted (name : String) : String :=
  String.ofList (separator :: (Text.trim name).toList.dropWhile (· == separator))

/-- What names of one class have in common. -/
def key (name : String) : String := Text.lower (rooted name)

/-- No class is known. -/
def empty : KnownClasses := {}

/-- Declares a class; a later spelling of the same class replaces an earlier one. -/
def insert (known : KnownClasses) (name : String) : KnownClasses :=
  ⟨known.spellings.insert (key name) (rooted name)⟩

/-- The classes with the given names. -/
def ofList (names : List String) : KnownClasses := names.foldl insert empty

/-- The declared spelling of a class. -/
def spelling? (known : KnownClasses) (name : String) : Option String :=
  known.spellings[key name]?

/-- Whether a class is known. -/
def contains (known : KnownClasses) (name : String) : Bool := (known.spelling? name).isSome

/-- The number of known classes. -/
def size (known : KnownClasses) : Nat := known.spellings.size

theorem spelling?_empty (name : String) : empty.spelling? name = none := by
  simp [empty, spelling?]

/-- A declaration changes the spelling of the names with its own key, and of no others. -/
theorem spelling?_insert (known : KnownClasses) (declared name : String) :
    (known.insert declared).spelling? name =
      if key declared = key name then some (rooted declared) else known.spelling? name := by
  simp [insert, spelling?, Std.ExtTreeMap.getElem?_insert]

example : rooted " \\\\App\\X" = "\\App\\X" := by decide +kernel

end KnownClasses

/-! ## Class rules -/

/-- How nodes refer to classes. -/
structure ClassRule where
  /-- The class name a node gives, if it can give one. -/
  candidate : Context → Node → Logged (Option String)
  /-- The spelling under which a name is accepted. -/
  accept : Context → String → Option String

namespace ClassRule

/-- The class a node refers to, or the empty text. -/
def className (rule : ClassRule) (c : Context) (n : Node) : Logged String := do
  match ← rule.candidate c n with
  | none => return ""
  | some name =>
    if name = "" then return ""
    else
      match rule.accept c name with
      | some spelling => return spelling
      | none => do
        Logged.emit (.classRejected name n.kind)
        return ""

end ClassRule

/-! ## The usual rule -/

/-- The node in the place where a node of its kind names a class. -/
def Node.classNode? (n : Node) : Option Node :=
  match n.kind with
  | .new | .staticCall | .staticProp | .classConst => n.childNode? 0
  | .instanceOf => n.childNode? 1
  | .name => some n
  | _ => none

/-- The class that a name node names.  A relative `self` or `static` is the enclosing class; what a
    relative `parent` is cannot be told here. -/
def Context.classOfName (c : Context) (n : Node) : Logged (Option String) :=
  if n.kind ≠ .name then return none
  else
    match n.childText? 0 with
    | none => return none
    | some name =>
      if !n.isRelative then return some name
      else if Text.lower name = "self" ∨ Text.lower name = "static" then
        return c.enclosingClass
      else if Text.lower name = "parent" then return none
      else do return some (← c.qualifyLogged .cls name)

/-- The class name in the place that a node's kind provides. -/
def Context.classCandidate (c : Context) (n : Node) : Logged (Option String) :=
  match n.classNode? with
  | none => return none
  | some m => c.classOfName m

/-- Accepts the known classes, under their declared spelling. -/
def KnownClasses.rule (known : KnownClasses) : ClassRule where
  candidate := Context.classCandidate
  accept _ name := known.spelling? name

end PhpNames
