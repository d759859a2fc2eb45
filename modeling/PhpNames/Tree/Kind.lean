/-
  PhpNames.Tree.Kind — the kinds of syntax-tree nodes, and what the flag word of a node means for
  some of them: relative names, type keywords and member modifiers.
-/

namespace PhpNames

/-! ## Kinds -/

/-- The kind of a node.  Kinds of which nothing is said here are all `unknown`. -/
inductive Kind where
  /-- A class, function or constant name; the first child is its text. -/
  | name
  /-- A list of names. -/
  | nameList
  /-- A type keyword, given by the flags. -/
  | type
  /-- A type that also admits null; the first child is the type. -/
  | nullableType
  /-- A union; each child is a member type. -/
  | typeUnion
  /-- A variable; the first child is its name or an expression for it. -/
  | var
  /-- A static variable of a function. -/
  | staticVar
  /-- A magic constant. -/
  | magicConst
  | binaryOp
  | new
  | staticCall
  | staticProp
  | classConst
  | instanceOf
  | call
  | methodCall
  | prop
  /-- One property of a declaration; the first child is its name. -/
  | propElem
  | const
  | assign
  | array
  | unknown
  deriving DecidableEq, Repr

namespace Kind

/-- All kinds. -/
def all : List Kind :=
  [name, nameList, type, nullableType, typeUnion, var, staticVar, magicConst, binaryOp, new,
    staticCall, staticProp, classConst, instanceOf, call, methodCall, prop, propElem, const,
    assign, array, unknown]

/-- The written name of a kind. -/
def text : Kind → String
  | name => "name"
  | nameList => "name_list"
  | type => "type"
  | nullableType => "nullable_type"
  | typeUnion => "type_union"
  | var => "var"
  | staticVar => "static_var"
  | magicConst => "magic_const"
  | binaryOp => "binary_op"
  | new => "new"
  | staticCall => "static_call"
  | staticProp => "static_prop"
  | classConst => "class_const"
  | instanceOf => "instance_of"
  | call => "call"
  | methodCall => "method_call"
  | prop => "prop"
  | propElem => "prop_elem"
  | const => "const"
  | assign => "assign"
  | array => "array"
  | unknown => "unknown"

/-- The kind with a written name; every other text is the name of an unknown kind. -/
def ofText (s : String) : Kind :=
  (all.find? fun k => k.text == s).getD unknown

/-- The name of a kind gives the kind. -/
theorem ofText_text (k : Kind) : ofText k.text = k := by
  cases k <;> rfl

/-- The kinds at which the search for a variable's name ends. -/
def isVariableLike : Kind → Bool
  | var | staticVar | magicConst => true
  | _ => false

end Kind

/-! ## Flag words -/

/-- The flag of names that were written without a leading backslash. -/
def relativeFlag : UInt32 := 1

/-- The type keywords by their codes. -/
def typeKeywords : List (UInt32 × String) :=
  [(1, "null"), (2, "false"), (3, "true"), (4, "int"), (5, "float"), (6, "string"), (7, "array"),
    (8, "object"), (12, "callable"), (13, "iterable"), (14, "void"), (15, "static"),
    (16, "mixed"), (17, "never"), (18, "bool")]

/-- The type keyword with a code. -/
def typeKeyword? (code : UInt32) : Option String :=
  typeKeywords.lookup code

/-- A modifier of a class member. -/
inductive Modifier where
  | pub
  | prot
  | priv
  | static
  | final
  | abstract
  | readonly
  deriving DecidableEq, Repr

namespace Modifier

/-- All modifiers, by their bits. -/
def all : List Modifier := [pub, prot, priv, static, final, abstract, readonly]

/-- The flag of a modifier. -/
def bit : Modifier → UInt32
  | pub => 1
  | prot => 2
  | priv => 4
  | static => 16
  | final => 32
  | abstract => 64
  | readonly => 128

/-- The name of a modifier. -/
def text : Modifier → String
  | pub => "PUBLIC"
  | prot => "PROTECTED"
  | priv => "PRIVATE"
  | static => "STATIC"
  | final => "FINAL"
  | abstract => "ABSTRACT"
  | readonly => "READONLY"

/-- Whether a flag word has the modifier. -/
def isSet (m : Modifier) (flags : UInt32) : Bool := flags &&& m.bit != 0

/-- The modifiers of a flag word. -/
def ofFlags (flags : UInt32) : List Modifier := all.filter (·.isSet flags)

/-- The bits of a flag word that mean a modifier. -/
def mask (flags : UInt32) : UInt32 := (ofFlags flags).foldl (fun bits m => bits ||| m.bit) 0

end Modifier

/-- Who may see a class member. -/
inductive Visibility where
  | pub
  | prot
  | priv
  deriving DecidableEq, Repr

namespace Visibility

/-- Private wins over protected; a member with neither is public. -/
def ofFlags (flags : UInt32) : Visibility :=
  if Modifier.priv.isSet flags then priv
  else if Modifier.prot.isSet flags then prot
  else pub

/-- The name of a visibility. -/
def text : Visibility → String
  | pub => "public"
  | prot => "protected"
  | priv => "private"

end Visibility

end PhpNames
