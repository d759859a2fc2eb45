/-
  PhpNames.Json.Value — JSON values and the tokens they are written with.

  A value is written by the characters of its tokens, without blanks, so reading it back splits
  into recognising tokens and putting them together.
-/
import PhpNames.Json.Number

namespace PhpNames.Json

/-- A JSON value.  The members of an object keep their order and may repeat a key. -/
inductive Value where
  | null
  | bool (b : Bool)
  | num (n : Number)
  | str (s : String)
  | arr (items : List Value)
  | obj (members : List (String × Value))
  deriving Inhabited, Repr

/-- The integer `i` as a value. -/
abbrev Value.int (i : Int) : Value := .num (.int i)

/-! ## Tokens -/

/-- The two kinds of bracket: `[` `]` around arrays, `{` `}` around objects. -/
inductive Bracket where
  | square
  | curly
  deriving DecidableEq, Repr

/-- One token of a JSON text.  A text or number is `none` where its characters are well formed but
    stand for no value: an unpaired surrogate, a number beyond the doubles. -/
inductive Token where
  | opening (b : Bracket)
  | closing (b : Bracket)
  | comma
  | colon
  | null
  | bool (b : Bool)
  | number (n : Option Number)
  | text (s : Option String)
  deriving Repr

mutual

/-- The tokens of a value. -/
def Value.tokens : Value → List Token
  | .null => [.null]
  | .bool b => [.bool b]
  | .num n => [.number (some n)]
  | .str s => [.text (some s)]
  | .arr vs => .opening .square :: (itemTokens vs ++ [.closing .square])
  | .obj ms => .opening .curly :: (memberTokens ms ++ [.closing .curly])

/-- The tokens of array items, with commas between them. -/
def itemTokens : List Value → List Token
  | [] => []
  | [v] => v.tokens
  | v :: vs => v.tokens ++ .comma :: itemTokens vs

/-- The tokens of object members, with commas between them. -/
def memberTokens : List (String × Value) → List Token
  | [] => []
  | [(k, v)] => .text (some k) :: .colon :: v.tokens
  | (k, v) :: ms => .text (some k) :: .colon :: (v.tokens ++ .comma :: memberTokens ms)

end

/-! ## Writing -/

/-- A hexadecimal digit, in small letters. -/
def hexDigit (n : Nat) : Char :=
  if n < 10 then Char.ofNat ('0'.toNat + n) else Char.ofNat ('a'.toNat + (n - 10))

/-- A character inside a quoted text: quotes, backslashes and control characters are escaped,
    everything else stands for itself. -/
def escape (c : Char) : List Char :=
  if c = '"' then ['\\', '"']
  else if c = '\\' then ['\\', '\\']
  else if c = '\x08' then ['\\', 'b']
  else if c = '\x0c' then ['\\', 'f']
  else if c = '\n' then ['\\', 'n']
  else if c = '\r' then ['\\', 'r']
  else if c = '\t' then ['\\', 't']
  else if c.toNat < 0x20 then
    ['\\', 'u', '0', '0', hexDigit (c.toNat / 16), hexDigit (c.toNat % 16)]
  else [c]

/-- A text in quotes. -/
def quote (s : String) : List Char :=
  '"' :: (s.toList.flatMap escape ++ ['"'])

/-- The characters of a token. -/
def Token.chars : Token → List Char
  | .opening .square => ['[']
  | .opening .curly => ['\x7b']
  | .closing .square => [']']
  | .closing .curly => ['\x7d']
  | .comma => [',']
  | .colon => [':']
  | .null => "null".toList
  | .bool true => "true".toList
  | .bool false => "false".toList
  | .number n => (n.map Number.chars).getD []
  | .text s => (s.map quote).getD []

/-- The text of a value, without blanks. -/
def Value.write (v : Value) : String :=
  String.ofList (v.tokens.flatMap Token.chars)

example : (Value.arr [.int (-3), .str "a\"\n\x01", .obj [("k", .null)]]).write =
    "[-3,\"a\\\"\\n\\u0001\",\x7b\"k\":null\x7d]" := by decide +kernel

end PhpNames.Json
