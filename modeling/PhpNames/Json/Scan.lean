/-
  PhpNames.Json.Scan — from the characters of a JSON text to its tokens.

  Scanning is one pass over the characters: each takes the scanner from mode to mode and may
  complete a token.  Numbers and words are maximal runs of the characters they can be made of, so
  they end where another kind of character, or nothing, follows.
-/
import PhpNames.Json.Value

namespace PhpNames.Json

/-! ## Quoted texts -/

/-- A piece of a quoted text: a character, or a 16-bit code unit written in hexadecimal. -/
inductive Piece where
  | char (c : Char)
  | unit (n : Nat)
  deriving DecidableEq, Repr

/-- The first of a pair of code units for one character. -/
def isHighSurrogate (n : Nat) : Bool := 0xD800 ≤ n && n < 0xDC00

/-- The second of a pair of code units for one character. -/
def isLowSurrogate (n : Nat) : Bool := 0xDC00 ≤ n && n < 0xE000

/-- The characters that pieces stand for; `none` when a surrogate is not paired. -/
def decodePieces? : List Piece → Option (List Char)
  | [] => some []
  | .char c :: ps => (decodePieces? ps).map (c :: ·)
  | [.unit n] =>
    if isHighSurrogate n || isLowSurrogate n then none else some [Char.ofNat n]
  | .unit n :: .char c :: ps =>
    if isHighSurrogate n || isLowSurrogate n then none
    else (decodePieces? ps).map (Char.ofNat n :: c :: ·)
  | .unit n :: .unit m :: ps =>
    if isHighSurrogate n then
      if isLowSurrogate m then
        (decodePieces? ps).map
          (Char.ofNat (0x10000 + (n - 0xD800) * 0x400 + (m - 0xDC00)) :: ·)
      else none
    else if isLowSurrogate n then none
    else (decodePieces? (.unit m :: ps)).map (Char.ofNat n :: ·)

/-- The character that a letter after a backslash stands for. -/
def unescape? : Char → Option Char
  | '"' => some '"'
  | '\\' => some '\\'
  | '/' => some '/'
  | 'b' => some '\x08'
  | 'f' => some '\x0c'
  | 'n' => some '\n'
  | 'r' => some '\r'
  | 't' => some '\t'
  | _ => none

/-- The value of a hexadecimal digit. -/
def hexValue? (c : Char) : Option Nat :=
  if c.isDigit then some (c.toNat - '0'.toNat)
  else if 'a' ≤ c ∧ c ≤ 'f' then some (c.toNat - 'a'.toNat + 10)
  else if 'A' ≤ c ∧ c ≤ 'F' then some (c.toNat - 'A'.toNat + 10)
  else none

/-! ## The scanner -/

/-- What the scanner is in the middle of; what it holds comes last character first. -/
inductive Mode where
  | between
  | quoted (done : List Piece)
  | escaped (done : List Piece)
  | hex (done : List Piece) (digits : List Nat)
  | number (done : List Char)
  | word (done : List Char)
  deriving Repr

/-- A scanner: its mode, and the tokens completed so far, the last one first. -/
structure Scanner where
  mode : Mode
  out : List Token
  deriving Repr

/-- The only blanks between tokens. -/
def isJsonBlank (c : Char) : Bool :=
  c == ' ' || c == '\t' || c == '\n' || c == '\r'

/-- The characters that numbers are made of. -/
def isNumberChar (c : Char) : Bool :=
  c.isDigit || c == '-' || c == '+' || c == '.' || c == 'e' || c == 'E'

/-- The token of a run of number characters. -/
def numberToken? (done : List Char) : Option Token :=
  (Literal.ofChars? done.reverse).map fun l => .number l.number?

/-- The token of a run of small letters. -/
def wordToken? (done : List Char) : Option Token :=
  if done.reverse = "null".toList then some .null
  else if done.reverse = "true".toList then some (.bool true)
  else if done.reverse = "false".toList then some (.bool false)
  else none

/-- The token of the pieces of a quoted text. -/
def textToken (done : List Piece) : Token :=
  .text ((decodePieces? done.reverse).map String.ofList)

/-- What a character does that stands between tokens. -/
def startToken? (out : List Token) (c : Char) : Option Scanner :=
  if isJsonBlank c then some ⟨.between, out⟩
  else if c = '[' then some ⟨.between, .opening .square :: out⟩
  else if c = ']' then some ⟨.between, .closing .square :: out⟩
  else if c = '\x7b' then some ⟨.between, .opening .curly :: out⟩
  else if c = '\x7d' then some ⟨.between, .closing .curly :: out⟩
  else if c = ',' then some ⟨.between, .comma :: out⟩
  else if c = ':' then some ⟨.between, .colon :: out⟩
  else if c = '"' then some ⟨.quoted [], out⟩
  else if c.isDigit || c == '-' then some ⟨.number [c], out⟩
  else if c.isLower then some ⟨.word [c], out⟩
  else none

/-- One character. -/
def Scanner.step (s : Scanner) (c : Char) : Option Scanner :=
  match s.mode with
  | .between => startToken? s.out c
  | .quoted done =>
    if c = '"' then some ⟨.between, textToken done :: s.out⟩
    else if c = '\\' then some ⟨.escaped done, s.out⟩
    else if c.toNat < 0x20 then none
    else some ⟨.quoted (.char c :: done), s.out⟩
  | .escaped done =>
    if c = 'u' then some ⟨.hex done [], s.out⟩
    else (unescape? c).map fun e => ⟨.quoted (.char e :: done), s.out⟩
  | .hex done digits => do
    match digits ++ [← hexValue? c] with
    | [a, b, c, d] =>
      return ⟨.quoted (.unit (((a * 16 + b) * 16 + c) * 16 + d) :: done), s.out⟩
    | digits => return ⟨.hex done digits, s.out⟩
  | .number done =>
    if isNumberChar c then some ⟨.number (c :: done), s.out⟩
    else do startToken? ((← numberToken? done) :: s.out) c
  | .word done =>
    if c.isLower then some ⟨.word (c :: done), s.out⟩
    else do startToken? ((← wordToken? done) :: s.out) c

/-- The tokens at the end of the text, in order; `none` inside a quoted text. -/
def Scanner.finish (s : Scanner) : Option (List Token) :=
  match s.mode with
  | .between => some s.out.reverse
  | .number done => (numberToken? done).map fun t => (t :: s.out).reverse
  | .word done => (wordToken? done).map fun t => (t :: s.out).reverse
  | _ => none

/-- The tokens of a text; `none` when some part of it is no token. -/
def scan? (cs : List Char) : Option (List Token) := do
  (← cs.foldlM Scanner.step ⟨.between, []⟩).finish

end PhpNames.Json
