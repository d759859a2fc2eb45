/-
  PhpNames.Json.Number — numbers of JSON texts: reading a literal, and writing a number.

  A literal without fraction and exponent that fits a 64-bit word, signed or unsigned, is an exact
  integer.  Every other literal is a double, computed from a significand of one unsigned word and
  a power of ten with one rounding each; a literal beyond the largest double has no value.
-/
import PhpNames.Decimal.Layout

namespace PhpNames.Json

/-- A number: an integer in the range of a 64-bit word, signed or unsigned, or a double. -/
inductive Number where
  | int (i : Int)
  | float (f : Float)
  deriving Repr

/-! ## Literals -/

/-- A number as it is written: its digits before and after the point, and the power of ten. -/
structure Literal where
  negative : Bool
  whole : List Nat
  fraction : Option (List Nat)
  exponent : Option Int
  deriving DecidableEq, Repr

/-- The values of decimal digits. -/
def digitValues (ds : List Char) : List Nat :=
  ds.map fun d => d.toNat - '0'.toNat

/-- Splits a minus sign off. -/
def takeMinus : List Char → Bool × List Char
  | '-' :: cs => (true, cs)
  | cs => (false, cs)

/-- Digits before the point: at least one, and no zero in front of others. -/
def takeWhole? (cs : List Char) : Option (List Nat × List Char) :=
  match cs.takeWhile Char.isDigit with
  | [] => none
  | '0' :: _ :: _ => none
  | ds => some (digitValues ds, cs.dropWhile Char.isDigit)

/-- The fraction, if a point follows: at least one digit. -/
def takeFraction? : List Char → Option (Option (List Nat) × List Char)
  | '.' :: cs =>
    match cs.takeWhile Char.isDigit with
    | [] => none
    | ds => some (some (digitValues ds), cs.dropWhile Char.isDigit)
  | cs => some (none, cs)

/-- Digits of an exponent up to the end of the literal: at least one. -/
def exponentDigits? (ds : List Char) : Option Nat :=
  if ds ≠ [] ∧ ds.all Char.isDigit then some (Nat.ofDigitChars 10 ds 0) else none

/-- The exponent, if one follows, up to the end of the literal. -/
def takeExponent? : List Char → Option (Option Int)
  | [] => some none
  | e :: cs =>
    if e = 'e' ∨ e = 'E' then
      match cs with
      | '+' :: ds => (exponentDigits? ds).map fun n => some (Int.ofNat n)
      | '-' :: ds => (exponentDigits? ds).map fun n => some (-Int.ofNat n)
      | ds => (exponentDigits? ds).map fun n => some (Int.ofNat n)
    else none

/-- Reads a whole literal; `none` when the characters are not one. -/
def Literal.ofChars? (cs : List Char) : Option Literal := do
  let (negative, cs) := takeMinus cs
  let (whole, cs) ← takeWhole? cs
  let (fraction, cs) ← takeFraction? cs
  let exponent ← takeExponent? cs
  return ⟨negative, whole, fraction, exponent⟩

/-! ## Values -/

/-- One more than the largest unsigned word of 64 bits. -/
def unsignedBound : Nat := 0x1_0000_0000_0000_0000

/-- One more than the largest signed word of 64 bits. -/
def signedBound : Nat := 0x8000_0000_0000_0000

/-- Extends a significand digit by digit for as long as it fits an unsigned 64-bit word, and counts
    the digits that were taken and those that were left. -/
def takeDigits (significand : Nat) : List Nat → Nat × Nat × Nat
  | [] => (significand, 0, 0)
  | d :: ds =>
    if significand * 10 + d < unsignedBound then
      let (s, taken, left) := takeDigits (significand * 10 + d) ds
      (s, taken + 1, left)
    else (significand, 0, ds.length + 1)

/-- The double next to `10^n`. -/
def powerOfTen (n : Nat) : Float :=
  Float.ofScientific 1 false n

/-- The double `f · 10^e`, with one rounding for a factor up to `10^308` and a second one below
    that; `none` when it is too large.  `f` is below `2^65`, so nothing is left of it at
    `10^-617`. -/
def scale? (f : Float) (e : Int) : Option Float :=
  if 308 < e then
    if f == 0 then some f else none
  else if 0 ≤ e then
    let scaled := f * powerOfTen e.toNat
    if scaled.isInf then none else some scaled
  else if -308 ≤ e then some (f / powerOfTen (-e).toNat)
  else if -616 ≤ e then some (f / powerOfTen 308 / powerOfTen (-e - 308).toNat)
  else some 0

/-- The double a literal stands for, or `none` when it is too large.  A digit before the point
    that does not fit the significand counts as a factor ten, one after the point as nothing. -/
def Literal.float? (l : Literal) : Option Float :=
  let (significand, _, left) := takeDigits 0 l.whole
  let (significand, taken, _) := takeDigits significand (l.fraction.getD [])
  let e := l.exponent.getD 0 + left - taken
  (scale? significand.toUInt64.toFloat e).map fun f => if l.negative then -f else f

/-- The integer a literal stands for, if it has neither fraction nor exponent and fits a word.  The
    negative zero is no integer. -/
def Literal.int? (l : Literal) : Option Int :=
  let (n, _, left) := takeDigits 0 l.whole
  if l.fraction.isSome || l.exponent.isSome || left != 0 then none
  else if !l.negative then some n
  else if n != 0 && n ≤ signedBound then some (-n)
  else none

/-- The number a literal stands for, or `none` when it is beyond the doubles. -/
def Literal.number? (l : Literal) : Option Number :=
  match l.int? with
  | some i => some (.int i)
  | none => l.float?.map .float

/-! ## Writing -/

/-- Doubles have a decimal point or an exponent; numbers from `10^-5` up to `10^16` have no
    exponent, and of two equally near decimals the even one is written. -/
def floatLayout : Decimal.Layout where
  tie := .toEven
  positional e := -5 ≤ e && e < 16
  wholeTail := ".0"

/-- The written form of a number; a double that is not finite has none and becomes `null`. -/
def Number.chars : Number → List Char
  | .int i => Decimal.intChars i
  | .float f => if f.isFinite then (floatLayout.render f).toList else "null".toList

end PhpNames.Json
