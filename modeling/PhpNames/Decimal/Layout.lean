/-
  PhpNames.Decimal.Layout — how the digits of a double are laid out.

  A layout fixes what the digits leave open: where positional notation ends, what follows a whole
  number, and which way a tie goes.
-/
import PhpNames.Decimal.Shortest

namespace PhpNames.Decimal

/-- An integer in decimal digits. -/
def intChars (i : Int) : List Char :=
  (if i < 0 then ['-'] else []) ++ Nat.toDigits 10 i.natAbs

/-- The choices of one written form. -/
structure Layout where
  tie : Tie
  /-- Whether a number whose leading digit counts `10^e` is written without an exponent. -/
  positional : (e : Int) → Bool
  /-- What follows a whole number in positional notation. -/
  wholeTail : String

namespace Layout

/-- Digits with the decimal point after the first `point` places, zeros filling the gap on either
    side. -/
def placed (layout : Layout) (ds : List Char) (point : Int) : String :=
  if point ≤ 0 then
    String.ofList ('0' :: '.' :: (List.replicate (-point).toNat '0' ++ ds))
  else if (ds.length : Int) ≤ point then
    String.ofList (ds ++ List.replicate (point.toNat - ds.length) '0') ++ layout.wholeTail
  else
    String.ofList (ds.take point.toNat ++ '.' :: ds.drop point.toNat)

/-- Digits with the point after the first one, and the power of ten with its sign. -/
def scientific (ds : List Char) (e : Int) : String :=
  String.ofList (ds.take 1 ++ (if ds.length ≤ 1 then [] else '.' :: ds.drop 1) ++
    ['e', if e < 0 then '-' else '+'] ++ Nat.toDigits 10 e.natAbs)

/-- The text of a numeral. -/
def unsigned (layout : Layout) (d : Numeral) : String :=
  let ds := Nat.toDigits 10 d.digits
  let point := (ds.length : Int) + d.exponent
  if layout.positional (point - 1) then layout.placed ds point else scientific ds (point - 1)

/-- The text of a finite double; the sign bit is written also for a zero. -/
def render (layout : Layout) (f : Float) : String :=
  (if isNegative f then "-" else "") ++ layout.unsigned (shortest layout.tie f)

end Layout

example : (Layout.mk .up (fun _ => true) "").render (-1e-7) = "-0.0000001" := by decide +kernel
example : (Layout.mk .up (fun _ => true) "").render 1e21 = "1000000000000000000000" := by
  decide +kernel
example : (Layout.mk .toEven (fun _ => false) "").render 1.5e16 = "1.5e+16" := by decide +kernel

end PhpNames.Decimal
