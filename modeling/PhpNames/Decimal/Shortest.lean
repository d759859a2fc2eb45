/-
  PhpNames.Decimal.Shortest — the shortest decimal that reads back as a given double.

  A finite double is m · 2^q.  The decimals that read back as it fill an interval around it,
  whose ends belong to it when m is even.  Of the grids of multiples of 10^k, the coarsest that
  meets the interval gives the digits: the multiple next to the double, below or above.
-/

namespace PhpNames.Decimal

/-- The decimal number `digits · 10^exponent`. -/
structure Numeral where
  digits : Nat
  exponent : Int
  deriving DecidableEq, Repr

/-- Which of two equally near decimals is taken. -/
inductive Tie where
  | up
  | toEven
  deriving DecidableEq, Repr

/-! ## Doubles as integers -/

/-- The magnitude `significand · 2^exponent` of a finite double.  `lowest` holds for the smallest
    significand of a binade, whose neighbour below is only half as far away. -/
structure Magnitude where
  significand : Nat
  exponent : Int
  lowest : Bool
  deriving DecidableEq, Repr

/-- The sign bit of a double, set also for the negative zero. -/
def isNegative (f : Float) : Bool :=
  f.toBits.toNat.testBit 63

/-- The significand of the smallest double of a binade: the weight of the leading bit, which is not
    stored. -/
def leadingBit : Nat := 0x10_0000_0000_0000

/-- The magnitude of a finite double, from its exponent and fraction bits. -/
def Magnitude.ofFloat (f : Float) : Magnitude :=
  let bits := f.toBits.toNat
  let fraction := bits % leadingBit
  let biased := bits / leadingBit % 0x800
  if biased = 0 then ⟨fraction, -1074, false⟩
  else ⟨leadingBit + fraction, Int.ofNat biased - 1075, fraction == 0 && biased != 1⟩

/-! ## The search -/

namespace Magnitude

/-- The magnitude in quarters of its last place, on the grid of multiples of `10^k`: a pair
    `(a, b)` such that `n` quarters are `n · a / b` grid steps. -/
def quarter (m : Magnitude) (k : Int) : Nat × Nat :=
  (Nat.pow 10 (-k).toNat <<< (m.exponent - 2).toNat, Nat.pow 10 k.toNat <<< (2 - m.exponent).toNat)

/-- Whether `d · 10^k` reads back as the double. -/
def readsBack (m : Magnitude) (k : Int) (d : Nat) : Bool :=
  let (a, b) := m.quarter k
  let low := (4 * m.significand - if m.lowest then 1 else 2) * a
  let high := (4 * m.significand + 2) * a
  if m.significand % 2 = 0 then low ≤ d * b && d * b ≤ high
  else low < d * b && d * b < high

/-- The multiple of `10^k` next to the magnitude that reads back as the double, if there is
    one. -/
def onGrid? (tie : Tie) (m : Magnitude) (k : Int) : Option Nat :=
  let (a, b) := m.quarter k
  let twice := 2 * (4 * m.significand * a)
  let below := 4 * m.significand * a / b
  let middle := (2 * below + 1) * b
  let belowIsNearer := twice < middle || (twice == middle && tie == .toEven && below % 2 == 0)
  match m.readsBack k below, m.readsBack k (below + 1) with
  | true, true => some (if belowIsNearer then below else below + 1)
  | true, false => some below
  | false, true => some (below + 1)
  | false, false => none

/-- The first hit on the grids of `10^k`, `10^(k-1)`, …, `10^(k-steps)`; the last grid is taken
    even without a hit. -/
def search (tie : Tie) (m : Magnitude) : (steps : Nat) → (k : Int) → Numeral
  | 0, k => ⟨(m.onGrid? tie k).getD 0, k⟩
  | steps + 1, k =>
    match m.onGrid? tie k with
    | some d => ⟨d, k⟩
    | none => search tie m steps (k - 1)

/-- A power of ten `10^k` above the magnitude, at most a hundred times as large. -/
def startExponent (m : Magnitude) : Int :=
  ((m.significand.log2 + 1 : Nat) + m.exponent) * 30103 / 100000 + 1

/-- The shortest decimal that reads back as the double, and the nearest of those; seventeen
    digits are always enough, which is within twenty grids of the start. -/
def shortest (tie : Tie) (m : Magnitude) : Numeral :=
  if m.significand = 0 then ⟨0, 0⟩ else m.search tie 20 m.startExponent

end Magnitude

/-- The shortest decimal for the magnitude of a finite double. -/
def shortest (tie : Tie) (f : Float) : Numeral :=
  (Magnitude.ofFloat f).shortest tie

example : shortest .toEven 0.3 = ⟨3, -1⟩ := by decide +kernel
example : shortest .toEven 5e-324 = ⟨5, -324⟩ := by decide +kernel
example : shortest .toEven 123456789.125 = ⟨123456789125, -3⟩ := by decide +kernel
example : (shortest .up 2.98023223876953125e-8).digits = 29802322387695313 := by decide +kernel
example : (shortest .toEven 2.98023223876953125e-8).digits = 29802322387695312 := by
  decide +kernel

end PhpNames.Decimal
