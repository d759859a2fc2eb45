/-
  PhpNames.Proofs.Decimal.Digits — the digits that stand for a double.

  The search for the shortest decimal goes from coarse grids to finer ones.  A grid whose steps are
  shorter than half of the last place of the double has a multiple next to it that reads back as
  the double (`onGrid?_isSome`), and the last of the grids that are searched is as fine as that
  (`quarter_lastGrid`).  So the search always ends with a hit, and never with a zero for a double
  that is not zero (`shortest_eq_zero_or_pos`).

  The digits of a number are decimal digits, and there is no zero in front of others
  (`isDigit_of_mem_digits`, `head?_digits`).
-/
import Mathlib.Algebra.Order.Field.Power
import Mathlib.Data.List.Basic
import Mathlib.Data.Rat.Cast.Order
import Mathlib.Tactic.Linarith
import Mathlib.Tactic.Ring
import PhpNames.Decimal.Layout

namespace PhpNames.Decimal

/-! ## §1. Hits on a grid. -/

namespace Magnitude

variable {m : Magnitude} {k : Int}

/-- Both sides of the ratio that a quarter of the spacing makes with a grid are positive. -/
theorem quarter_pos (m : Magnitude) (k : Int) : 0 < (m.quarter k).1 ∧ 0 < (m.quarter k).2 := by
  have hpos : ∀ n s : Nat, 0 < Nat.pow 10 n <<< s := by
    intro n s
    rw [Nat.shiftLeft_eq]
    exact Nat.mul_pos (Nat.pow_pos (by decide)) (Nat.two_pow_pos s)
  exact ⟨hpos _ _, hpos _ _⟩

/-- A double that is not zero is not read from a zero. -/
theorem not_readsBack_zero (hm : m.significand ≠ 0) : m.readsBack k 0 = false := by
  obtain ⟨ha, -⟩ := m.quarter_pos k
  have hlow : 0 < (4 * m.significand - if m.lowest then 1 else 2) * (m.quarter k).1 := by
    apply Nat.mul_pos _ ha
    split <;> omega
  unfold readsBack
  dsimp only
  rw [Nat.zero_mul]
  split
  · rw [decide_eq_false (Nat.not_le_of_gt hlow), Bool.false_and]
  · rw [decide_eq_false (Nat.not_lt_zero _), Bool.false_and]

/-- A multiple that a grid offers reads back as the double. -/
theorem readsBack_of_onGrid? {tie : Tie} {d : Nat} (h : m.onGrid? tie k = some d) :
    m.readsBack k d = true := by
  unfold onGrid? at h
  dsimp only at h
  split at h
  · next hbelow habove =>
    obtain rfl := Option.some.inj h
    split
    · exact hbelow
    · exact habove
  · next hbelow _ =>
    obtain rfl := Option.some.inj h
    exact hbelow
  · next _ habove =>
    obtain rfl := Option.some.inj h
    exact habove
  · cases h

/-- On a fine grid the next multiple above a double reads back as it. -/
theorem onGrid?_isSome (tie : Tie) (hfine : (m.quarter k).2 < 2 * (m.quarter k).1) :
    (m.onGrid? tie k).isSome = true := by
  obtain ⟨ha, hb⟩ := m.quarter_pos k
  have habove :
      m.readsBack k (4 * m.significand * (m.quarter k).1 / (m.quarter k).2 + 1) = true := by
    generalize hq : m.quarter k = q at *
    obtain ⟨a, b⟩ := q
    dsimp only at *
    have hdiv := Nat.div_add_mod (4 * m.significand * a) b
    have hmod := Nat.mod_lt (4 * m.significand * a) hb
    have hlow : (4 * m.significand - if m.lowest then 1 else 2) * a ≤ 4 * m.significand * a :=
      Nat.mul_le_mul_right a (Nat.sub_le _ _)
    have hnext : (4 * m.significand * a / b + 1) * b =
        b * (4 * m.significand * a / b) + b := by ring
    have hhigh : (4 * m.significand + 2) * a = 4 * m.significand * a + 2 * a := by ring
    unfold readsBack
    rw [hq]
    dsimp only
    rw [hnext, hhigh]
    split <;> simp only [Bool.and_eq_true, decide_eq_true_eq] <;> omega
  unfold onGrid?
  dsimp only
  rw [habove]
  cases m.readsBack k (4 * m.significand * (m.quarter k).1 / (m.quarter k).2) <;> rfl

/-- A search whose last grid is fine ends with a number that is not zero. -/
theorem search_digits_pos (tie : Tie) (hm : m.significand ≠ 0) (steps : Nat) (k : Int)
    (hfine : (m.quarter (k - steps)).2 < 2 * (m.quarter (k - steps)).1) :
    0 < (m.search tie steps k).digits := by
  have hhit : ∀ {k : Int} {d : Nat}, m.onGrid? tie k = some d → 0 < d := by
    intro k d hd
    apply Nat.pos_of_ne_zero
    rintro rfl
    have hback := readsBack_of_onGrid? hd
    rw [not_readsBack_zero hm] at hback
    cases hback
  induction steps generalizing k with
  | zero =>
    obtain ⟨d, hd⟩ := Option.isSome_iff_exists.mp (onGrid?_isSome tie hfine)
    simp only [Int.natCast_zero, sub_zero] at hd
    unfold search
    rw [hd]
    exact hhit hd
  | succ steps ih =>
    unfold search
    cases hd : m.onGrid? tie k with
    | some d => exact hhit hd
    | none =>
      apply ih (k - 1)
      have hsame : k - 1 - (steps : Int) = k - ((steps + 1 : Nat) : Int) := by
        push_cast
        ring
      rw [hsame]
      exact hfine

end Magnitude

/-! ## §2. The last grid. -/

/-- A factor `2^z` may stand on either side of a comparison. -/
theorem shiftLeft_lt_shiftLeft_iff (a b : Nat) (z : Int) :
    a <<< (-z).toNat < b <<< z.toNat ↔ (a : ℚ) < b * 2 ^ z := by
  rw [Nat.shiftLeft_eq, Nat.shiftLeft_eq]
  obtain ⟨n, rfl | rfl⟩ := z.eq_nat_or_neg
  · rw [zpow_natCast, Int.toNat_natCast, Int.toNat_of_nonpos (by omega), pow_zero, mul_one]
    exact_mod_cast Iff.rfl
  · have hpos : (0 : ℚ) < 2 ^ n := by positivity
    rw [zpow_neg, zpow_natCast, neg_neg, Int.toNat_natCast, Int.toNat_of_nonpos (by omega),
      pow_zero, mul_one, ← div_eq_mul_inv, lt_div_iff₀ hpos]
    exact_mod_cast Iff.rfl

/-- Powers of ten and of two are told apart by `2^195 ≤ 10^59 ≤ 2^196`. -/
theorem ten_zpow_lt_two_zpow {k z : ℤ} (hlow : 195 * k < 59 * z) (hhigh : 196 * k < 59 * z) :
    (10 : ℚ) ^ k < 2 ^ z := by
  -- both sides to the power 59, where the two bounds are whole powers of two
  refine lt_of_pow_lt_pow_left₀ 59 (by positivity) ?_
  have hten : ((10 : ℚ) ^ k) ^ 59 = (10 ^ 59) ^ k := by
    rw [← zpow_natCast, ← zpow_natCast, ← zpow_mul, ← zpow_mul, mul_comm]
  have htwo : ((2 : ℚ) ^ z) ^ 59 = 2 ^ (59 * z) := by
    rw [← zpow_natCast, ← zpow_mul, mul_comm]
    rfl
  rw [hten, htwo]
  rcases le_total 0 k with hk | hk
  · calc ((10 : ℚ) ^ 59) ^ k
        ≤ (2 ^ (196 : ℤ)) ^ k := zpow_le_zpow_left₀ hk (by positivity) (by norm_num)
      _ = 2 ^ (196 * k) := (zpow_mul 2 196 k).symm
      _ < 2 ^ (59 * z) := zpow_lt_zpow_right₀ (by norm_num) hhigh
  · -- for a negative exponent the lower bound is the one that counts
    have hinv : ((2 : ℚ) ^ (195 : ℤ)) ^ (-k) ≤ (10 ^ 59) ^ (-k) :=
      zpow_le_zpow_left₀ (by omega) (by positivity) (by norm_num)
    calc ((10 : ℚ) ^ 59) ^ k
        = ((10 ^ 59) ^ (-k))⁻¹ := by rw [zpow_neg, inv_inv]
      _ ≤ ((2 ^ (195 : ℤ)) ^ (-k))⁻¹ := inv_anti₀ (by positivity) hinv
      _ = 2 ^ (195 * k) := by rw [zpow_neg, inv_inv, zpow_mul]
      _ < 2 ^ (59 * z) := zpow_lt_zpow_right₀ (by norm_num) hlow

/-- A power of ten may stand on either side of a comparison. -/
theorem pow_toNat_lt_iff (k : Int) (c : ℚ) :
    ((Nat.pow 10 k.toNat : Nat) : ℚ) < (Nat.pow 10 (-k).toNat : Nat) * c ↔ (10 : ℚ) ^ k < c := by
  obtain ⟨n, rfl | rfl⟩ := k.eq_nat_or_neg
  · rw [zpow_natCast, Int.toNat_natCast, Int.toNat_of_nonpos (by omega)]
    simp
  · have hpos : (0 : ℚ) < 10 ^ n := by positivity
    rw [zpow_neg, zpow_natCast, neg_neg, Int.toNat_natCast, Int.toNat_of_nonpos (by omega),
      inv_lt_iff_one_lt_mul₀' hpos]
    simp

/-- The last grid that is searched for a magnitude below `2^x`. -/
def lastGrid (x : Int) : Int := x * 30103 / 100000 + 1 - 20

/-- At every size of doubles, the steps of the last grid are shorter than the place that is 54 bits
    below the size. -/
theorem lastGrid_fine {x : Int} (hlow : -1700 ≤ x) (hhigh : x ≤ 1700) :
    (10 : ℚ) ^ lastGrid x < 2 ^ (x - 54) := by
  unfold lastGrid
  apply ten_zpow_lt_two_zpow <;> omega
namespace Magnitude

/-- A magnitude in the range of the doubles. -/
structure InRange (m : Magnitude) : Prop where
  significand_lt : m.significand < 2 ^ 53
  exponent_ge : -1074 ≤ m.exponent
  exponent_le : m.exponent ≤ 972

theorem inRange_ofFloat (f : Float) : (ofFloat f).InRange := by
  have hfraction : f.toBits.toNat % leadingBit < 0x10_0000_0000_0000 :=
    Nat.mod_lt _ (by decide)
  have hbiased : f.toBits.toNat / leadingBit % 0x800 < 0x800 := Nat.mod_lt _ (by decide)
  have hleading : leadingBit = 0x10_0000_0000_0000 := rfl
  unfold ofFloat
  dsimp only
  -- only the sizes of the two fields matter from here
  generalize f.toBits.toNat % leadingBit = fraction at *
  generalize f.toBits.toNat / leadingBit % 0x800 = biased at *
  split
  · exact ⟨by dsimp only; omega, by dsimp only; omega, by dsimp only; omega⟩
  · have hcast : Int.ofNat biased = (biased : Int) := rfl
    exact ⟨by dsimp only; omega, by dsimp only; omega, by dsimp only; omega⟩

/-- The last grid of the search is fine. -/
theorem quarter_lastGrid {m : Magnitude} (h : m.InRange) (hm : m.significand ≠ 0) :
    (m.quarter (m.startExponent - 20)).2 < 2 * (m.quarter (m.startExponent - 20)).1 := by
  have hlog : m.significand.log2 < 53 := (Nat.log2_lt hm).mpr h.significand_lt
  have hge := h.exponent_ge
  have hle := h.exponent_le
  have hgrid : m.startExponent - 20 =
      lastGrid (((m.significand.log2 + 1 : Nat) : Int) + m.exponent) := rfl
  have hfine : (10 : ℚ) ^ (m.startExponent - 20) < 2 ^ (m.exponent - 1) := by
    rw [hgrid]
    -- the last place of the double is no finer than the place 54 bits below its size
    refine (lastGrid_fine (by omega) (by omega)).trans_le ?_
    exact zpow_le_zpow_right₀ (by norm_num) (by omega)
  have hdouble : (2 : ℚ) ^ (m.exponent - 1) = 2 * 2 ^ (m.exponent - 2) := by
    rw [show m.exponent - 1 = 1 + (m.exponent - 2) by ring, zpow_add₀ (by norm_num), zpow_one]
  generalize m.startExponent - 20 = k at hfine ⊢
  have hscale : 2 * (Nat.pow 10 (-k).toNat <<< (m.exponent - 2).toNat) =
      (2 * Nat.pow 10 (-k).toNat) <<< (m.exponent - 2).toNat := by
    rw [Nat.shiftLeft_eq, Nat.shiftLeft_eq, Nat.mul_assoc]
  unfold quarter
  dsimp only
  rw [hscale, show 2 - m.exponent = -(m.exponent - 2) by ring, shiftLeft_lt_shiftLeft_iff]
  calc ((Nat.pow 10 k.toNat : Nat) : ℚ)
      < (Nat.pow 10 (-k).toNat : Nat) * 2 ^ (m.exponent - 1) := (pow_toNat_lt_iff k _).mpr hfine
    _ = ((2 * Nat.pow 10 (-k).toNat : Nat) : ℚ) * 2 ^ (m.exponent - 2) := by
      rw [hdouble]
      push_cast
      ring

end Magnitude

/-- The shortest decimal of a double has no digit but a single zero, or it is not zero. -/
theorem shortest_eq_zero_or_pos (tie : Tie) (f : Float) :
    shortest tie f = ⟨0, 0⟩ ∨ 0 < (shortest tie f).digits := by
  unfold shortest Magnitude.shortest
  split
  · exact Or.inl rfl
  · next hm =>
    right
    apply Magnitude.search_digits_pos tie hm
    exact Magnitude.quarter_lastGrid (Magnitude.inRange_ofFloat f) hm

/-! ## §3. Decimal digits. -/

theorem isDigit_of_mem_digits {n : Nat} {c : Char} (h : c ∈ Nat.toDigits 10 n) :
    c.isDigit = true :=
  Nat.isDigit_of_mem_toDigits (by decide) (by decide) h

/-- A number that is not zero does not start with a zero. -/
theorem head?_digits {n : Nat} (hn : 0 < n) : (Nat.toDigits 10 n).head? ≠ some '0' := by
  induction n using Nat.strongRecOn with
  | ind n ih =>
    rw [Nat.toDigits_eq_if (by decide)]
    split
    · intro hzero
      have := Nat.digitChar_eq_zero.mp (Option.some.inj hzero)
      omega
    · rw [List.head?_append_of_ne_nil _ Nat.toDigits_ne_nil]
      exact ih (n / 10) (by omega) (by omega)

end PhpNames.Decimal
