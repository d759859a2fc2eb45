/-
  PhpNames.Proofs.Json.Literals — the written numbers are number literals.

  A literal is a sign, digits, a fraction and an exponent, of which only the digits are always
  there (`Form`).  Its pieces end where the next one starts, so reading takes it apart again
  (`Form.ofChars?_chars`).

    • The form of an integer has digits only; one that fits a word is read as itself
      (`intForm_number?`).
    • Whatever its digits are, the form of a double has a fraction or an exponent, so it is read
      as a double again, though perhaps as another one (`exists_form_render`).
-/
import PhpNames.Json.Value
import PhpNames.Json.Scan
import PhpNames.Proofs.Decimal.Digits

namespace PhpNames.Json

/-! ## §1. Runs of digits. -/

/-- Decimal digits, at least one. -/
structure Digits (ds : List Char) : Prop where
  ne_nil : ds ≠ []
  isDigit : ∀ c ∈ ds, c.isDigit = true

/-- Digits of which the first is no zero, unless it is the only one. -/
structure Whole (ds : List Char) : Prop extends Digits ds where
  zero : ds.head? = some '0' → ds = ['0']

/-- The characters do not go on with a digit. -/
def NoDigit (cs : List Char) : Prop := ∀ c ∈ cs.head?, c.isDigit = false

theorem noDigit_nil : NoDigit [] := by
  intro c hc
  cases hc

/-- Characters that start with none do not go on with a digit. -/
theorem noDigit_cons {c : Char} {cs : List Char} (h : c.isDigit = false) : NoDigit (c :: cs) := by
  intro d hd
  obtain rfl := Option.some.inj hd
  exact h

/-- Digits may be followed by more digits. -/
theorem Digits.append {ds es : List Char} (hd : Digits ds) (he : ∀ c ∈ es, c.isDigit = true) :
    Digits (ds ++ es) := by
  constructor
  · exact List.append_ne_nil_of_left_ne_nil hd.ne_nil es
  · intro c hc
    rcases List.mem_append.mp hc with hc | hc
    · exact hd.isDigit c hc
    · exact he c hc

/-- The digits of a number are digits, at least one. -/
theorem digits_toDigits (n : Nat) : Digits (Nat.toDigits 10 n) :=
  ⟨Nat.toDigits_ne_nil, fun _ hc => Decimal.isDigit_of_mem_digits hc⟩

theorem whole_zero : Whole ['0'] where
  ne_nil := List.cons_ne_nil _ _
  isDigit := by simp
  zero _ := rfl

/-- The digits of a number do not start with a zero unless it is zero. -/
theorem whole_toDigits (n : Nat) : Whole (Nat.toDigits 10 n) := by
  rcases Nat.eq_zero_or_pos n with rfl | hn
  · exact whole_zero
  · exact ⟨digits_toDigits n, fun hzero => absurd hzero (Decimal.head?_digits hn)⟩

/-- What does not go on with a digit has no run of digits in front. -/
theorem NoDigit.takeWhile_eq_nil {rest : List Char} (h : NoDigit rest) :
    rest.takeWhile Char.isDigit = [] ∧ rest.dropWhile Char.isDigit = rest := by
  cases rest with
  | nil => exact ⟨rfl, rfl⟩
  | cons c cs =>
    have hc : c.isDigit = false := h c rfl
    exact ⟨by rw [List.takeWhile_cons, hc]; rfl, by rw [List.dropWhile_cons, hc]; rfl⟩

/-- **A run of digits ends** where the characters after it do not go on with a digit. -/
theorem Digits.takeWhile {ds rest : List Char} (hd : Digits ds) (hrest : NoDigit rest) :
    (ds ++ rest).takeWhile Char.isDigit = ds ∧ (ds ++ rest).dropWhile Char.isDigit = rest := by
  obtain ⟨htake, hdrop⟩ := hrest.takeWhile_eq_nil
  rw [List.takeWhile_append_of_pos hd.isDigit, List.dropWhile_append_of_pos hd.isDigit, htake,
    hdrop, List.append_nil]
  exact ⟨rfl, rfl⟩

/-! ## §2. Forms. -/

/-- A number as it is written, piece by piece.  The exponent is its sign and its digits. -/
structure Form where
  negative : Bool
  whole : List Char
  fraction : Option (List Char)
  exponent : Option (Bool × List Char)

namespace Form

/-- The pieces can stand in a literal. -/
structure Valid (w : Form) : Prop where
  whole : Whole w.whole
  fraction : ∀ ds ∈ w.fraction, Digits ds
  exponent : ∀ e ∈ w.exponent, Digits e.2

/-- The characters of an exponent. -/
def exponentChars : Option (Bool × List Char) → List Char
  | none => []
  | some (negative, ds) => 'e' :: (if negative then '-' else '+') :: ds

/-- The characters of a fraction. -/
def fractionChars : Option (List Char) → List Char
  | none => []
  | some ds => '.' :: ds

/-- The characters after the sign. -/
def magnitudeChars (w : Form) : List Char :=
  w.whole ++ (fractionChars w.fraction ++ exponentChars w.exponent)

/-- All characters. -/
def chars (w : Form) : List Char :=
  (if w.negative then ['-'] else []) ++ w.magnitudeChars

/-- The number that an exponent stands for. -/
def exponentValue (e : Bool × List Char) : Int :=
  if e.1 then -Int.ofNat (Nat.ofDigitChars 10 e.2 0) else Int.ofNat (Nat.ofDigitChars 10 e.2 0)

/-- What the form stands for. -/
def literal (w : Form) : Literal :=
  ⟨w.negative, digitValues w.whole, w.fraction.map digitValues, w.exponent.map exponentValue⟩

/-- The digits of an exponent are read as their number. -/
theorem exponentDigits?_digits {ds : List Char} (h : Digits ds) :
    exponentDigits? ds = some (Nat.ofDigitChars 10 ds 0) := by
  unfold exponentDigits?
  rw [if_pos ⟨h.ne_nil, List.all_eq_true.mpr h.isDigit⟩]

/-- The characters of an exponent are read as its value, and no characters as none. -/
theorem takeExponent?_chars {e : Option (Bool × List Char)} (h : ∀ e' ∈ e, Digits e'.2) :
    takeExponent? (exponentChars e) = some (e.map exponentValue) := by
  cases e with
  | none => rfl
  | some e =>
    obtain ⟨negative, ds⟩ := e
    have hds := exponentDigits?_digits (h (negative, ds) rfl)
    cases negative with
    | true =>
      show (exponentDigits? ds).map (fun n => some (-Int.ofNat n)) = _
      rw [hds]
      rfl
    | false =>
      show (exponentDigits? ds).map (fun n => some (Int.ofNat n)) = _
      rw [hds]
      rfl

/-- An exponent does not start with a digit, so it ends the digits before it. -/
theorem noDigit_exponentChars (e : Option (Bool × List Char)) : NoDigit (exponentChars e) := by
  cases e with
  | none => exact noDigit_nil
  | some e => exact noDigit_cons (by decide)

/-- A fraction is read up to the exponent. -/
theorem takeFraction?_chars {f : Option (List Char)} (h : ∀ ds ∈ f, Digits ds)
    (e : Option (Bool × List Char)) :
    takeFraction? (fractionChars f ++ exponentChars e) =
      some (f.map digitValues, exponentChars e) := by
  cases f with
  | none =>
    -- an exponent starts with a letter, which is no point
    cases e <;> rfl
  | some ds =>
    have hds : Digits ds := h ds rfl
    obtain ⟨htake, hdrop⟩ := hds.takeWhile (noDigit_exponentChars e)
    show takeFraction? ('.' :: (ds ++ exponentChars e)) = _
    unfold takeFraction?
    split
    · next cs hcs =>
      obtain ⟨-, rfl⟩ := List.cons.inj hcs
      rw [htake, hdrop]
      split
      · exact absurd rfl hds.ne_nil
      · rfl
    · next hpoint => exact absurd rfl (hpoint _)

/-- What follows the whole digits does not go on with a digit. -/
theorem noDigit_tail (w : Form) :
    NoDigit (fractionChars w.fraction ++ exponentChars w.exponent) := by
  cases w.fraction with
  | none => exact noDigit_exponentChars w.exponent
  | some ds => exact noDigit_cons (by decide)

/-- The whole digits are read up to the fraction or the exponent. -/
theorem takeWhole?_chars {w : Form} (h : w.Valid) :
    takeWhole? w.magnitudeChars =
      some (digitValues w.whole, fractionChars w.fraction ++ exponentChars w.exponent) := by
  obtain ⟨htake, hdrop⟩ := h.whole.toDigits.takeWhile w.noDigit_tail
  unfold takeWhole? magnitudeChars
  rw [htake, hdrop]
  split
  · next hnil => exact absurd hnil h.whole.ne_nil
  · next c cs hzeros =>
    -- a zero in front of other digits
    have hone := h.whole.zero (by rw [hzeros]; rfl)
    rw [hone] at hzeros
    cases hzeros
  · rfl

/-- Digits do not start with a minus sign. -/
theorem takeMinus_chars {w : Form} (h : w.Valid) :
    takeMinus w.chars = (w.negative, w.magnitudeChars) := by
  unfold chars
  cases w.negative with
  | true => rfl
  | false =>
    show takeMinus w.magnitudeChars = (false, w.magnitudeChars)
    unfold magnitudeChars
    cases hwhole : w.whole with
    | nil => exact absurd hwhole h.whole.ne_nil
    | cons c cs =>
      have hc : c.isDigit = true := h.whole.isDigit c (by rw [hwhole]; exact List.mem_cons_self)
      rw [List.cons_append]
      unfold takeMinus
      -- a digit is not the sign that would be taken
      split
      · next heq =>
        obtain ⟨rfl, -⟩ := List.cons.inj heq
        cases hc
      · rfl

/-- **A literal is taken apart again**: the characters of a form are read as what the form stands
    for. -/
theorem ofChars?_chars {w : Form} (h : w.Valid) : Literal.ofChars? w.chars = some w.literal := by
  unfold Literal.ofChars?
  rw [takeMinus_chars h]
  dsimp only
  rw [takeWhole?_chars h, Option.bind_eq_bind, Option.bind_some]
  dsimp only
  rw [takeFraction?_chars h.fraction, Option.bind_eq_bind, Option.bind_some]
  dsimp only
  rw [takeExponent?_chars h.exponent]
  rfl

/-! ## §3. Characters of numbers. -/

/-- A digit may stand in a number. -/
theorem isNumberChar_of_isDigit {c : Char} (h : c.isDigit = true) : isNumberChar c = true := by
  unfold isNumberChar
  rw [h]
  rfl

/-- All characters of a form may stand in a number, so scanning does not stop in it. -/
theorem isNumberChar_of_mem_chars {w : Form} (h : w.Valid) {c : Char} (hc : c ∈ w.chars) :
    isNumberChar c = true := by
  unfold chars magnitudeChars at hc
  -- the sign, then the whole digits, the fraction and the exponent
  rcases List.mem_append.mp hc with hc | hc
  · split at hc
    · obtain rfl := List.mem_singleton.mp hc
      rfl
    · cases hc
  rcases List.mem_append.mp hc with hc | hc
  · exact isNumberChar_of_isDigit (h.whole.isDigit c hc)
  rcases List.mem_append.mp hc with hc | hc
  · cases hf : w.fraction with
    | none =>
      rw [hf] at hc
      cases hc
    | some ds =>
      rw [hf] at hc
      rcases List.mem_cons.mp hc with rfl | hc
      · rfl
      · exact isNumberChar_of_isDigit ((h.fraction ds hf).isDigit c hc)
  · cases he : w.exponent with
    | none =>
      rw [he] at hc
      cases hc
    | some e =>
      obtain ⟨negative, ds⟩ := e
      rw [he] at hc
      rcases List.mem_cons.mp hc with rfl | hc
      · rfl
      rcases List.mem_cons.mp hc with rfl | hc
      · cases negative <;> rfl
      · exact isNumberChar_of_isDigit ((h.exponent (negative, ds) he).isDigit c hc)

/-- A literal starts with a digit or a minus sign. -/
theorem exists_chars_eq_cons {w : Form} (h : w.Valid) :
    ∃ c cs, w.chars = c :: cs ∧ (c.isDigit = true ∨ c = '-') := by
  unfold chars
  cases w.negative with
  | true => exact ⟨'-', w.magnitudeChars, rfl, Or.inr rfl⟩
  | false =>
    -- without a sign the first character is a whole digit
    cases hwhole : w.whole with
    | nil => exact absurd hwhole h.whole.ne_nil
    | cons c cs =>
      refine ⟨c, cs ++ (fractionChars w.fraction ++ exponentChars w.exponent), ?_, Or.inl ?_⟩
      · show w.magnitudeChars = _
        unfold magnitudeChars
        rw [hwhole]
        rfl
      · exact h.whole.isDigit c (by rw [hwhole]; exact List.mem_cons_self)

end Form

/-! ## §4. Integers. -/

/-- The form of an integer. -/
def intForm (i : Int) : Form := ⟨i < 0, Nat.toDigits 10 i.natAbs, none, none⟩

/-- The form of an integer has digits that can stand in a literal. -/
theorem valid_intForm (i : Int) : (intForm i).Valid where
  whole := whole_toDigits i.natAbs
  fraction := by
    intro ds hds
    cases hds
  exponent := by
    intro e he
    cases he

/-- The form of an integer is written as the integer is. -/
theorem chars_intForm (i : Int) : (intForm i).chars = Decimal.intChars i := by
  unfold Form.chars Form.magnitudeChars intForm Decimal.intChars Form.fractionChars
    Form.exponentChars
  simp only [decide_eq_true_eq, List.append_nil]

/-- More digits make no number smaller. -/
theorem le_ofDigitChars (cs : List Char) (n : Nat) : n ≤ Nat.ofDigitChars 10 cs n := by
  rw [Nat.ofDigitChars_eq_ofDigitChars_zero]
  have hscale : 1 * n ≤ 10 ^ cs.length * n := Nat.mul_le_mul_right n (Nat.one_le_pow _ _ (by decide))
  omega

/-- A significand that fits a word takes all of its digits. -/
theorem takeDigits_eq (cs : List Char) (n : Nat) (h : Nat.ofDigitChars 10 cs n < unsignedBound) :
    takeDigits n (digitValues cs) = (Nat.ofDigitChars 10 cs n, cs.length, 0) := by
  induction cs generalizing n with
  | nil => rfl
  | cons c cs ih =>
    rw [Nat.ofDigitChars_cons, Nat.mul_comm] at h ⊢
    have hstep : n * 10 + (c.toNat - '0'.toNat) < unsignedBound :=
      Nat.lt_of_le_of_lt (le_ofDigitChars cs _) h
    show takeDigits n ((c.toNat - '0'.toNat) :: digitValues cs) = _
    unfold takeDigits
    rw [if_pos hstep, ih _ h]
    rfl

/-- The integer that a literal stands for, given how far its significand goes. -/
theorem Literal.int?_eq (l : Literal) {n taken left : Nat}
    (h : takeDigits 0 l.whole = (n, taken, left)) :
    l.int? =
      if l.fraction.isSome || l.exponent.isSome || left != 0 then none
      else if !l.negative then some (n : Int)
      else if n != 0 && n ≤ signedBound then some (-(n : Int))
      else none := by
  unfold Literal.int?
  rw [h]

/-- An integer in the range of the words is read as itself. -/
theorem intForm_number? {i : Int} (hlow : -(signedBound : Int) ≤ i) (hhigh : i < unsignedBound) :
    (intForm i).literal.number? = some (.int i) := by
  have hbound : unsignedBound = 2 * signedBound := rfl
  have hdigits : takeDigits 0 (digitValues (Nat.toDigits 10 i.natAbs)) =
      (i.natAbs, (Nat.toDigits 10 i.natAbs).length, 0) := by
    rw [takeDigits_eq]
    · rw [Nat.ofDigitChars_ten_toDigits]
    · rw [Nat.ofDigitChars_ten_toDigits]
      omega
  -- the sign decides which of the two bounds of a word is asked for
  have hint : (intForm i).literal.int? = some i := by
    rw [Literal.int?_eq _ hdigits]
    show (if false || false || 0 != 0 then none
      else if !decide (i < 0) then some (i.natAbs : Int)
      else if i.natAbs != 0 && i.natAbs ≤ signedBound then some (-(i.natAbs : Int))
      else none) = some i
    by_cases hneg : i < 0
    · have hn : (i.natAbs != 0 && decide (i.natAbs ≤ signedBound)) = true := by
        simp only [Bool.and_eq_true, bne_iff_ne, decide_eq_true_eq]
        omega
      simp only [hneg, hn, decide_true, Bool.not_true, Bool.or_self, bne_self_eq_false,
        Bool.false_eq_true, if_false, if_true, Option.some.injEq]
      omega
    · simp only [hneg, decide_false, Bool.not_false, Bool.or_self, bne_self_eq_false,
        Bool.false_eq_true, if_false, if_true, Option.some.injEq]
      omega
  unfold Literal.number?
  rw [hint]

/-! ## §5. Doubles. -/

namespace Form

/-- A literal with a fraction or an exponent stands for a double, if for any number. -/
theorem number?_of_isSome {w : Form} (h : w.fraction.isSome || w.exponent.isSome) :
    w.literal.number? = w.literal.float?.map .float := by
  have hint : w.literal.int? = none := by
    have hparts : (w.literal.fraction.isSome || w.literal.exponent.isSome) = true := by
      show ((w.fraction.map digitValues).isSome || (w.exponent.map exponentValue).isSome) = true
      rw [Option.isSome_map, Option.isSome_map, h]
    rw [Literal.int?_eq _ rfl, hparts]
    rfl
  unfold Literal.number?
  rw [hint]

/-- Digits around a point, without an exponent. -/
theorem valid_pointed {whole fraction : List Char} (hwhole : Whole whole)
    (hfraction : Digits fraction) (negative : Bool) :
    (⟨negative, whole, some fraction, none⟩ : Form).Valid where
  whole := hwhole
  fraction := by
    intro ds hds
    obtain rfl := Option.some.inj hds
    exact hfraction
  exponent := by
    intro e he
    cases he

/-- A form with a fraction and no exponent is its whole digits, a point and its other digits. -/
theorem magnitudeChars_pointed (whole fraction : List Char) (negative : Bool) :
    (⟨negative, whole, some fraction, none⟩ : Form).magnitudeChars = whole ++ '.' :: fraction := by
  show whole ++ (('.' :: fraction) ++ []) = _
  rw [List.append_nil]

end Form

theorem isDigit_of_mem_zeros {n : Nat} {c : Char} (h : c ∈ List.replicate n '0') :
    c.isDigit = true := by
  rw [(List.mem_replicate.mp h).2]
  rfl

/-- A first part of digits of which the first is no zero. -/
theorem Whole.take {ds : List Char} (h : Whole ds) {n : Nat} (hpos : 0 < n) (hlt : n < ds.length) :
    Whole (ds.take n) := by
  have hne : ds.take n ≠ [] := by
    rw [Ne, List.take_eq_nil_iff, not_or]
    exact ⟨by omega, h.ne_nil⟩
  refine ⟨⟨hne, fun c hc => h.isDigit c (List.mem_of_mem_take hc)⟩, fun hzero => ?_⟩
  have hone := h.zero (by
    rw [← List.take_append_drop n ds, List.head?_append_of_ne_nil _ hne]
    exact hzero)
  rw [hone, List.length_singleton] at hlt
  omega

/-- The digits of a double without its sign: a zero alone, or some that do not start with one. -/
theorem exists_form_placed {ds : List Char} (hds : Whole ds) (point : Int)
    (hpoint : ds = ['0'] → point = 1) (negative : Bool) :
    ∃ w : Form, w.Valid ∧ w.negative = negative ∧ w.fraction.isSome = true ∧
      w.magnitudeChars = (floatLayout.placed ds point).toList := by
  unfold Decimal.Layout.placed
  split
  · -- a zero in front of the point
    have hfraction : Digits (List.replicate (-point).toNat '0' ++ ds) := by
      refine ⟨List.append_ne_nil_of_right_ne_nil _ hds.ne_nil, fun c hc => ?_⟩
      rcases List.mem_append.mp hc with hc | hc
      · exact isDigit_of_mem_zeros hc
      · exact hds.isDigit c hc
    refine ⟨_, Form.valid_pointed whole_zero hfraction negative, rfl, rfl, ?_⟩
    rw [Form.magnitudeChars_pointed, String.toList_ofList]
    rfl
  split
  · -- a whole number
    have hwhole : Whole (ds ++ List.replicate (point.toNat - ds.length) '0') := by
      refine ⟨hds.toDigits.append fun c hc => isDigit_of_mem_zeros hc, fun hzero => ?_⟩
      rw [List.head?_append_of_ne_nil _ hds.ne_nil] at hzero
      have hone := hds.zero hzero
      rw [hone, hpoint hone]
      rfl
    refine ⟨_, Form.valid_pointed hwhole whole_zero.toDigits negative, rfl, rfl, ?_⟩
    rw [Form.magnitudeChars_pointed, String.toList_append, String.toList_ofList]
    rfl
  · next hpos hshort =>
    -- digits on both sides of the point
    have hfraction : Digits (ds.drop point.toNat) := by
      refine ⟨fun hnil => ?_, fun c hc => hds.isDigit c (List.mem_of_mem_drop hc)⟩
      have hle := List.drop_eq_nil_iff.mp hnil
      omega
    have hwhole : Whole (ds.take point.toNat) := hds.take (by omega) (by omega)
    refine ⟨_, Form.valid_pointed hwhole hfraction negative, rfl, rfl, ?_⟩
    rw [Form.magnitudeChars_pointed, String.toList_ofList]

/-- Digits with an exponent are the form of a literal, which has an exponent. -/
theorem exists_form_scientific {ds : List Char} (hds : Digits ds) (e : Int) (negative : Bool) :
    ∃ w : Form, w.Valid ∧ w.negative = negative ∧ w.exponent.isSome = true ∧
      w.magnitudeChars = (Decimal.Layout.scientific ds e).toList := by
  obtain ⟨d, rest, rfl⟩ : ∃ d rest, ds = d :: rest := List.exists_cons_of_ne_nil hds.ne_nil
  have hd : d.isDigit = true := hds.isDigit d List.mem_cons_self
  refine ⟨⟨negative, [d], if rest.length = 0 then none else some rest,
    some (e < 0, Nat.toDigits 10 e.natAbs)⟩, ⟨⟨⟨List.cons_ne_nil _ _, ?_⟩, ?_⟩, ?_, ?_⟩, rfl, rfl, ?_⟩
  · intro c hc
    obtain rfl := List.mem_singleton.mp hc
    exact hd
  · intro hzero
    rw [Option.some.inj hzero]
  · intro es hes
    dsimp only at hes
    split at hes
    · cases hes
    · next hlen =>
      obtain rfl := Option.some.inj hes
      exact ⟨fun hnil => hlen (by rw [hnil]; rfl), fun c hc => hds.isDigit c (List.mem_cons_of_mem d hc)⟩
  · intro e' he'
    obtain rfl := Option.some.inj he'
    exact digits_toDigits e.natAbs
  · -- the point is written only if there is a second digit
    unfold Decimal.Layout.scientific
    rw [String.toList_ofList]
    unfold Form.magnitudeChars Form.exponentChars
    cases rest with
    | nil => by_cases he : e < 0 <;> simp [he, Form.fractionChars]
    | cons c cs => by_cases he : e < 0 <;> simp [he, Form.fractionChars]

/-- **A written double is a literal**, with a fraction or an exponent. -/
theorem exists_form_render (f : Float) :
    ∃ w : Form, w.Valid ∧ (w.fraction.isSome || w.exponent.isSome) = true ∧
      w.chars = (floatLayout.render f).toList := by
  unfold Decimal.Layout.render Decimal.Layout.unsigned
  dsimp only
  have hwhole : Whole (Nat.toDigits 10 (Decimal.shortest floatLayout.tie f).digits) :=
    whole_toDigits _
  have hpoint : Nat.toDigits 10 (Decimal.shortest floatLayout.tie f).digits = ['0'] →
      ((Nat.toDigits 10 (Decimal.shortest floatLayout.tie f).digits).length : Int) +
        (Decimal.shortest floatLayout.tie f).exponent = 1 := by
    intro hzero
    rcases Decimal.shortest_eq_zero_or_pos floatLayout.tie f with hd | hd
    · rw [hd]
      rfl
    · exact absurd (by rw [hzero]; rfl) (Decimal.head?_digits hd)
  -- what matters of the digits has been said; `placed` and `scientific` take any such
  generalize Nat.toDigits 10 (Decimal.shortest floatLayout.tie f).digits = ds at *
  generalize (ds.length : Int) + (Decimal.shortest floatLayout.tie f).exponent = point at *
  have hsign : ∀ {w : Form} {t : String}, w.negative = Decimal.isNegative f →
      w.magnitudeChars = t.toList →
      w.chars = ((if Decimal.isNegative f then "-" else "") ++ t).toList := by
    intro w t hneg hmag
    unfold Form.chars
    rw [hneg, hmag, String.toList_append]
    cases Decimal.isNegative f <;> rfl
  by_cases hpositional : floatLayout.positional (point - 1) = true
  · obtain ⟨w, hw, hneg, hsome, hmag⟩ :=
      exists_form_placed hwhole point hpoint (Decimal.isNegative f)
    rw [if_pos hpositional]
    exact ⟨w, hw, by rw [hsome]; rfl, hsign hneg hmag⟩
  · obtain ⟨w, hw, hneg, hsome, hmag⟩ :=
      exists_form_scientific hwhole.toDigits (point - 1) (Decimal.isNegative f)
    rw [if_neg hpositional]
    exact ⟨w, hw, by rw [hsome, Bool.or_true], hsign hneg hmag⟩

end PhpNames.Json
