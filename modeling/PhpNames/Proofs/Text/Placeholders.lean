/-
  PhpNames.Proofs.Text.Placeholders — placeholders in a text, and a pass that writes for them.

  A placeholder starts with an opening brace and has no other.  So no placeholder reaches over an
  opening brace, two of them do not overlap, and a text starts with one of them at most.  This is
  why a pass over a text can be cut in front of an opening brace, and goes through the parts of the
  text between the placeholders of a number one by one (`pass_joined`).

  A substitution for one placeholder is a pass with a table of one entry
  (`substituteFrom_placeholder`).
-/
import PhpNames.Proofs.Json.Literals
import PhpNames.Text.Template

namespace PhpNames.Text

/-! ## §1. Placeholders. -/

theorem toList_placeholder (i : Nat) :
    (placeholder i).toList = '\x7b' :: (Nat.toDigits 10 i ++ ['\x7d']) := by
  unfold placeholder natText
  simp

/-- Only the first character of a placeholder is an opening brace, so two of them do not overlap. -/
theorem openBrace_notMem_tail (i : Nat) : '\x7b' ∉ (placeholder i).toList.tail := by
  rw [toList_placeholder]
  intro hmem
  rcases List.mem_append.mp hmem with hdigit | hclose
  · exact absurd (Decimal.isDigit_of_mem_digits hdigit) (by decide)
  · simp at hclose

/-- The number of a placeholder is read off its digits. -/
theorem takeWhile_of_placeholder_prefix {i : Nat} {cs : List Char}
    (h : (placeholder i).toList <+: cs) :
    cs.tail.takeWhile Char.isDigit = Nat.toDigits 10 i := by
  obtain ⟨rest, rfl⟩ := h
  rw [toList_placeholder]
  show ((Nat.toDigits 10 i ++ ['\x7d']) ++ rest).takeWhile Char.isDigit = _
  rw [List.append_assoc]
  exact ((Json.digits_toDigits i).takeWhile (Json.noDigit_cons rfl)).1

/-- A text starts with one placeholder at most. -/
theorem placeholder_unique {i j : Nat} {cs : List Char} (hi : (placeholder i).toList <+: cs)
    (hj : (placeholder j).toList <+: cs) : i = j := by
  have hdigits : Nat.toDigits 10 i = Nat.toDigits 10 j := by
    rw [← takeWhile_of_placeholder_prefix hi, takeWhile_of_placeholder_prefix hj]
  rw [← Nat.ofDigitChars_toDigits (b := 10) (n := i) (by omega) (by omega), hdigits]
  exact Nat.ofDigitChars_toDigits (by omega) (by omega)

/-- Where one placeholder begins no other does. -/
theorem isPrefixOf_placeholder_append (i j : Nat) (cs : List Char) :
    (placeholder j).toList.isPrefixOf ((placeholder i).toList ++ cs) = (j == i) := by
  rw [Bool.eq_iff_iff, List.isPrefixOf_iff_prefix, beq_iff_eq]
  constructor
  · intro h
    exact placeholder_unique h (List.prefix_append _ cs)
  · intro h
    subst h
    exact List.prefix_append _ cs

/-- A placeholder that starts in front of a place and does not end there goes on with a closing
    brace, and with no opening one. -/
theorem placeholder_prefix_append {i : Nat} {c : Char} {xs ys : List Char}
    (h : (placeholder i).toList <+: c :: (xs ++ ys)) :
    (placeholder i).toList <+: c :: xs ∨
      ∃ rest, rest <+: ys ∧ '\x7d' ∈ rest ∧ '\x7b' ∉ rest := by
  have hshort : c :: xs <+: c :: (xs ++ ys) := List.prefix_append (c :: xs) ys
  -- the placeholder ends inside `xs`, or it runs over into `ys`
  rcases List.prefix_or_prefix_of_prefix h hshort with hin | hover
  · exact Or.inl hin
  · obtain ⟨rest, hrest⟩ := hover
    rw [← hrest] at h
    have hover : rest <+: ys := (List.prefix_append_right_inj (c :: xs)).mp h
    by_cases hnil : rest = []
    · rw [hnil, List.append_nil] at hrest
      rw [← hrest]
      exact Or.inl (List.prefix_refl _)
    · -- what runs over is an end of the placeholder, with its last brace and without its first
      refine Or.inr ⟨rest, hover, ?_, ?_⟩
      · have hlast : (placeholder i).toList.getLast? = some '\x7d' := by
          rw [toList_placeholder, ← List.cons_append]
          exact List.getLast?_concat
        rw [← hrest, List.getLast?_append_of_ne_nil _ hnil] at hlast
        exact List.mem_of_getLast? hlast
      · intro hmem
        apply openBrace_notMem_tail i
        rw [← hrest]
        simp [hmem]

/-- No placeholder that starts in front of the text reaches into it. -/
def Unreached (ys : List Char) : Prop :=
  ∀ (i : Nat) (c : Char) (xs : List Char),
    (placeholder i).toList.isPrefixOf (c :: (xs ++ ys)) =
      (placeholder i).toList.isPrefixOf (c :: xs)

/-- What cannot complete a placeholder is reached by none from before. -/
theorem unreached_of_not_exists {ys : List Char}
    (h : ¬∃ rest, rest <+: ys ∧ '\x7d' ∈ rest ∧ '\x7b' ∉ rest) : Unreached ys := by
  intro i c xs
  rw [Bool.eq_iff_iff, List.isPrefixOf_iff_prefix, List.isPrefixOf_iff_prefix]
  constructor
  · intro hfront
    exact (placeholder_prefix_append hfront).resolve_right h
  · intro hfront
    exact hfront.trans (List.prefix_append (c :: xs) ys)

/-- A brace that opens is reached by no placeholder from before. -/
theorem unreached_open (ys : List Char) : Unreached ('\x7b' :: ys) := by
  apply unreached_of_not_exists
  rintro ⟨rest, hfront, hclose, hopen⟩
  cases rest with
  | nil => simp at hclose
  | cons d ds =>
    obtain rfl : d = '\x7b' := (List.cons_prefix_cons.mp hfront).1
    exact hopen List.mem_cons_self

/-- What has no closing brace is reached by no placeholder from before. -/
theorem unreached_of_notMem {ys : List Char} (h : '\x7d' ∉ ys) : Unreached ys := by
  apply unreached_of_not_exists
  rintro ⟨rest, hfront, hclose, -⟩
  exact h (hfront.subset hclose)

/-- A placeholder begins with a brace. -/
theorem isPrefixOf_placeholder_of_ne (i : Nat) {c : Char} (h : c ≠ '\x7b') (cs : List Char) :
    (placeholder i).toList.isPrefixOf (c :: cs) = false := by
  rw [toList_placeholder, List.isPrefixOf_cons_cons]
  simp [h.symm]

/-- A placeholder is its brace and characters that are no opening brace. -/
theorem placeholder_append_eq_cons (i : Nat) (cs : List Char) :
    (placeholder i).toList ++ cs = '\x7b' :: ((placeholder i).toList.tail ++ cs) := by
  rw [toList_placeholder]
  rfl

/-! ## §2. Passes. -/

/-- The entry of a table whose placeholder the text starts with. -/
def entryAt? (table : List (String × Nat)) (cs : List Char) : Option (String × Nat) :=
  table.find? fun e => (placeholder e.2).toList.isPrefixOf cs

/-- Writes the text of its entry for every placeholder that the table has one for, from the left,
    and copies everything else.  The first `skip` characters belong to a placeholder that has been
    written for already. -/
def passFrom (table : List (String × Nat)) : (skip : Nat) → List Char → List Char
  | _, [] => []
  | skip + 1, _ :: cs => passFrom table skip cs
  | 0, c :: cs =>
    match entryAt? table (c :: cs) with
    | some e => e.1.toList ++ passFrom table ((placeholder e.2).toList.length - 1) cs
    | none => c :: passFrom table 0 cs

/-- One pass over a text with a table of what is written for placeholders. -/
def pass (table : List (String × Nat)) (cs : List Char) : List Char := passFrom table 0 cs

/-- The template with each argument in the place of its placeholder, in one pass: what an argument
    brings in is not looked at again. -/
def onePass (template : String) (args : List String) : String :=
  String.ofList (pass args.zipIdx template.toList)

/-- What a pass writes for a placeholder. -/
def inPlace (table : List (String × Nat)) (i : Nat) : List Char :=
  ((table.find? fun e => e.2 == i).elim (placeholder i) Prod.fst).toList

variable {table : List (String × Nat)}

/-- What belongs to a placeholder is left out. -/
theorem passFrom_eq_drop (skip : Nat) (cs : List Char) :
    passFrom table skip cs = pass table (cs.drop skip) := by
  induction cs generalizing skip with
  | nil =>
    rw [List.drop_nil]
    cases skip <;> rfl
  | cons c cs ih =>
    cases skip with
    | zero => rfl
    | succ skip => exact ih skip

/-- A pass copies a character at which nothing is to be written. -/
theorem pass_cons_of_none {c : Char} {cs : List Char} (h : entryAt? table (c :: cs) = none) :
    pass table (c :: cs) = c :: pass table cs := by
  unfold pass
  rw [passFrom, h]

/-- A pass writes for a placeholder and goes on behind it. -/
theorem pass_cons_of_some {c : Char} {cs : List Char} {e : String × Nat}
    (h : entryAt? table (c :: cs) = some e) :
    pass table (c :: cs) =
      e.1.toList ++ passFrom table ((placeholder e.2).toList.length - 1) cs := by
  unfold pass
  rw [passFrom, h]

/-- A pass copies what has no opening brace. -/
theorem pass_append_of_notMem {xs : List Char} (h : '\x7b' ∉ xs) (cs : List Char) :
    pass table (xs ++ cs) = xs ++ pass table cs := by
  induction xs with
  | nil => rfl
  | cons c xs ih =>
    rw [List.mem_cons, not_or] at h
    have hnone : entryAt? table (c :: (xs ++ cs)) = none := by
      unfold entryAt?
      rw [List.find?_eq_none]
      intro e _
      simp [isPrefixOf_placeholder_of_ne e.2 (Ne.symm h.1)]
    show pass table (c :: (xs ++ cs)) = c :: (xs ++ pass table cs)
    rw [pass_cons_of_none hnone, ih h.2]

/-- At a placeholder the entry is the first one for it. -/
theorem entryAt?_placeholder (i : Nat) (cs : List Char) :
    entryAt? table ((placeholder i).toList ++ cs) = table.find? fun e => e.2 == i := by
  unfold entryAt?
  congr 1
  funext e
  exact isPrefixOf_placeholder_append i e.2 cs

/-- **A pass at a placeholder** writes its entry, or copies it if it has none. -/
theorem pass_placeholder (i : Nat) (cs : List Char) :
    pass table ((placeholder i).toList ++ cs) = inPlace table i ++ pass table cs := by
  have hentry : entryAt? table ((placeholder i).toList ++ cs) = table.find? fun e => e.2 == i :=
    entryAt?_placeholder i cs
  have hcons := placeholder_append_eq_cons i cs
  unfold inPlace
  -- an entry that is found is written; otherwise the placeholder is copied to its end
  cases hfind : table.find? fun e => e.2 == i with
  | some e =>
    have hi : e.2 = i := by simpa using List.find?_some hfind
    rw [hfind, hcons] at hentry
    rw [hcons, pass_cons_of_some hentry, passFrom_eq_drop, hi]
    simp
  | none =>
    rw [hfind, hcons] at hentry
    rw [hcons, pass_cons_of_none hentry, pass_append_of_notMem (openBrace_notMem_tail i)]
    simp [toList_placeholder]

/-- A pass can be cut in front of what no placeholder reaches into. -/
theorem pass_append {ys : List Char} (h : Unreached ys) (xs : List Char) :
    pass table (xs ++ ys) = pass table xs ++ pass table ys := by
  -- the skipped characters of a placeholder are all in front of the cut
  suffices hskip : ∀ skip ≤ xs.length,
      passFrom table skip (xs ++ ys) = passFrom table skip xs ++ pass table ys from
    hskip 0 (Nat.zero_le _)
  induction xs with
  | nil =>
    intro skip hle
    obtain rfl : skip = 0 := Nat.le_zero.mp hle
    rfl
  | cons c xs ih =>
    intro skip hle
    cases skip with
    | succ skip => exact ih skip (Nat.le_of_succ_le_succ hle)
    | zero =>
      have hsame : entryAt? table (c :: (xs ++ ys)) = entryAt? table (c :: xs) := by
        unfold entryAt?
        congr 1
        funext e
        exact h e.2 c xs
      show pass table (c :: (xs ++ ys)) = pass table (c :: xs) ++ pass table ys
      cases hentry : entryAt? table (c :: xs) with
      | none =>
        rw [pass_cons_of_none (hsame.trans hentry), pass_cons_of_none hentry]
        exact congrArg (c :: ·) (ih 0 (Nat.zero_le _))
      | some e =>
        have hle : (placeholder e.2).toList.length ≤ xs.length + 1 := by
          have hfront := List.find?_some hentry
          exact (List.isPrefixOf_iff_prefix.mp hfront).length_le
        rw [pass_cons_of_some (hsame.trans hentry), pass_cons_of_some hentry, ih _ (by omega),
          List.append_assoc]

/-- **A pass may be divided at a placeholder**, since none reaches into it from before or out of it.
    -/
theorem pass_append_placeholder (xs : List Char) (i : Nat) (ys : List Char) :
    pass table (xs ++ ((placeholder i).toList ++ ys)) =
      pass table xs ++ (inPlace table i ++ pass table ys) := by
  rw [← pass_placeholder, placeholder_append_eq_cons]
  exact pass_append (unreached_open _) xs

/-- A substitution for a placeholder is a pass with one entry. -/
theorem substituteFrom_placeholder (i : Nat) (new : String) (skip : Nat) (cs : List Char) :
    substituteFrom (placeholder i).toList new.toList skip cs = passFrom [(new, i)] skip cs := by
  induction cs generalizing skip with
  | nil => cases skip <;> rfl
  | cons c cs ih =>
    cases skip with
    | succ skip => exact ih skip
    | zero =>
      unfold substituteFrom passFrom entryAt?
      by_cases h : (placeholder i).toList.isPrefixOf (c :: cs) = true
      · simp only [List.find?_cons, h, if_true, ih]
      · simp only [List.find?_cons, h, List.find?_nil, ih]
        rfl

/-! ## §3. Occurrences. -/

/-- How often the placeholder of a number stands in a text. -/
def occurrences (i : Nat) : List Char → Nat
  | [] => 0
  | c :: cs =>
    (if (placeholder i).toList.isPrefixOf (c :: cs) then 1 else 0) + occurrences i cs

theorem occurrences_cons (i : Nat) (c : Char) (cs : List Char) :
    occurrences i (c :: cs) =
      (if (placeholder i).toList.isPrefixOf (c :: cs) then 1 else 0) + occurrences i cs := rfl

/-- A text without a brace has no placeholder begin in it. -/
theorem occurrences_append_of_notMem {i : Nat} {xs : List Char} (h : '\x7b' ∉ xs)
    (cs : List Char) : occurrences i (xs ++ cs) = occurrences i cs := by
  induction xs with
  | nil => rfl
  | cons c xs ih =>
    rw [List.mem_cons, not_or] at h
    rw [List.cons_append, occurrences_cons, isPrefixOf_placeholder_of_ne i (Ne.symm h.1), ih h.2]
    simp

/-- A placeholder occurs at its own place, and goes on with none. -/
theorem occurrences_placeholder (i : Nat) (cs : List Char) :
    occurrences i ((placeholder i).toList ++ cs) = 1 + occurrences i cs := by
  have hfront := isPrefixOf_placeholder_append i i cs
  rw [placeholder_append_eq_cons] at hfront ⊢
  rw [occurrences_cons, hfront, occurrences_append_of_notMem (openBrace_notMem_tail i)]
  simp

/-- Occurrences may be counted on both sides of a place that none reaches across. -/
theorem occurrences_append {ys : List Char} (h : Unreached ys) (i : Nat) (xs : List Char) :
    occurrences i (xs ++ ys) = occurrences i xs + occurrences i ys := by
  induction xs with
  | nil => exact (Nat.zero_add _).symm
  | cons c xs ih =>
    rw [List.cons_append, occurrences_cons, occurrences_cons, h, ih, Nat.add_assoc]

theorem occurrences_append_placeholder (i : Nat) (xs ys : List Char) :
    occurrences i (xs ++ ((placeholder i).toList ++ ys)) =
      occurrences i xs + (1 + occurrences i ys) := by
  rw [← occurrences_placeholder, placeholder_append_eq_cons]
  exact occurrences_append (unreached_open _) i xs

/-! ## §4. The parts between placeholders. -/

/-- A text is read placeholder by placeholder of a number, and what is none character by
    character. -/
@[elab_as_elim]
theorem placeholder_induction (i : Nat) {P : List Char → Prop} (nil : P [])
    (place : ∀ cs, P cs → P ((placeholder i).toList ++ cs))
    (copy : ∀ c cs, (placeholder i).toList.isPrefixOf (c :: cs) = false → P cs → P (c :: cs))
    (cs : List Char) : P cs := by
  -- on the length, since a placeholder takes several characters at once
  induction hlength : cs.length using Nat.strongRecOn generalizing cs with
  | _ n ih =>
    cases cs with
    | nil => exact nil
    | cons c cs =>
      cases hstart : (placeholder i).toList.isPrefixOf (c :: cs) with
      | false => exact copy c cs hstart (ih cs.length (by simp at hlength; omega) cs rfl)
      | true =>
        obtain ⟨rest, hrest⟩ := List.isPrefixOf_iff_prefix.mp hstart
        have hshorter : rest.length < n := by
          rw [← hlength, ← hrest, toList_placeholder]
          simp
          omega
        rw [← hrest]
        exact place rest (ih rest.length hshorter rest rfl)

/-- Parts of a text with a mark between them. -/
def joined (mark first : List Char) (rest : List (List Char)) : List Char :=
  first ++ rest.flatMap fun part => mark ++ part

/-- The first part is followed by the mark and the rest. -/
theorem joined_cons (mark first part : List Char) (rest : List (List Char)) :
    joined mark first (part :: rest) = first ++ (mark ++ joined mark part rest) := by
  unfold joined
  simp

/-- **Every text is its parts without a placeholder, with the placeholder between them.** -/
theorem exists_joined (i : Nat) (cs : List Char) :
    ∃ first rest, cs = joined (placeholder i).toList first rest ∧ occurrences i first = 0 ∧
      ∀ part ∈ rest, occurrences i part = 0 := by
  induction cs using placeholder_induction i with
  | nil => exact ⟨[], [], rfl, rfl, by simp⟩
  | place cs ih =>
    -- a placeholder closes an empty part in front of the others
    obtain ⟨first, rest, rfl, hfirst, hrest⟩ := ih
    refine ⟨[], first :: rest, ?_, rfl, ?_⟩
    · rw [joined_cons]
      rfl
    · intro part hpart
      rcases List.mem_cons.mp hpart with hhead | htail
      · rw [hhead]
        exact hfirst
      · exact hrest part htail
  | copy c cs hstart ih =>
    obtain ⟨first, rest, rfl, hfirst, hrest⟩ := ih
    refine ⟨c :: first, rest, rfl, ?_, hrest⟩
    -- none begins at `c` either, for it would begin the whole text
    have hnot : (placeholder i).toList.isPrefixOf (c :: first) = false := by
      rw [← Bool.not_eq_true, List.isPrefixOf_iff_prefix] at hstart ⊢
      intro hfront
      exact hstart (hfront.trans (List.prefix_append (c :: first) _))
    rw [occurrences_cons, hnot, hfirst]
    simp

/-- A pass goes through the parts one by one. -/
theorem pass_joined (i : Nat) (first : List Char) (rest : List (List Char)) :
    pass table (joined (placeholder i).toList first rest) =
      joined (inPlace table i) (pass table first) (rest.map (pass table)) := by
  induction rest generalizing first with
  | nil => simp [joined]
  | cons part rest ih =>
    rw [List.map_cons, joined_cons, joined_cons, pass_append_placeholder, ih]

/-- Joined by a placeholder, parts have its occurrences between them beside their own. -/
theorem occurrences_joined (i : Nat) (first : List Char) (rest : List (List Char)) :
    occurrences i (joined (placeholder i).toList first rest) =
      rest.length + (occurrences i first + (rest.map (occurrences i)).sum) := by
  induction rest generalizing first with
  | nil => simp [joined]
  | cons part rest ih =>
    rw [joined_cons, occurrences_append_placeholder, ih, List.map_cons, List.sum_cons,
      List.length_cons]
    omega

/-- Joined parts are no longer if each part is no longer. -/
theorem length_joined_le (mark : List Char) {f g : List Char → List Char}
    (hle : ∀ cs, (f cs).length ≤ (g cs).length) (first : List Char) (rest : List (List Char)) :
    (joined mark (f first) (rest.map f)).length ≤ (joined mark (g first) (rest.map g)).length := by
  induction rest generalizing first with
  | nil => simpa [joined] using hle first
  | cons part rest ih =>
    have hfirst := hle first
    have hrest := ih part
    simp only [List.map_cons, joined_cons, List.length_append]
    omega

/-- Parts of which none is longer than the one in its place are these, if the joined texts are
    the same. -/
theorem joined_inj_of_length_le {mark : List Char} {f g : List Char → List Char}
    (hle : ∀ cs, (f cs).length ≤ (g cs).length) {first : List Char} {rest : List (List Char)}
    (h : joined mark (f first) (rest.map f) = joined mark (g first) (rest.map g)) :
    f first = g first ∧ ∀ part ∈ rest, f part = g part := by
  induction rest generalizing first with
  | nil =>
    have hsame : f first = g first := by simpa [joined] using h
    exact ⟨hsame, by simp⟩
  | cons part rest ih =>
    simp only [List.map_cons, joined_cons] at h
    have hlength := congrArg List.length h
    have hfirst := hle first
    have hrest := length_joined_le mark hle part rest
    simp only [List.length_append] at hlength
    -- no part grows and the sums agree, so the first parts have one length
    obtain ⟨hsame, hafter⟩ := List.append_inj h (by omega)
    obtain ⟨hpart, hothers⟩ := ih (List.append_cancel_left hafter)
    exact ⟨hsame, by simpa using ⟨hpart, hothers⟩⟩

end PhpNames.Text
