/-
  PhpNames.Proofs.UnionType.NativeGrammar — the grammar of native type names.

      name   =   [ ? ]   word   [] … []

  The word is one of the native names in any letter case; the mark in front may stand once, and
  those behind any number of times.  A name is native exactly when it is written so
  (`isNativeTypeName_iff_nativeName`).  One direction takes the marks off a name and finds the word
  (`exists_eq_bareTypeName`); the other puts marks around a word, which has none itself.

  From this the answer for a type text follows part by part: the union of a text is native exactly
  when some part of the text is not blank, and all such parts are native names
  (`isNative_ofText_iff`).
-/
import PhpNames.Proofs.UnionType.FirstSeen
import PhpNames.Proofs.UnionType.NativeNames

namespace PhpNames

/-! ## §1. The grammar. -/

/-- Array marks, one behind the other. -/
def arrayMarks : (count : Nat) → String
  | 0 => ""
  | k + 1 => arrayMarks k ++ "[]"

/-- The native type names as they may be written: a native word with array marks behind it, and with
    or without a `?` in front. -/
inductive NativeName : String → Prop where
  | plain {word : String} (h : IsNativeWord word) (k : Nat) : NativeName (word ++ arrayMarks k)
  | nullable {word : String} (h : IsNativeWord word) (k : Nat) :
      NativeName ("?" ++ word ++ arrayMarks k)

/-! ## §2. Marks behind a name. -/

/-- Array marks at the end do not matter to a mark in front. -/
theorem dropNullMark_append_arrayMark (cs : List Char) :
    dropNullMark (cs ++ ['[', ']']) = dropNullMark cs ++ ['[', ']'] := by
  cases cs with
  | nil => rfl
  | cons c cs =>
    by_cases hc : c = '?'
    · subst hc
      rfl
    · simp [dropNullMark, hc]

/-- A mark that is put behind a name is the first one to be taken off. -/
theorem bareTypeName_arrayMark (name : String) :
    bareTypeName (name ++ "[]") = bareTypeName name := by
  have hchars : (name ++ "[]").toList = name.toList ++ ['[', ']'] := by simp
  unfold bareTypeName
  rw [hchars, dropNullMark_append_arrayMark, List.reverse_append]
  rfl

/-- Array marks behind a name, in any number, do not matter for being native. -/
theorem isNativeTypeName_arrayMarks (name : String) (k : Nat) :
    isNativeTypeName (name ++ arrayMarks k) = isNativeTypeName name := by
  induction k with
  | zero => simp [arrayMarks]
  | succ k ih =>
    show isNativeTypeName (name ++ (arrayMarks k ++ "[]")) = _
    rw [← ih, ← String.append_assoc]
    unfold isNativeTypeName
    rw [bareTypeName_arrayMark]

/-- Read backwards, a name begins with its array marks. -/
theorem exists_reverse_eq_dropArrayMarks (cs : List Char) :
    ∃ k, cs.reverse = (dropArrayMarks cs).reverse ++ (arrayMarks k).toList := by
  fun_induction dropArrayMarks cs with
  | case1 cs ih =>
    obtain ⟨k, hk⟩ := ih
    refine ⟨k + 1, ?_⟩
    simp [arrayMarks, hk]
  | case2 cs => exact ⟨0, by simp [arrayMarks]⟩

/-- A text has a mark in front of the rest, or is the rest. -/
theorem eq_dropNullMark_or (cs : List Char) :
    cs = dropNullMark cs ∨ cs = '?' :: dropNullMark cs := by
  unfold dropNullMark
  split
  · exact Or.inr rfl
  · exact Or.inl rfl

/-- A name is its bare name and the marks around it. -/
theorem exists_eq_bareTypeName (name : String) :
    ∃ k, name = bareTypeName name ++ arrayMarks k ∨
      name = "?" ++ bareTypeName name ++ arrayMarks k := by
  obtain ⟨k, hk⟩ := exists_reverse_eq_dropArrayMarks (dropNullMark name.toList).reverse
  have hrest : (bareTypeName name ++ arrayMarks k).toList = dropNullMark name.toList := by
    rw [List.reverse_reverse] at hk
    rw [String.toList_append, hk]
    unfold bareTypeName
    rw [String.toList_ofList]
  refine ⟨k, ?_⟩
  -- the mark in front is taken off first, so it is put back last
  rcases eq_dropNullMark_or name.toList with hplain | hnull
  · left
    rw [← String.toList_inj, hrest]
    exact hplain
  · right
    rw [← String.toList_inj, String.append_assoc, String.toList_append, hrest]
    exact hnull

/-! ## §3. Words. -/

/-- A text of letters has no mark in front. -/
theorem head?_ne_nullMark {name : String} (h : ∀ c ∈ name.toList, c.isAlpha = true) :
    name.toList.head? ≠ some '?' := by
  intro hmark
  exact absurd (h '?' (List.mem_of_mem_head? hmark)) (by decide)

/-- A name without marks is its own bare name. -/
theorem bareTypeName_of_isAlpha {name : String} (h : ∀ c ∈ name.toList, c.isAlpha = true) :
    bareTypeName name = name := by
  -- neither mark is a letter, so there is nothing to take off at either end
  have hback : dropArrayMarks name.toList.reverse = name.toList.reverse := by
    unfold dropArrayMarks
    split
    · next cs hchars =>
      have hmem : ']' ∈ name.toList := by
        rw [← List.mem_reverse, hchars]
        exact List.mem_cons_self
      exact absurd (h ']' hmem) (by decide)
    · rfl
  unfold bareTypeName
  rw [dropNullMark_of_head?_ne (head?_ne_nullMark h), hback, List.reverse_reverse,
    String.ofList_toList]

/-- A native word is a native name by itself. -/
theorem IsNativeWord.isNativeTypeName {word : String} (h : IsNativeWord word) :
    isNativeTypeName word = true := by
  rw [isNativeTypeName_iff_isNativeWord, bareTypeName_of_isAlpha fun c hc => h.isAlpha_of_mem hc]
  exact h

/-- A word does not begin with a mark, so one `?` in front of it is taken off. -/
theorem IsNativeWord.isNativeTypeName_nullMark {word : String} (h : IsNativeWord word) :
    PhpNames.isNativeTypeName ("?" ++ word) = true := by
  unfold PhpNames.isNativeTypeName
  rw [bareTypeName_nullMark (head?_ne_nullMark fun c hc => h.isAlpha_of_mem hc)]
  exact h.isNativeTypeName

/-- The test accepts what the grammar says, and nothing else. -/
theorem isNativeTypeName_iff_nativeName {name : String} :
    isNativeTypeName name = true ↔ NativeName name := by
  constructor
  · intro h
    have hword : IsNativeWord (bareTypeName name) := isNativeTypeName_iff_isNativeWord.mp h
    -- the word in the middle is native; the marks around it are those that were taken off
    obtain ⟨k, hname | hname⟩ := exists_eq_bareTypeName name
    · rw [hname]
      exact .plain hword k
    · rw [hname]
      exact .nullable hword k
  · intro h
    cases h with
    | plain hword k =>
      rw [isNativeTypeName_arrayMarks]
      exact hword.isNativeTypeName
    | nullable hword k =>
      rw [isNativeTypeName_arrayMarks]
      exact hword.isNativeTypeName_nullMark

/-! ## §4. Letter case. -/

theorem dropNullMark_map_toLower (cs : List Char) :
    dropNullMark (cs.map Char.toLower) = (dropNullMark cs).map Char.toLower := by
  cases cs with
  | nil => rfl
  | cons c cs =>
    by_cases hc : c = '?'
    · subst hc
      rfl
    · have hlower : c.toLower ≠ '?' := mt (Text.toLower_eq_iff rfl).mp hc
      simp [dropNullMark, hc, hlower]

theorem dropArrayMarks_map_toLower (cs : List Char) :
    dropArrayMarks (cs.map Char.toLower) = (dropArrayMarks cs).map Char.toLower := by
  fun_induction dropArrayMarks cs with
  | case1 cs ih => exact ih
  | case2 cs hend =>
    -- no pair of marks comes to the front, since nothing else becomes a mark
    unfold dropArrayMarks
    split
    · next ds hds =>
      obtain ⟨c, rest, rfl, hc, hrest⟩ := List.map_eq_cons_iff.mp hds
      obtain ⟨d, rest, rfl, hd, -⟩ := List.map_eq_cons_iff.mp hrest
      rw [Text.toLower_eq_iff rfl] at hc hd
      exact absurd (by rw [hc, hd]) (hend rest)
    · rfl

/-- Marks may be taken off before or after a name is written in small letters. -/
theorem bareTypeName_lower (name : String) :
    bareTypeName (Text.lower name) = Text.lower (bareTypeName name) := by
  unfold bareTypeName
  rw [← String.toList_inj, Text.toList_lower, Text.toList_lower, String.toList_ofList,
    String.toList_ofList, dropNullMark_map_toLower, ← List.map_reverse, dropArrayMarks_map_toLower,
    List.map_reverse]

/-- Letter case does not decide whether a name is native. -/
theorem isNativeTypeName_congr {name other : String} (h : Text.lower name = Text.lower other) :
    isNativeTypeName name = isNativeTypeName other := by
  have hbare : Text.lower (bareTypeName name) = Text.lower (bareTypeName other) := by
    rw [← bareTypeName_lower, ← bareTypeName_lower, h]
  rw [Bool.eq_iff_iff, isNativeTypeName_iff_isNativeWord, isNativeTypeName_iff_isNativeWord]
  unfold IsNativeWord
  rw [hbare]

/-! ## §5. Type texts. -/

namespace UnionType

/-- A union is native if it has atoms and all of them are. -/
theorem isNative_iff {u : UnionType} :
    u.isNative = true ↔ (∃ a, a ∈ u.atoms) ∧ ∀ a ∈ u.atoms, isNativeTypeName a = true := by
  unfold isNative isEmpty
  rw [Bool.and_eq_true, Bool.not_eq_true', List.isEmpty_eq_false_iff_exists_mem,
    List.all_eq_true]

/-- Blank parts count for nothing, but not all parts may be blank. -/
theorem isNative_ofText_iff {text : String} :
    (ofText text).isNative = true ↔
      (∃ part ∈ parts text, Text.trim part ≠ "") ∧
      ∀ part ∈ parts text, Text.trim part ≠ "" → NativeName (Text.trim part) := by
  rw [isNative_iff, atoms_ofText]
  simp only [textAtoms, List.mem_eraseDups, mem_writtenAtoms, isNativeTypeName_iff_nativeName]
  constructor
  · intro h
    obtain ⟨⟨a, part, hpart, hne, -⟩, hall⟩ := h
    exact ⟨⟨part, hpart, hne⟩, fun p hp hpne => hall _ ⟨p, hp, hpne, rfl⟩⟩
  · intro h
    obtain ⟨⟨part, hpart, hne⟩, hall⟩ := h
    refine ⟨⟨_, part, hpart, hne, rfl⟩, ?_⟩
    intro a ha
    obtain ⟨p, hp, hpne, rfl⟩ := ha
    exact hall p hp hpne

end UnionType

open UnionType (parts ofText)

/-- **Native names are those of the grammar**: a name is native exactly when it is written as an
    optional `?`, a native word in any letter case and array marks.  More array marks or another
    letter case change nothing, and the union of a type text is native exactly when there are parts
    in it that are not blank and all of them are native names. -/
theorem native_by_grammar :
    (∀ name, isNativeTypeName name = true ↔ NativeName name) ∧
    (∀ name k, isNativeTypeName (name ++ arrayMarks k) = isNativeTypeName name) ∧
    (∀ name other, Text.lower name = Text.lower other →
      isNativeTypeName name = isNativeTypeName other) ∧
    ∀ text, (ofText text).isNative = true ↔
      (∃ part ∈ parts text, Text.trim part ≠ "") ∧
      ∀ part ∈ parts text, Text.trim part ≠ "" → NativeName (Text.trim part) :=
  ⟨fun _ => isNativeTypeName_iff_nativeName, isNativeTypeName_arrayMarks,
    fun _ _ h => isNativeTypeName_congr h, fun _ => UnionType.isNative_ofText_iff⟩

/-- Marks alone are no name, and a blank part does no harm. -/
theorem native_by_grammar_marks :
    ∃ (name other text : String) (k : Nat),
      Text.lower name = Text.lower other ∧ isNativeTypeName name = true ∧
      isNativeTypeName other = true ∧ NativeName (other ++ arrayMarks k) ∧
      (∀ marks ∈ ["?", "[]", "?[]", "??int", "int[[]"], ¬NativeName marks) ∧
      (ofText text).isNative = true ∧ (ofText text).atoms = ["?int[]", "NULL"] := by
  obtain ⟨hgrammar, hmarks, hletters, htext⟩ := native_by_grammar
  have hword : IsNativeWord "iNt" := ⟨"int", by decide, by decide⟩
  have hname : NativeName ("?" ++ "iNt" ++ arrayMarks 1) := .nullable hword 1
  have hnative : isNativeTypeName "?iNt[]" = true := (hgrammar _).mpr hname
  have hcase : Text.lower "?iNt[]" = Text.lower "?INT[]" := by decide
  have hother : isNativeTypeName "?INT[]" = true := (hletters _ _ hcase).symm.trans hnative
  have hmore : NativeName ("?INT[]" ++ arrayMarks 3) :=
    (hgrammar _).mp ((hmarks _ 3).trans hother)
  refine ⟨"?iNt[]", "?INT[]", " ?int[] ||\tNULL|?int[]", 3, hcase, hnative, hother, hmore, ?_, ?_,
    by decide +kernel⟩
  · intro marks hmem
    rw [← hgrammar]
    revert marks
    decide +kernel
  · have hnull : IsNativeWord "NULL" := ⟨"null", by decide, by decide⟩
    have hint : IsNativeWord "int" := ⟨"int", by decide, by decide⟩
    have hparts : parts " ?int[] ||\tNULL|?int[]" = [" ?int[] ", "", "\tNULL", "?int[]"] := by
      decide +kernel
    rw [htext, hparts]
    refine ⟨⟨" ?int[] ", by decide, by decide +kernel⟩, ?_⟩
    intro part hpart hne
    simp only [List.mem_cons, List.not_mem_nil, or_false] at hpart
    rcases hpart with rfl | rfl | rfl | rfl
    · exact .nullable hint 1
    · exact absurd (by decide +kernel) hne
    · exact .plain hnull 0
    · exact .nullable hint 1

end PhpNames
