/-
  PhpNames.Proofs.Text.Trimmed — texts without blanks around them.

  A list is left alone by a cut exactly when neither of its ends is a character of the class, and
  both ends of a list that has been cut are none.  So a second cut finds nothing to do.

    • `cut_eq_self_iff`, `trim_eq_self_iff` — what is left alone,
    • `cut_cut`, `trim_trim` — one cut is enough,
    • `cut_append_append` — what is cut off,
    • `getLast?_cut_eq_some_iff` — the last character that a cut leaves,
    • `mem_of_mem_trim` — a cut brings no character in.
-/
import Mathlib.Data.List.DropRight
import PhpNames.Text.Trim

namespace PhpNames.Text

/-! ## §1. Cutting a list. -/

variable {p : Char → Bool} {cs : List Char}

theorem dropEndWhile_eq_rdropWhile (p : Char → Bool) (cs : List Char) :
    dropEndWhile p cs = cs.rdropWhile p := rfl

/-- What is cut out is a piece of the whole. -/
theorem cut_isInfix (p : Char → Bool) (cs : List Char) : cut p cs <:+: cs := by
  unfold cut
  rw [dropEndWhile_eq_rdropWhile]
  exact (List.rdropWhile_prefix p _).isInfix.trans (List.dropWhile_suffix p).isInfix

/-- Where a cut takes nothing away, nothing goes at the start. -/
theorem dropWhile_eq_self_of_cut (h : cut p cs = cs) : cs.dropWhile p = cs := by
  -- otherwise the list would be shorter than itself
  have hle : (cut p cs).length ≤ (cs.dropWhile p).length := by
    unfold cut
    rw [dropEndWhile_eq_rdropWhile]
    exact (List.rdropWhile_prefix p _).length_le
  rw [h] at hle
  exact (List.dropWhile_suffix p).eq_of_length_le hle

/-- Nothing goes at the end if the last character may stay. -/
theorem dropEndWhile_eq_self_iff :
    dropEndWhile p cs = cs ↔ ∀ c ∈ cs.getLast?, p c = false := by
  rw [dropEndWhile_eq_rdropWhile, List.rdropWhile_eq_self_iff]
  constructor
  · intro h c hc
    obtain ⟨hne, rfl⟩ := List.mem_getLast?_eq_getLast hc
    simpa using h hne
  · intro h hne
    simp [h _ (List.getLast_mem_getLast? hne)]

/-- A cut leaves alone what has neither end in the class. -/
theorem cut_eq_self_iff :
    cut p cs = cs ↔ (∀ c ∈ cs.head?, p c = false) ∧ (∀ c ∈ cs.getLast?, p c = false) := by
  constructor
  · intro h
    -- cutting the start gives a suffix, so nothing was cut at either end
    have hstart := dropWhile_eq_self_of_cut h
    have hend : dropEndWhile p cs = cs := by
      unfold cut at h
      rwa [hstart] at h
    refine ⟨?_, dropEndWhile_eq_self_iff.mp hend⟩
    intro c hc
    have := List.head?_dropWhile_not p cs
    rw [hstart, hc] at this
    exact this
  · rintro ⟨hhead, hlast⟩
    have hstart : cs.dropWhile p = cs := by
      cases cs with
      | nil => rfl
      | cons c cs =>
        rw [List.dropWhile_cons, if_neg]
        simp [hhead c rfl]
    unfold cut
    rw [hstart, dropEndWhile_eq_self_iff]
    exact hlast

/-- Both ends of a cut are outside of the class: the end by the second cut, and the start because
    the second cut keeps it. -/
theorem cut_cut (p : Char → Bool) (cs : List Char) : cut p (cut p cs) = cut p cs := by
  rw [cut_eq_self_iff]
  constructor
  · intro c hc
    -- what the second cut leaves starts as the list that it was given
    obtain ⟨rest, hrest⟩ := List.rdropWhile_prefix p (cs.dropWhile p)
    have hhead : (cs.dropWhile p).head? = some c := by
      rw [← hrest, ← dropEndWhile_eq_rdropWhile, List.head?_append]
      show (cut p cs).head?.or _ = some c
      rw [hc]
      rfl
    have := List.head?_dropWhile_not p cs
    rw [hhead] at this
    exact this
  · intro c hc
    obtain ⟨hne, rfl⟩ := List.mem_getLast?_eq_getLast hc
    have := List.rdropWhile_last_not p (cs.dropWhile p) hne
    rwa [Bool.not_eq_true] at this

/-- What stands around a list that is left alone is cut off. -/
theorem cut_append_append {before after : List Char} (hbefore : ∀ c ∈ before, p c = true)
    (hafter : ∀ c ∈ after, p c = true) (hne : cs ≠ []) (h : cut p cs = cs) :
    cut p (before ++ (cs ++ after)) = cs := by
  have hstart : cs.dropWhile p = cs := dropWhile_eq_self_of_cut h
  have hend : dropEndWhile p cs = cs := by
    unfold cut at h
    rwa [hstart] at h
  have hfront : (cs ++ after).dropWhile p = cs ++ after := by
    cases cs with
    | nil => exact absurd rfl hne
    | cons c cs =>
      have hc : p c = false := (cut_eq_self_iff.mp h).1 c rfl
      rw [List.cons_append, List.dropWhile_cons, hc]
      rfl
  unfold cut
  rw [List.dropWhile_append_of_pos hbefore, hfront]
  -- from behind, the list comes after what is cut off
  unfold dropEndWhile at hend ⊢
  have hback : ∀ c ∈ after.reverse, p c = true := by
    intro c hc
    exact hafter c (List.mem_reverse.mp hc)
  rw [List.reverse_append, List.dropWhile_append_of_pos hback, hend]

/-- A first character that has to go does not matter. -/
theorem cut_cons_of_pos {c : Char} (hc : p c = true) (cs : List Char) :
    cut p (c :: cs) = cut p cs := by
  unfold cut
  rw [List.dropWhile_cons, hc]
  rfl

/-- What begins with a character outside of the class is cut at its end alone. -/
theorem cut_cons_of_neg {c : Char} (hc : p c = false) (cs : List Char) :
    cut p (c :: cs) = c :: dropEndWhile p cs := by
  unfold cut dropEndWhile
  rw [List.dropWhile_cons, hc, if_neg Bool.false_ne_true, List.reverse_cons, List.dropWhile_append]
  split
  · next hall =>
    rw [List.isEmpty_iff] at hall
    simp [hall, hc]
  · simp

/-- From the end everything goes up to the last character that may stay. -/
theorem dropEndWhile_append_cons {b : Char} (hb : p b = false) (front : List Char)
    {back : List Char} (hback : ∀ c ∈ back, p c = true) :
    dropEndWhile p (front ++ b :: back) = front ++ [b] := by
  have hrev : ∀ c ∈ back.reverse, p c = true := by simpa using hback
  unfold dropEndWhile
  rw [List.reverse_append, List.reverse_cons, List.append_assoc,
    List.dropWhile_append_of_pos hrev, List.singleton_append, List.dropWhile_cons, hb]
  simp

/-- A character that may stay is as far as it goes from the start. -/
theorem dropWhile_append_cons {b : Char} (hb : p b = false) (front back : List Char) :
    (front ++ b :: back).dropWhile p = front.dropWhile p ++ b :: back := by
  rw [List.dropWhile_append]
  split
  · next hnil =>
    rw [List.isEmpty_iff] at hnil
    simp [hnil, hb]
  · rfl

/-- The last character that a cut leaves is the one that has only characters of the class behind
    it. -/
theorem getLast?_cut_eq_some_iff {b : Char} (hb : p b = false) :
    (cut p cs).getLast? = some b ↔
      ∃ front back, cs = front ++ b :: back ∧ ∀ c ∈ back, p c = true := by
  constructor
  · intro h
    obtain ⟨kept, hkept⟩ := List.getLast?_eq_some_iff.mp h
    -- the list is what is cut off in front, what is kept, and what is cut off behind
    have hend : cut p cs ++ (cs.dropWhile p).rtakeWhile p = cs.dropWhile p :=
      List.rdropWhile_append_rtakeWhile
    refine ⟨cs.takeWhile p ++ kept, (cs.dropWhile p).rtakeWhile p, ?_, ?_⟩
    · rw [List.append_assoc, List.append_cons, ← hkept, hend, List.takeWhile_append_dropWhile]
    · intro c hc
      exact List.mem_rtakeWhile_imp hc
  · rintro ⟨front, back, rfl, hback⟩
    unfold cut
    rw [dropWhile_append_cons hb, dropEndWhile_append_cons hb _ hback, List.getLast?_concat]

/-! ## §2. Trimming a text. -/

@[simp]
theorem toList_trim (s : String) : (trim s).toList = cut isBlank s.toList := by
  simp [trim]

/-- A text is left alone when it neither starts nor ends with a blank. -/
theorem trim_eq_self_iff {s : String} :
    trim s = s ↔
      (∀ c ∈ s.toList.head?, isBlank c = false) ∧ (∀ c ∈ s.toList.getLast?, isBlank c = false) := by
  rw [← cut_eq_self_iff, ← toList_trim, String.toList_inj]

theorem trim_trim (s : String) : trim (trim s) = trim s := by
  rw [← String.toList_inj]
  simp [cut_cut]

/-- Trimming adds no character. -/
theorem mem_of_mem_trim {s : String} {c : Char} (h : c ∈ (trim s).toList) : c ∈ s.toList := by
  rw [toList_trim] at h
  exact (cut_isInfix isBlank s.toList).mem h

end PhpNames.Text
