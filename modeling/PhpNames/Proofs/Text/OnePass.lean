/-
  PhpNames.Proofs.Text.OnePass — filling a template in one pass, and argument after argument.

  A template is filled by one substitution for each argument, and each goes over the text that the
  ones before it have left.  One pass over the template writes the arguments and does not look at
  them again.  The two part where a placeholder turns up that is none of the template's, inside of
  an argument or where an argument meets what stands beside it:

      {0} {1}   with   {1}, x    is   x x   argument after argument, and   {1} x   in one pass
      {{0}}     with   1, x      is   x     argument after argument, and   {1}     in one pass

  Up to an argument they agree.  Then its substitution does what the one pass does exactly when its
  placeholder stands in the text as often as in the template, or is the argument itself
  (`substitute_onePass_iff`).

  The messages of diagnostics have one placeholder.  The first argument is written for it, and the
  others are filled into the first one.
-/
import Mathlib.Algebra.Order.BigOperators.Group.List
import Mathlib.Data.List.Induction
import PhpNames.Diagnostic
import PhpNames.Proofs.Text.Placeholders

namespace PhpNames.Text

/-! ## §1. One substitution. -/

theorem pass_nil (cs : List Char) : pass [] cs = cs := by
  induction cs with
  | nil => rfl
  | cons c cs ih => rw [pass_cons_of_none rfl, ih]

/-- An entry that there is nothing to write for makes no difference. -/
theorem pass_concat_of_occurrences_eq_zero (table : List (String × Nat)) (new : String) {i : Nat}
    {cs : List Char} (h : occurrences i cs = 0) :
    pass (table ++ [(new, i)]) cs = pass table cs := by
  -- inside a placeholder the pass skips characters, so the statement is for every number of them
  suffices hskip : ∀ skip, passFrom (table ++ [(new, i)]) skip cs = passFrom table skip cs from
    hskip 0
  induction cs with
  | nil =>
    intro skip
    cases skip <;> rfl
  | cons c cs ih =>
    rw [occurrences_cons, Nat.add_eq_zero_iff] at h
    have hnot : (placeholder i).toList.isPrefixOf (c :: cs) = false := by
      rw [← Bool.not_eq_true]
      exact fun hstart => absurd h.1 (by rw [if_pos hstart]; omega)
    -- the new entry is never the one that is found, wherever the pass stands
    have hsame : entryAt? (table ++ [(new, i)]) (c :: cs) = entryAt? table (c :: cs) := by
      simp [entryAt?, hnot]
    intro skip
    cases skip with
    | succ skip => exact ih h.2 skip
    | zero =>
      unfold passFrom
      simp only [hsame, ih h.2]

/-- A pass for one placeholder copies a text in which that does not occur. -/
theorem pass_single_of_occurrences_eq_zero (new : String) {i : Nat} {cs : List Char}
    (h : occurrences i cs = 0) : pass [(new, i)] cs = cs :=
  (pass_concat_of_occurrences_eq_zero [] new h).trans (pass_nil cs)

theorem inPlace_single (new : String) (i : Nat) : inPlace [(new, i)] i = new.toList := by
  simp [inPlace]

/-- A pass for one placeholder copies a character at which that does not begin. -/
theorem pass_single_copy (new : String) {i : Nat} {c : Char} {cs : List Char}
    (h : (placeholder i).toList.isPrefixOf (c :: cs) = false) :
    pass [(new, i)] (c :: cs) = c :: pass [(new, i)] cs := by
  apply pass_cons_of_none
  simp [entryAt?, h]

/-- Writing a placeholder for itself changes nothing. -/
theorem pass_single_placeholder (i : Nat) (cs : List Char) :
    pass [(placeholder i, i)] cs = cs := by
  induction cs using placeholder_induction i with
  | nil => rfl
  | place cs ih => rw [pass_placeholder, inPlace_single, ih]
  | copy c cs hstart ih => rw [pass_single_copy _ hstart, ih]

/-- What a substitution does to the length of a text. -/
theorem length_pass_single (new : String) (i : Nat) (cs : List Char) :
    (pass [(new, i)] cs).length + occurrences i cs * (placeholder i).toList.length =
      cs.length + occurrences i cs * new.toList.length := by
  induction cs using placeholder_induction i with
  | nil => simp [pass, passFrom, occurrences]
  | place cs ih =>
    rw [pass_placeholder, inPlace_single, occurrences_placeholder]
    simp only [List.length_append, Nat.add_mul, Nat.one_mul]
    omega
  | copy c cs hstart ih =>
    rw [pass_single_copy _ hstart, occurrences_cons, hstart]
    simp only [List.length_cons, Bool.false_eq_true, if_false, Nat.zero_add]
    omega

/-- **When a substitution changes nothing**: there is nothing to write for, or what is written is
    the placeholder itself. -/
theorem pass_single_eq_self_iff (new : String) (i : Nat) (cs : List Char) :
    pass [(new, i)] cs = cs ↔ new = placeholder i ∨ occurrences i cs = 0 := by
  constructor
  · intro h
    have hlength := length_pass_single new i cs
    obtain ⟨first, rest, rfl, hfirst, -⟩ := exists_joined i cs
    rw [h, Nat.add_left_cancel_iff] at hlength
    cases rest with
    | nil => exact Or.inr (by simpa [joined] using hfirst)
    | cons part rest =>
      have hpos : 0 < occurrences i (joined (placeholder i).toList first (part :: rest)) := by
        rw [occurrences_joined, List.length_cons]
        omega
      have hsame : (placeholder i).toList.length = new.toList.length :=
        Nat.eq_of_mul_eq_mul_left hpos hlength
      -- the first thing that is written stands where the first placeholder stood
      rw [joined_cons, pass_append_placeholder, inPlace_single,
        pass_single_of_occurrences_eq_zero new hfirst, List.append_cancel_left_eq] at h
      have hnew := (List.append_inj h hsame.symm).1
      exact Or.inl (String.toList_inj.mp hnew)
  · intro h
    rcases h with hself | hzero
    · rw [hself]
      exact pass_single_placeholder i cs
    · exact pass_single_of_occurrences_eq_zero new hzero

/-- Where the parts of a text are joined by what a substitution writes, it changes nothing exactly
    if it changes none of the parts. -/
theorem joined_pass_single_eq_iff (new : String) (i : Nat) (first : List Char)
    (rest : List (List Char)) :
    joined new.toList (pass [(new, i)] first) (rest.map (pass [(new, i)])) =
        joined new.toList first rest ↔
      new = placeholder i ∨ (occurrences i first = 0 ∧ ∀ part ∈ rest, occurrences i part = 0) := by
  constructor
  · intro h
    have hparts : pass [(new, i)] first = first ∧ ∀ part ∈ rest, pass [(new, i)] part = part := by
      -- the parts all get longer, or all get shorter
      rcases Nat.le_total new.toList.length (placeholder i).toList.length with hle | hle
      · have hshorter (cs : List Char) : (pass [(new, i)] cs).length ≤ (id cs).length := by
          have hlength := length_pass_single new i cs
          have hmul := Nat.mul_le_mul_left (occurrences i cs) hle
          show (pass [(new, i)] cs).length ≤ cs.length
          omega
        exact joined_inj_of_length_le hshorter (by rw [h, List.map_id]; rfl)
      · have hlonger (cs : List Char) : (id cs).length ≤ (pass [(new, i)] cs).length := by
          have hlength := length_pass_single new i cs
          have hmul := Nat.mul_le_mul_left (occurrences i cs) hle
          show cs.length ≤ (pass [(new, i)] cs).length
          omega
        have heq : joined new.toList (id first) (rest.map id) =
            joined new.toList (pass [(new, i)] first) (rest.map (pass [(new, i)])) := by
          rw [h, List.map_id]
          rfl
        obtain ⟨hfirst, hrest⟩ := joined_inj_of_length_le hlonger heq
        exact ⟨hfirst.symm, fun part hpart => (hrest part hpart).symm⟩
    simp only [pass_single_eq_self_iff] at hparts
    by_cases hself : new = placeholder i
    · exact Or.inl hself
    · simpa [hself] using hparts
  · intro h
    have hpart : ∀ part, new = placeholder i ∨ occurrences i part = 0 →
        pass [(new, i)] part = part := fun part => (pass_single_eq_self_iff new i part).mpr
    have hfirst : pass [(new, i)] first = first := hpart first (h.imp_right And.left)
    have hrest : rest.map (pass [(new, i)]) = rest := by
      rw [List.map_congr_left fun part hmem => hpart part (h.imp_right fun hzero => hzero.2 part hmem)]
      exact List.map_id rest
    rw [hfirst, hrest]

/-! ## §2. One more argument. -/

theorem sum_occurrences_eq_zero {i : Nat} {parts : List (List Char)}
    (h : ∀ part ∈ parts, occurrences i part = 0) : (parts.map (occurrences i)).sum = 0 := by
  rw [List.sum_eq_zero_iff, List.forall_mem_map]
  exact h

theorem zipIdx_concat (front : List String) (a : String) :
    (front ++ [a]).zipIdx = front.zipIdx ++ [(a, front.length)] := by
  rw [List.zipIdx_append, Nat.zero_add]
  rfl

theorem find?_zipIdx_length (front : List String) :
    (front.zipIdx.find? fun e => e.2 == front.length) = none := by
  rw [List.find?_eq_none]
  intro e he
  have hlt : e.2 < front.length := by simpa using List.snd_lt_of_mem_zipIdx he
  simpa using Nat.ne_of_lt hlt

/-- Before and after one more argument, one pass leaves the same parts: with its placeholder
    between them, and with the argument itself. -/
theorem exists_onePass_joined (template : String) (front : List String) (a : String) :
    ∃ first rest,
      (onePass template front).toList = joined (placeholder front.length).toList first rest ∧
      (onePass template (front ++ [a])).toList = joined a.toList first rest ∧
      occurrences front.length template.toList = rest.length := by
  obtain ⟨first, rest, htext, hfirst, hrest⟩ := exists_joined front.length template.toList
  have hold : inPlace front.zipIdx front.length = (placeholder front.length).toList := by
    unfold inPlace
    rw [find?_zipIdx_length]
    rfl
  have hnew : inPlace (front ++ [a]).zipIdx front.length = a.toList := by
    unfold inPlace
    rw [zipIdx_concat, List.find?_append, find?_zipIdx_length]
    simp
  -- the parts have no placeholder of the new argument
  have hpart {part : List Char} (hzero : occurrences front.length part = 0) :
      pass (front ++ [a]).zipIdx part = pass front.zipIdx part := by
    rw [zipIdx_concat]
    exact pass_concat_of_occurrences_eq_zero _ a hzero
  have hparts : rest.map (pass (front ++ [a]).zipIdx) = rest.map (pass front.zipIdx) :=
    List.map_congr_left fun part hmem => hpart (hrest part hmem)
  refine ⟨pass front.zipIdx first, rest.map (pass front.zipIdx), ?_, ?_, ?_⟩
  · unfold onePass
    rw [String.toList_ofList, htext, pass_joined, hold]
  · unfold onePass
    rw [String.toList_ofList, htext, pass_joined, hnew, hpart hfirst, hparts]
  · rw [htext, occurrences_joined, hfirst, sum_occurrences_eq_zero hrest, List.length_map]
    simp

/-- **Substituting for one placeholder** is a pass with that placeholder alone. -/
theorem toList_substitute (i : Nat) (a text : String) :
    (substitute (placeholder i) a text).toList = pass [(a, i)] text.toList := by
  unfold substitute
  rw [String.toList_ofList, substituteFrom_placeholder]
  rfl

/-- **One more argument** is written as in one pass exactly if its placeholder stands in the text
    as often as in the template, or is the argument itself. -/
theorem substitute_onePass_iff (template : String) (front : List String) (a : String) :
    substitute (placeholder front.length) a (onePass template front) =
        onePass template (front ++ [a]) ↔
      a = placeholder front.length ∨
        occurrences front.length (onePass template front).toList =
          occurrences front.length template.toList := by
  obtain ⟨first, rest, hold, hnew, hcount⟩ := exists_onePass_joined template front a
  rw [← String.toList_inj, toList_substitute, hold, hnew, hcount, pass_joined, inPlace_single,
    joined_pass_single_eq_iff, occurrences_joined, Nat.add_eq_left, Nat.add_eq_zero_iff,
    List.sum_eq_zero_iff, List.forall_mem_map]

/-- The last argument is put in last, into the text that the arguments before it have left. -/
theorem fillFrom_concat (i : Nat) (text : String) (front : List String) (a : String) :
    fillFrom i text (front ++ [a]) =
      substitute (placeholder (i + front.length)) a (fillFrom i text front) := by
  induction front generalizing i text with
  | nil => rfl
  | cons b front ih =>
    show fillFrom (i + 1) (substitute (placeholder i) b text) (front ++ [a]) = _
    rw [ih, List.length_cons, Nat.add_assoc, Nat.add_comm 1]
    rfl

/-- So a template is filled one argument after the other. -/
theorem fill_concat (template : String) (front : List String) (a : String) :
    fill template (front ++ [a]) =
      substitute (placeholder front.length) a (fill template front) := by
  unfold fill
  rw [fillFrom_concat, Nat.zero_add]

/-- Without arguments a pass leaves the template as it is. -/
theorem onePass_nil (template : String) : onePass template [] = template := by
  unfold onePass
  rw [List.zipIdx_nil, pass_nil, String.ofList_toList]

/-! ## §3. All arguments. -/

/-- What two functions of the arguments agree on for all beginnings of them, they agree on argument
    by argument. -/
theorem beginnings_iff {f g : List String → String} {Step : List String → String → Prop}
    (hnil : f [] = g [])
    (hstep : ∀ front a, f front = g front → (f (front ++ [a]) = g (front ++ [a]) ↔ Step front a))
    (args : List String) :
    (∀ front, front <+: args → f front = g front) ↔
      ∀ front a, front ++ [a] <+: args → Step front a := by
  constructor
  · intro h front a hfront
    have hagree : f front = g front := h front ((List.prefix_append front [a]).trans hfront)
    exact (hstep front a hagree).mp (h (front ++ [a]) hfront)
  · intro h front
    -- from shorter beginnings to longer ones: the step at `a` needs agreement just before it
    induction front using List.reverseRecOn with
    | nil =>
      intro _
      exact hnil
    | append_singleton front a ih =>
      intro hfront
      have hagree : f front = g front := ih ((List.prefix_append front [a]).trans hfront)
      exact (hstep front a hagree).mpr (h front a hfront)

/-- **As in one pass, argument after argument**: so it is for all beginnings of the arguments if no
    argument finds its placeholder in the text more often than in the template, unless it is this
    placeholder itself. -/
theorem fill_eq_onePass_beginnings_iff (template : String) (args : List String) :
    (∀ front, front <+: args → fill template front = onePass template front) ↔
      ∀ front a, front ++ [a] <+: args → a = placeholder front.length ∨
        occurrences front.length (onePass template front).toList =
          occurrences front.length template.toList := by
  refine beginnings_iff (onePass_nil template).symm ?_ args
  intro front a hagree
  rw [fill_concat, hagree]
  exact substitute_onePass_iff template front a

/-- A text that is filled like a template stays as it is, for all beginnings of the arguments, if
    it has no placeholder of theirs. -/
theorem fillFrom_eq_self_beginnings_iff (i : Nat) (text : String) (args : List String) :
    (∀ front, front <+: args → fillFrom i text front = text) ↔
      ∀ front a, front ++ [a] <+: args → a = placeholder (i + front.length) ∨
        occurrences (i + front.length) text.toList = 0 := by
  refine beginnings_iff (f := fillFrom i text) (g := fun _ => text) rfl ?_ args
  intro front a hagree
  rw [fillFrom_concat, hagree, ← String.toList_inj, toList_substitute]
  exact pass_single_eq_self_iff a _ _

/-! ## §4. Arguments without opening braces. -/

/-- The number of opening braces. -/
def openBraces (cs : List Char) : Nat := cs.count '\x7b'

theorem openBraces_append (xs ys : List Char) :
    openBraces (xs ++ ys) = openBraces xs + openBraces ys := List.count_append

/-- A placeholder has one opening brace. -/
theorem openBraces_placeholder (i : Nat) : openBraces (placeholder i).toList = 1 := by
  have htail := List.count_eq_zero.mpr (openBrace_notMem_tail i)
  rw [toList_placeholder] at htail ⊢
  unfold openBraces
  rw [List.count_cons_self]
  exact congrArg (· + 1) htail

/-- The opening braces of a joined text are those of its parts and of the marks between them. -/
theorem openBraces_joined {mark : List Char} (first : List Char) (rest : List (List Char)) :
    openBraces (joined mark first rest) =
      rest.length * openBraces mark + (openBraces first + (rest.map openBraces).sum) := by
  induction rest generalizing first with
  | nil => simp [joined]
  | cons part rest ih =>
    rw [joined_cons, openBraces_append, openBraces_append, ih, List.map_cons, List.sum_cons,
      List.length_cons, Nat.add_mul, Nat.one_mul]
    omega

/-- A placeholder is not lost where another one is written for. -/
theorem occurrences_le_pass_single {i j : Nat} (hne : i ≠ j) (a : String) (cs : List Char) :
    occurrences j cs ≤ occurrences j (pass [(a, i)] cs) := by
  obtain ⟨first, rest, rfl, hfirst, hrest⟩ := exists_joined j cs
  have hkept : inPlace [(a, i)] j = (placeholder j).toList := by
    simp [inPlace, hne]
  rw [pass_joined, hkept, occurrences_joined, occurrences_joined, hfirst,
    sum_occurrences_eq_zero hrest, List.length_map]
  omega

/-- Filling takes away no placeholder of a later argument. -/
theorem occurrences_le_fill (template : String) (front : List String) {j : Nat}
    (hj : front.length ≤ j) :
    occurrences j template.toList ≤ occurrences j (fill template front).toList := by
  induction front using List.reverseRecOn with
  | nil => exact Nat.le_refl _
  | append_singleton front a ih =>
    rw [List.length_append, List.length_singleton] at hj
    rw [fill_concat, toList_substitute]
    exact Nat.le_trans (ih (by omega)) (occurrences_le_pass_single (by omega) a _)

/-- Without a brace of its own, what is written takes one brace away for each placeholder. -/
theorem openBraces_pass_single {a : String} (ha : openBraces a.toList = 0) (i : Nat)
    (cs : List Char) :
    openBraces (pass [(a, i)] cs) + occurrences i cs = openBraces cs := by
  obtain ⟨first, rest, rfl, hfirst, hrest⟩ := exists_joined i cs
  have hpart : ∀ part ∈ rest, pass [(a, i)] part = part := fun part hpart =>
    pass_single_of_occurrences_eq_zero a (hrest part hpart)
  have hparts : rest.map (pass [(a, i)]) = rest := by
    rw [List.map_congr_left hpart, List.map_id']
  rw [pass_joined, inPlace_single, hparts, pass_single_of_occurrences_eq_zero a hfirst,
    openBraces_joined, openBraces_joined, occurrences_joined, openBraces_placeholder, ha, hfirst,
    sum_occurrences_eq_zero hrest]
  omega

/-- An argument without braces takes away one opening brace for each placeholder that it is written
    for. -/
theorem openBraces_onePass_concat (template : String) (front : List String) {a : String}
    (ha : openBraces a.toList = 0) :
    openBraces (onePass template (front ++ [a])).toList +
        occurrences front.length template.toList =
      openBraces (onePass template front).toList := by
  obtain ⟨first, rest, hold, hnew, hcount⟩ := exists_onePass_joined template front a
  rw [hold, hnew, hcount, openBraces_joined, openBraces_joined, openBraces_placeholder, ha]
  omega

/-- Argument after argument, no fewer placeholders are written for than in one pass; so if as many
    braces are left in the end, no placeholder was written for that the template does not have. -/
theorem fill_eq_onePass_of_openBraces {template : String} {args : List String}
    (hargs : ∀ a ∈ args, openBraces a.toList = 0) :
    openBraces (fill template args).toList ≤ openBraces (onePass template args).toList ∧
      (openBraces (fill template args).toList = openBraces (onePass template args).toList →
        ∀ front, front <+: args → fill template front = onePass template front) := by
  induction args using List.reverseRecOn with
  | nil =>
    rw [onePass_nil]
    refine ⟨Nat.le_refl _, ?_⟩
    intro _ front hfront
    rw [List.prefix_nil.mp hfront, onePass_nil]
    rfl
  | append_singleton args a ih =>
    have ha : openBraces a.toList = 0 := hargs a (by simp)
    obtain ⟨hle, hsame⟩ := ih fun b hb => hargs b (List.mem_append_left [a] hb)
    -- one more argument takes away a brace for each place that is filled, and both counts are known
    have hmore := occurrences_le_fill template args (Nat.le_refl args.length)
    have hfill : openBraces (fill template (args ++ [a])).toList +
        occurrences args.length (fill template args).toList =
          openBraces (fill template args).toList := by
      rw [fill_concat, toList_substitute]
      exact openBraces_pass_single ha args.length _
    have hpass := openBraces_onePass_concat template args ha
    refine ⟨by omega, ?_⟩
    intro heq front hfront
    have hbefore : ∀ front, front <+: args → fill template front = onePass template front :=
      hsame (by omega)
    -- a beginning is all of the arguments, where the places must be counted, or an earlier one
    rcases List.prefix_concat_iff.mp hfront with hall | hbeginning
    · have hargs : fill template args = onePass template args := hbefore args (List.prefix_refl _)
      have hcount : occurrences args.length (onePass template args).toList =
          occurrences args.length template.toList := by
        rw [← hargs]
        omega
      rw [hall, fill_concat, hargs]
      exact (substitute_onePass_iff template args a).mpr (Or.inr hcount)
    · exact hbefore front hbeginning

/-- With arguments that have no brace in them, filling is one pass exactly if putting in the first
    ones never completes the placeholder of the next one. -/
theorem fill_eq_onePass_iff_of_no_braces (template : String) {args : List String}
    (hargs : ∀ a ∈ args, '\x7b' ∉ a.toList) :
    fill template args = onePass template args ↔
      ∀ front a, front ++ [a] <+: args →
        occurrences front.length (onePass template front).toList =
          occurrences front.length template.toList := by
  have hnone : ∀ a ∈ args, openBraces a.toList = 0 := fun a ha =>
    List.count_eq_zero.mpr (hargs a ha)
  -- an argument without a brace is no placeholder
  have hself : ∀ front a, front ++ [a] <+: args → a ≠ placeholder front.length := by
    intro front a hfront heq
    have hmem : a ∈ args := hfront.subset (by simp)
    apply hargs a hmem
    rw [heq, toList_placeholder]
    exact List.mem_cons_self
  constructor
  · intro h front a hfront
    have hall := (fill_eq_onePass_of_openBraces hnone).2 (by rw [h])
    exact ((fill_eq_onePass_beginnings_iff template args).mp hall front a hfront).resolve_left
      (hself front a hfront)
  · intro h
    have hall := (fill_eq_onePass_beginnings_iff template args).mpr fun front a hfront =>
      Or.inr (h front a hfront)
    exact hall args (List.prefix_refl args)

/-! ## §5. Messages. -/

/-- What stands around a text does not change what is filled into it, if no placeholder can start
    in front of it or reach behind it. -/
theorem fillFrom_framed {lead tail : String} (hlead : '\x7b' ∉ lead.toList)
    (htail : '\x7b' ∉ tail.toList) (hclose : '\x7d' ∉ tail.toList) (i : Nat) (text : String)
    (args : List String) :
    fillFrom i (lead ++ text ++ tail) args = lead ++ fillFrom i text args ++ tail := by
  induction args generalizing i text with
  | nil => rfl
  | cons a args ih =>
    -- the tail opens no placeholder, so a pass copies it
    have hcopied : pass [(a, i)] tail.toList = tail.toList := by
      have hcopy : pass [(a, i)] (tail.toList ++ []) = tail.toList ++ pass [(a, i)] [] :=
        pass_append_of_notMem htail []
      simpa [pass, passFrom] using hcopy
    have hframed : substitute (placeholder i) a (lead ++ text ++ tail) =
        lead ++ substitute (placeholder i) a text ++ tail := by
      rw [← String.toList_inj, toList_substitute]
      simp only [String.toList_append, List.append_assoc, toList_substitute]
      -- and a placeholder that starts before the tail cannot end in it
      rw [pass_append_of_notMem hlead, pass_append (unreached_of_notMem hclose), hcopied]
    show fillFrom (i + 1) (substitute (placeholder i) a (lead ++ text ++ tail)) args = _
    rw [hframed, ih]
    rfl

/-- A placeholder by itself becomes the argument. -/
theorem substitute_placeholder_self (i : Nat) (a : String) :
    substitute (placeholder i) a (placeholder i) = a := by
  have hplace : pass [(a, i)] ((placeholder i).toList ++ []) =
      inPlace [(a, i)] i ++ pass [(a, i)] [] := pass_placeholder i []
  rw [List.append_nil, inPlace_single] at hplace
  rw [← String.toList_inj, toList_substitute, hplace]
  exact List.append_nil _

/-- The template of a kind has one placeholder. -/
theorem exists_template_eq (kind : DiagnosticKind) :
    ∃ lead tail : String, kind.template = lead ++ placeholder 0 ++ tail ∧
      '\x7b' ∉ lead.toList ∧ '\x7b' ∉ tail.toList ∧ '\x7d' ∉ tail.toList := by
  cases kind with
  | undefinedVariable => exact ⟨"Variable $", " is undeclared", by decide +kernel⟩
  | malformedNameChain =>
    exact ⟨"Variable name chain exceeds ", " nested nodes", by decide +kernel⟩

/-- **What the arguments are written as.**  For all beginnings of the arguments, a template is
    filled as in one pass exactly if no argument finds its placeholder in the text more often than
    in the template, but for one that is its placeholder; where no argument has an opening brace,
    this decides the last of the texts already.  In the message of a diagnostic stands the first
    argument with the others filled in, so it stands there as it is exactly if it has no
    placeholder of theirs. -/
theorem fill_as_in_one_pass (template : String) (args : List String) :
    ((∀ front, front <+: args → fill template front = onePass template front) ↔
      ∀ front a, front ++ [a] <+: args → a = placeholder front.length ∨
        occurrences front.length (onePass template front).toList =
          occurrences front.length template.toList) ∧
    ((∀ a ∈ args, '\x7b' ∉ a.toList) →
      (fill template args = onePass template args ↔
        ∀ front a, front ++ [a] <+: args →
          occurrences front.length (onePass template front).toList =
            occurrences front.length template.toList)) ∧
    ∀ kind : DiagnosticKind, ∃ lead tail : String, kind.template = lead ++ placeholder 0 ++ tail ∧
      ∀ (file : String) (line : UInt32) (name : String),
        (Diagnostic.ofArgs kind file line (name :: args)).message =
            lead ++ fillFrom 1 name args ++ tail ∧
        ((∀ front, front <+: args →
            (Diagnostic.ofArgs kind file line (name :: front)).message = lead ++ name ++ tail) ↔
          ∀ front a, front ++ [a] <+: args → a = placeholder (1 + front.length) ∨
            occurrences (1 + front.length) name.toList = 0) := by
  refine ⟨fill_eq_onePass_beginnings_iff template args,
    fill_eq_onePass_iff_of_no_braces template, ?_⟩
  intro kind
  obtain ⟨lead, tail, htemplate, hlead, htail, hclose⟩ := exists_template_eq kind
  refine ⟨lead, tail, htemplate, ?_⟩
  intro file line name
  -- the templates of the kinds have one place; after it the name is what is filled
  have hmessage : ∀ front, (Diagnostic.ofArgs kind file line (name :: front)).message =
      lead ++ fillFrom 1 name front ++ tail := by
    intro front
    show fillFrom 0 kind.template (name :: front) = _
    rw [htemplate, fillFrom_framed hlead htail hclose]
    show lead ++ fillFrom 1 (substitute (placeholder 0) name (placeholder 0)) front ++ tail = _
    rw [substitute_placeholder_self]
  refine ⟨hmessage args, ?_⟩
  rw [← fillFrom_eq_self_beginnings_iff]
  simp [hmessage]

/-- A placeholder in a name is not written for where no argument of its number follows. -/
theorem fill_as_in_one_pass_names :
    ∃ (template : String) (args : List String), (∀ a ∈ args, '\x7b' ∉ a.toList) ∧
      fill template args = onePass template args ∧ onePass template args = "y, x: \x7b2\x7d" ∧
      (∀ front, front <+: args → fill template front = onePass template front) ∧
      ∀ front, front <+: args →
        (Diagnostic.ofArgs .undefinedVariable "a.php" 1 ("v\x7b3\x7d" :: front)).message =
          "Variable $v\x7b3\x7d is undeclared" := by
  let template := "\x7b1\x7d, \x7b0\x7d: \x7b2\x7d"
  obtain ⟨hbeginnings, hlast, hmessages⟩ := fill_as_in_one_pass template ["x", "y"]
  have hbraces : ∀ a ∈ ["x", "y"], '\x7b' ∉ a.toList := by decide
  have hcounts : ∀ front a, front ++ [a] <+: ["x", "y"] →
      occurrences front.length (onePass template front).toList =
          occurrences front.length template.toList ∧
        occurrences (1 + front.length) "v\x7b3\x7d".toList = 0 := by
    intro front a hfront
    match front with
    | [] => decide +kernel
    | [b] =>
      obtain rfl : b = "x" := (List.cons_prefix_cons.mp hfront).1
      decide +kernel
    | b :: c :: front =>
      have hlength := hfront.length_le
      simp at hlength
  obtain ⟨lead, tail, htemplate, hmessage⟩ := hmessages .undefinedVariable
  have hnames := (hmessage "a.php" 1 "v\x7b3\x7d").2.mpr
    fun front a hfront => Or.inr (hcounts front a hfront).2
  have hwritten : lead ++ "v\x7b3\x7d" ++ tail = "Variable $v\x7b3\x7d is undeclared" := by
    rw [← hnames [] List.nil_prefix]
    decide +kernel
  refine ⟨template, ["x", "y"], hbraces, ?_, by decide +kernel, ?_, ?_⟩
  · exact (hlast hbraces).mpr fun front a hfront => (hcounts front a hfront).1
  · exact hbeginnings.mpr fun front a hfront => Or.inr (hcounts front a hfront).1
  · intro front hfront
    rw [hnames front hfront, hwritten]

/-- The text of an argument is filled like the template: `x` is written for the placeholder that
    the first argument brings in, and the name is not in the message any more. -/
theorem not_forall_fill_eq_onePass :
    (¬∀ (template : String) (args : List String), fill template args = onePass template args) ∧
    ¬∀ (kind : DiagnosticKind) (file : String) (line : UInt32) (name : String)
      (args : List String),
      name.toList <:+: (Diagnostic.ofArgs kind file line (name :: args)).message.toList := by
  constructor
  · intro h
    have hsame := h "\x7b0\x7d \x7b1\x7d" ["\x7b1\x7d", "x"]
    revert hsame
    decide +kernel
  · intro h
    have hinside := h .undefinedVariable "a.php" 1 "\x7b1\x7d" ["x"]
    revert hinside
    decide +kernel

end PhpNames.Text
