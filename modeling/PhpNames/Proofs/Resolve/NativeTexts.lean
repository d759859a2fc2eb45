/-
  PhpNames.Proofs.Resolve.NativeTexts — native types in name positions.

  The text of a name node is qualified as one name, and what comes out is read as a type text.  A
  native type is not qualified, but the test for it is made on the text as it is written, before
  any `|` or blank is looked at.  So a text that stands for a native union keeps its meaning only
  where it is itself the name of a native type:

      isNativeTypeName text   ↔   no `|` in it, no blanks around it    (`isNativeTypeName_iff_bare`)

  Every other native text is looked up like the name of a class.  If it is not imported, then the
  namespace comes in front of it, and the first of its members is no native type any more
  (`not_isNative_ofText_qualify`).
-/
import PhpNames.Proofs.Context.Qualification
import PhpNames.Proofs.Resolve.NamePositions
import PhpNames.Proofs.UnionType.Joining
import PhpNames.Proofs.UnionType.NativeGrammar

namespace PhpNames

open UnionType (IsPlain ofText parts)

/-! ## §1. The characters of a native text. -/

namespace UnionType

/-- A character that is not the separator is in one of the pieces. -/
theorem exists_mem_splitOn {sep c : Char} {cs : List Char} (hc : c ∈ cs) (hne : c ≠ sep) :
    ∃ piece ∈ cs.splitOn sep, c ∈ piece := by
  obtain ⟨first, rest, hsplit⟩ := List.exists_cons_of_ne_nil (List.splitOn_ne_nil sep cs)
  -- the pieces and the separators between them are the whole list
  have hall : [sep].intercalate (cs.splitOn sep) = cs := List.intercalate_splitOn sep
  rw [hsplit, intercalate_singleton_cons] at hall
  rw [← hall, List.mem_append, List.mem_flatMap] at hc
  rw [hsplit]
  rcases hc with hfirst | ⟨piece, hpiece, hmem⟩
  · exact ⟨first, List.mem_cons_self, hfirst⟩
  · exact ⟨piece, List.mem_cons_of_mem _ hpiece, (List.mem_cons.mp hmem).resolve_left hne⟩

/-- A character of a text belongs to one of its parts, unless it divides them. -/
theorem exists_mem_parts {text : String} {c : Char} (hc : c ∈ text.toList) (hne : c ≠ '|') :
    ∃ part ∈ parts text, c ∈ part.toList := by
  obtain ⟨piece, hpiece, hmem⟩ := exists_mem_splitOn hc hne
  refine ⟨String.ofList piece, ?_, by rwa [String.toList_ofList]⟩
  unfold parts
  exact List.mem_map_of_mem hpiece

/-- A text with a separator in it has a part that is not native. -/
theorem not_isNative_ofText_of_separator {text : String} (h : separator ∈ text.toList) :
    ¬(ofText text).isNative = true := by
  intro hnative
  obtain ⟨part, hpart, hmem⟩ := exists_mem_parts h (by decide)
  have htrim : separator ∈ (Text.trim part).toList := Text.mem_trim_of_not_isBlank rfl hmem
  have hne : Text.trim part ≠ "" := by
    intro hempty
    rw [hempty] at htrim
    cases htrim
  have hname : NativeName (Text.trim part) := (isNative_ofText_iff.mp hnative).2 part hpart hne
  exact not_isNativeTypeName_of_separator htrim (isNativeTypeName_iff_nativeName.mpr hname)

/-- A text without a `|` is its only part. -/
theorem parts_of_isPlain {text : String} (h : IsPlain text) : parts text = [text] := by
  unfold parts
  rw [List.splitOn_eq_singleton h, List.map_singleton, String.ofList_toList]

end UnionType

/-- The name of a native type is a single part of a text, without blanks around it. -/
theorem bare_of_isNativeTypeName {name : String} (h : isNativeTypeName name = true) :
    IsPlain name ∧ Text.trim name = name := by
  have hnotBlank : ∀ c ∈ name.toList, Text.isBlank c = false := by
    intro c hc
    rcases isAlpha_or_mark_of_mem h hc with halpha | rfl | rfl | rfl
    · exact Text.not_isBlank_of_isAlpha halpha
    · rfl
    · rfl
    · rfl
  -- neither a bar nor a blank can stand in such a name, at its ends or inside
  constructor
  · intro hbar
    exact absurd (isAlpha_or_mark_of_mem h hbar) (by decide)
  · rw [Text.trim_eq_self_iff]
    exact ⟨fun c hc => hnotBlank c (List.mem_of_mem_head? hc),
      fun c hc => hnotBlank c (List.mem_of_mem_getLast? hc)⟩

/-- Of the texts that stand for native unions, the names of native types are the bare ones. -/
theorem isNativeTypeName_iff_bare {text : String} (h : (ofText text).isNative = true) :
    isNativeTypeName text = true ↔ IsPlain text ∧ Text.trim text = text := by
  constructor
  · exact bare_of_isNativeTypeName
  · intro hbare
    obtain ⟨hplain, htrim⟩ := hbare
    -- the only part of the text is the text
    rw [UnionType.isNative_ofText_iff, UnionType.parts_of_isPlain hplain] at h
    obtain ⟨⟨part, hpart, hne⟩, hall⟩ := h
    obtain rfl := List.mem_singleton.mp hpart
    rw [isNativeTypeName_iff_nativeName, ← htrim]
    exact hall part List.mem_cons_self hne

/-! ## §2. Native texts, qualified. -/

namespace Namespace

/-- A name in a namespace has a separator in it. -/
theorem separator_mem_qualify (ns : Namespace) (name : String) :
    separator ∈ (ns.qualify name).toList := by
  unfold qualify
  split
  · next hlast => simp [List.mem_of_mem_getLast? hlast]
  · simp [separator]

/-- With the namespace in front, a text is not native. -/
theorem not_isNative_ofText_qualify (ns : Namespace) (text : String) :
    ¬(UnionType.ofText (ns.qualify text)).isNative = true :=
  UnionType.not_isNative_ofText_of_separator (ns.separator_mem_qualify text)

end Namespace

namespace Context

variable {c : Context} {text : String}

/-- A native type keeps its text. -/
theorem qualify_of_isNativeTypeName (h : isNativeTypeName text = true) :
    c.qualify .cls text = text := by
  unfold qualify
  rw [qualification_native c ⟨rfl, h⟩]
  rfl

/-- A name that is imported as a whole stands for the target. -/
theorem qualify_of_alias? {k : AliasKind} {target : String}
    (hnative : ¬(k = .cls ∧ isNativeTypeName text = true)) (h : c.alias? k text = some target) :
    c.qualify k text = target := by
  unfold qualify
  rw [(FirstRule.exact hnative h).qualification_eq]
  rfl

/-- A native text has no segments, so that a whole import is all that it may have. -/
theorem qualify_of_isNative (hnative : (ofText text).isNative = true)
    (hname : ¬isNativeTypeName text = true) (h : c.alias? .cls text = none) :
    c.qualify .cls text = c.space.qualify text := by
  -- a native text has no separator, so the rule of the first segment never applies
  have hsplit : splitSegment? text = none := by
    rw [splitSegment?_eq_none_iff]
    intro hsep
    exact UnionType.not_isNative_ofText_of_separator hsep hnative
  have hhead : ∀ head rest, splitSegment? text = some (head, rest) →
      c.alias? .cls head = none := by
    intro head rest hparts
    rw [hsplit] at hparts
    cases hparts
  unfold qualify
  rw [(FirstRule.current (fun hcls => hname hcls.2) h hhead).qualification_eq]
  rfl

end Context

/-! ## §3. Name nodes. -/

namespace Resolver

variable {n : Node} {text : String}

/-- A name is a type and an expression in the same way. -/
theorem typeOfTypeNode_of_name (r : Resolver) (hkind : n.kind = .name) :
    r.context.typeOfTypeNode n = r.typeOfNode n := by
  obtain ⟨kind, flags, line, children⟩ := n
  obtain rfl : kind = .name := hkind
  unfold Context.typeOfTypeNode typeOfNode
  rfl

/-- The type of a relative name is what its full form is read as. -/
theorem value_typeOfNode_of_name {r : Resolver} (hkind : n.kind = .name)
    (hrelative : n.isRelative = true) (htext : n.childText? 0 = some text) :
    (r.typeOfNode n).run.value = .ok (ofText (r.context.qualify .cls text)) := by
  unfold typeOfNode
  rw [hkind]
  show (_ >>= _ : Resolution UnionType).run.value = _
  rw [Resolution.value_bind_pure, Context.value_nameOfNode_of_text htext, if_pos hrelative]
  rfl

/-- **When a native text keeps its meaning**: a name node with a text that stands for a native union
    has that union, as a type and as an expression, exactly when the text is bare, or else is
    imported as a whole under a name that stands for the same union.  A text that is neither bare
    nor imported gets the namespace in front and is not native. -/
theorem typeOfNode_native_text_iff (r : Resolver) (n : Node) (text : String)
    (hkind : n.kind = .name) (hrelative : n.isRelative = true) (htext : n.childText? 0 = some text)
    (hnative : (ofText text).isNative = true) :
    (r.context.typeOfTypeNode n).run.value = (r.typeOfNode n).run.value ∧
    ((r.typeOfNode n).run.value = .ok (ofText text) ↔
      (IsPlain text ∧ Text.trim text = text) ∨
      ∃ target, r.context.alias? .cls text = some target ∧ ofText target = ofText text) ∧
    (¬(IsPlain text ∧ Text.trim text = text) → r.context.alias? .cls text = none →
      (r.typeOfNode n).run.value = .ok (ofText (r.context.space.qualify text)) ∧
      ¬(ofText (r.context.space.qualify text)).isNative = true) := by
  rw [r.typeOfTypeNode_of_name hkind, value_typeOfNode_of_name hkind hrelative htext,
    ← isNativeTypeName_iff_bare hnative]
  refine ⟨rfl, ?_, ?_⟩
  · rw [Except.ok.injEq]
    -- the three rules for a text without separator: native name, import, namespace
    by_cases hname : isNativeTypeName text = true
    · rw [Context.qualify_of_isNativeTypeName hname]
      exact iff_of_true rfl (Or.inl hname)
    · cases halias : r.context.alias? .cls text with
      | some target =>
        rw [Context.qualify_of_alias? (fun hcls => hname hcls.2) halias]
        simp [hname]
      | none =>
        rw [Context.qualify_of_isNative hnative hname halias]
        refine iff_of_false ?_ (by simp [hname])
        -- what the namespace makes of a text begins with a separator, and no native text has one
        intro hsame
        rw [← hsame] at hnative
        exact r.context.space.not_isNative_ofText_qualify text hnative
  · intro hname halias
    rw [Context.qualify_of_isNative hnative hname halias]
    exact ⟨rfl, r.context.space.not_isNative_ofText_qualify text⟩

/-- A bare text, one that is imported as the same union in another order of writing, and one that
    falls to the namespace. -/
theorem typeOfNode_native_text_iff_imported :
    ∃ (r : Resolver) (bare imported lost : Node),
      (r.typeOfNode bare).run.value = .ok (ofText "?Int[]") ∧
      (r.typeOfNode imported).run.value = .ok (ofText "int|null") ∧
      (r.typeOfNode lost).run.value = .ok (ofText "\\App\\int|string") ∧
      ¬(ofText "\\App\\int|string").isNative = true := by
  let r : Resolver :=
    ⟨((Context.ofFile "a.php").withNamespace "App").withAlias .cls "int|null" " int||null ", {}⟩
  have himport : r.context.alias? .cls "int|null" = some " int||null " := by decide +kernel
  have hmissing : r.context.alias? .cls "int|string" = none := by decide +kernel
  have hbare : ¬(IsPlain "int|string" ∧ Text.trim "int|string" = "int|string") := by
    intro h
    exact h.1 (by decide)
  obtain ⟨-, hkeeps, -⟩ := typeOfNode_native_text_iff r (.ofName "?Int[]" 1 1) "?Int[]" rfl rfl rfl
    (by decide +kernel)
  obtain ⟨-, hreads, -⟩ := typeOfNode_native_text_iff r (.ofName "int|null" 1 2) "int|null" rfl rfl
    rfl (by decide +kernel)
  obtain ⟨-, -, hfalls⟩ := typeOfNode_native_text_iff r (.ofName "int|string" 1 3) "int|string" rfl
    rfl rfl (by decide +kernel)
  obtain ⟨hlost, hforeign⟩ := hfalls hbare hmissing
  have hspace : r.context.space.qualify "int|string" = "\\App\\int|string" := by decide +kernel
  rw [hspace] at hlost hforeign
  refine ⟨r, _, _, _, hkeeps.mpr (Or.inl ⟨?_, by decide +kernel⟩),
    hreads.mpr (Or.inr ⟨_, himport, by decide +kernel⟩), hlost, hforeign⟩
  show '|' ∉ "?Int[]".toList
  decide

/-- Two native types with a `|` between them are one name, and it belongs to the root namespace. -/
theorem not_forall_native_text_kept :
    ¬∀ (r : Resolver) (n : Node) (text : String), n.kind = .name → n.isRelative = true →
      n.childText? 0 = some text → (ofText text).isNative = true →
      (r.context.typeOfTypeNode n).run.value = .ok (ofText text) ∧
      (r.typeOfNode n).run.value = .ok (ofText text) := by
  intro h
  obtain ⟨-, hsame⟩ := h ⟨Context.ofFile "a.php", {}⟩ (.ofName "int|string" 1 1) "int|string" rfl rfl
    rfl (by decide +kernel)
  rw [value_typeOfNode_of_name rfl rfl rfl, Except.ok.injEq] at hsame
  revert hsame
  decide +kernel

end Resolver

end PhpNames
