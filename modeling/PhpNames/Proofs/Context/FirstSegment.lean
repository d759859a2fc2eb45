/-
  PhpNames.Proofs.Context.FirstSegment — names of more than one segment.

  A name of several segments is looked up as a whole, and else by its first segment alone.  What
  follows the first segment is never read:

      qualify (head \ rest)   =   qualify head \ rest            (`qualify_append`)

  The two sides get there by different rules.  An import of `head` is the import of a first segment
  on the left and of a whole name on the right; without one, the namespace stands in front of the
  whole name on the left and of `head` alone on the right.  A native type has no place in this,
  because a name with a separator in it is none, whatever `rest` spells.
-/
import PhpNames.Proofs.Context.BuildRuns
import PhpNames.Proofs.UnionType.NativeNames

namespace PhpNames

/-! ## §1. The namespace in front. -/

/-- A namespace does not look at the name. -/
theorem Namespace.qualify_append (ns : Namespace) (head rest : String) :
    ns.qualify (head ++ "\\" ++ rest) = ns.qualify head ++ "\\" ++ rest := by
  unfold Namespace.qualify
  split <;> simp only [String.append_assoc]

namespace Context

variable {c : Context} {k : AliasKind} {head rest : String}

/-! ## §2. The meaning of the first segment, and the rest. -/

/-- A name of several segments is not native: no native name has a separator. -/
theorem not_native_append (head rest : String) :
    ¬(k = .cls ∧ isNativeTypeName (head ++ "\\" ++ rest) = true) := by
  rintro ⟨-, hnative⟩
  have hsep : separator ∈ (head ++ "\\" ++ rest).toList := by simp [separator]
  exact not_isNativeTypeName_of_separator hsep hnative

/-- If it is not imported as a whole, a name of several segments means what its first segment means,
    followed by the others. -/
theorem qualify_append (hhead : separator ∉ head.toList)
    (hwhole : c.alias? k (head ++ "\\" ++ rest) = none)
    (hnative : ¬(k = .cls ∧ isNativeTypeName head = true)) :
    c.qualify k (head ++ "\\" ++ rest) = c.qualify k head ++ "\\" ++ rest := by
  have hsplit := splitSegment?_append hhead rest
  have hsingle := splitSegment?_eq_none_iff.mpr hhead
  unfold qualify
  -- the rule for the name on the left, and the one for its first segment on the right
  cases himport : c.alias? k head with
  | some target =>
    have hleft : c.FirstRule k (head ++ "\\" ++ rest) _ :=
      .segment (not_native_append head rest) hwhole hsplit himport
    have hright : c.FirstRule k head _ := .exact hnative himport
    rw [hleft.qualification_eq, hright.qualification_eq]
    rfl
  | none =>
    have hleft : c.FirstRule k (head ++ "\\" ++ rest)
        (.current c.space (head ++ "\\" ++ rest)) := by
      refine .current (not_native_append head rest) hwhole ?_
      intro head' rest' hsplit'
      rw [hsplit] at hsplit'
      obtain ⟨rfl, -⟩ := Prod.mk.inj (Option.some.inj hsplit')
      exact himport
    have hright : c.FirstRule k head (.current c.space head) := by
      refine .current hnative himport ?_
      intro head' rest' hsplit'
      rw [hsingle] at hsplit'
      cases hsplit'
    rw [hleft.qualification_eq, hright.qualification_eq]
    exact c.space.qualify_append head rest

/-- Only imports of the first segment and of the whole name are looked at, and none of a segment of
    the rest. -/
theorem qualify_append_withAlias (hhead : separator ∉ head.toList) {l : AliasKind}
    {short target : String} (hother : l = k → short ≠ head ∧ short ≠ head ++ "\\" ++ rest) :
    (c.withAlias l short target).qualify k (head ++ "\\" ++ rest) =
      c.qualify k (head ++ "\\" ++ rest) := by
  by_contra hne
  obtain ⟨hkind, hread, -⟩ := qualify_withAlias_ne hne
  obtain ⟨hshort, hname⟩ := hother hkind
  rcases hread with heq | hsplit
  · exact hname heq
  · obtain ⟨rest', hparts⟩ := hsplit
    -- there is one way to split the name at its first separator
    have hfirst := splitSegment?_eq_some_iff.mpr hparts
    rw [splitSegment?_append hhead] at hfirst
    exact hshort (Prod.mk.inj (Option.some.inj hfirst)).1.symm

/-- **Qualification is compositional in the first segment**: a name of several segments, unless it
    is imported as a whole, means what its first segment means, followed by the rest as it stands.
    What is imported for a segment of the rest, or whether the rest spells a native type, is
    nothing to it. -/
theorem qualify_by_first_segment (c : Context) (k : AliasKind) {head : String} (rest : String)
    (hhead : separator ∉ head.toList) (hwhole : c.alias? k (head ++ "\\" ++ rest) = none)
    (hnative : ¬(k = .cls ∧ isNativeTypeName head = true)) :
    c.qualify k (head ++ "\\" ++ rest) = c.qualify k head ++ "\\" ++ rest ∧
    ∀ (l : AliasKind) (short target : String),
      (l = k → short ≠ head ∧ short ≠ head ++ "\\" ++ rest) →
      (c.withAlias l short target).qualify k (head ++ "\\" ++ rest) =
        c.qualify k head ++ "\\" ++ rest := by
  have hjoined := qualify_append hhead hwhole hnative
  refine ⟨hjoined, ?_⟩
  intro l short target hother
  rw [qualify_append_withAlias hhead hother, hjoined]

/-- The rest spells a native type, and is imported besides. -/
theorem qualify_by_first_segment_native_rest :
    ∃ (c : Context) (head rest : String),
      separator ∉ head.toList ∧ c.alias? .cls (head ++ "\\" ++ rest) = none ∧
      ¬(AliasKind.cls = .cls ∧ isNativeTypeName head = true) ∧
      isNativeTypeName rest = true ∧ c.qualify .function rest = "\\Lib\\int" ∧
      c.qualify .cls head = "\\Vendor\\Foo" ∧
      c.qualify .cls (head ++ "\\" ++ rest) = "\\Vendor\\Foo\\int" ∧
      (c.withAlias .cls rest "\\X").qualify .cls (head ++ "\\" ++ rest) = "\\Vendor\\Foo\\int" := by
  let c : Context := (((Context.ofFile "a.php").withNamespace "App").withAlias .cls "Foo"
    "\\Vendor\\Foo").withAlias .function "int" "\\Lib\\int"
  have hhead : separator ∉ "Foo".toList := by decide +kernel
  have hwhole : c.alias? .cls ("Foo" ++ "\\" ++ "int") = none := by decide +kernel
  have hnative : ¬(AliasKind.cls = .cls ∧ isNativeTypeName "Foo" = true) := by decide +kernel
  have hfoo : c.qualify .cls "Foo" = "\\Vendor\\Foo" := by decide +kernel
  obtain ⟨hjoined, hothers⟩ := qualify_by_first_segment c .cls "int" hhead hwhole hnative
  have hother := hothers .cls "int" "\\X" (fun _ => by decide)
  rw [hfoo] at hjoined hother
  exact ⟨c, "Foo", "int", hhead, hwhole, hnative, by decide +kernel, by decide +kernel, hfoo,
    hjoined, hother⟩

end Context

end PhpNames
