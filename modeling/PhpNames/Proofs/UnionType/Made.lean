/-
  PhpNames.Proofs.UnionType.Made — what is true of every union.

  A union may be made in many ways, each from texts, lists, documents or other unions, and some of
  them may be read through a cache (`Made`).  All of them come down to the constructions that need
  no cache (`Made.exists_construction`), so

    • every atom is non-empty and has no blanks around it, and none occurs twice,
    • joining keeps the atoms that are there, in their places, and puts new ones behind them
      (`atoms_union_eq_append`).
-/
import PhpNames.Proofs.UnionType.CacheRuns
import PhpNames.Proofs.UnionType.RoundTrip

namespace PhpNames.UnionType

/-! ## §1. All ways to make a union, with caches. -/

/-- The unions that can be made.  A cache may have any capacity and may have been used before. -/
inductive Made : UnionType → Prop where
  | empty : Made .empty
  | mixed : Made .mixed
  /-- A type name or a type text. -/
  | ofText (text : String) : Made (.ofText text)
  | ofAtoms (written : List String) : Made (.ofAtoms written)
  | ofJson {document : String} {u : UnionType} (h : parse? document = some u) : Made u
  | cached (capacity : Nat) (rs : List TypeCache.Request) (text : String) :
    Made (((TypeCache.ofCapacity capacity).after rs).read text).1
  | withText {u : UnionType} (hu : Made u) (text : String) : Made (u.withText text)
  | union {u v : UnionType} (hu : Made u) (hv : Made v) : Made (u.union v)
  | nullable {u : UnionType} (hu : Made u) : Made u.nullable

/-- A used cache reads a text as if it were not there. -/
theorem value_read_after (capacity : Nat) (rs : List TypeCache.Request) (text : String) :
    (((TypeCache.ofCapacity capacity).after rs).read text).1 = ofText text :=
  (TypeCache.remembers_foldl rs (TypeCache.remembers_ofCapacity capacity)).value_read text

/-- A cache makes no union that cannot be made without it. -/
theorem Made.exists_construction {u : UnionType} (h : Made u) :
    ∃ c : Construction, c.build? = some u := by
  induction h with
  | empty => exact ⟨.empty, rfl⟩
  | mixed => exact ⟨.mixed, rfl⟩
  | ofText text => exact ⟨.ofText text, rfl⟩
  | ofAtoms written => exact ⟨.ofAtoms written, rfl⟩
  | @ofJson document _ hread => exact ⟨.ofJson document, hread⟩
  | cached capacity rs text =>
    -- a cache answers what parsing answers, so no step of its own is needed
    rw [value_read_after]
    exact ⟨.ofText text, rfl⟩
  | withText _ text ih =>
    obtain ⟨c, hc⟩ := ih
    refine ⟨.withText c text, ?_⟩
    show (do return (← c.build?).withText text) = some _
    rw [hc]
    rfl
  | union _ _ ihu ihv =>
    obtain ⟨c, hc⟩ := ihu
    obtain ⟨d, hd⟩ := ihv
    refine ⟨.union c d, ?_⟩
    show (do return (← c.build?).union (← d.build?)) = some _
    rw [hc, hd]
    rfl
  | nullable _ ih =>
    obtain ⟨c, hc⟩ := ih
    refine ⟨.nullable c, ?_⟩
    show (do return (← c.build?).nullable) = some _
    rw [hc]
    rfl

/-- Every atom of a union that has been made is one. -/
theorem Made.wellFormed {u : UnionType} (h : Made u) : u.WellFormed := by
  obtain ⟨c, hc⟩ := h.exists_construction
  exact c.wellFormed_of_build? hc

/-! ## §2. What joining keeps. -/

/-- Joining puts the atoms of `v` that `u` lacks behind those of `u`. -/
theorem atoms_union_eq_append (u v : UnionType) :
    (u.union v).atoms = u.atoms ++ v.atoms.filter (· ∉ u.atoms) := by
  have hnew : v.atoms.removeAll u.atoms = v.atoms.filter (· ∉ u.atoms) := by
    simp [List.removeAll]
  have hnodup : (v.atoms.filter (· ∉ u.atoms)).Nodup := v.nodup.filter _
  rw [atoms_union, List.eraseDups_append, eraseDups_eq_self u.nodup, hnew,
    eraseDups_eq_self hnodup]

/-! ## §3. What is true of every union. -/

/-- **Every union is well formed**, whichever way it has been made: no atom is empty, begins or
    ends with a blank, or occurs twice.  Joining it with another union or with a type text leaves
    its atoms where they are, and the atoms behind them are new. -/
theorem made_trimmed_distinct {u : UnionType} (hu : Made u) :
    (∀ a ∈ u.atoms, a ≠ "" ∧ (∀ c ∈ a.toList.head?, Text.isBlank c = false) ∧
      ∀ c ∈ a.toList.getLast?, Text.isBlank c = false) ∧
    u.atoms.Nodup ∧
    (∀ v, Made v → (u.union v).atoms = u.atoms ++ v.atoms.filter (· ∉ u.atoms)) ∧
    ∀ text, (u.withText text).atoms = u.atoms ++ (ofText text).atoms.filter (· ∉ u.atoms) := by
  refine ⟨?_, u.nodup, ?_, ?_⟩
  · intro a ha
    obtain ⟨hne, htrim⟩ := hu.wellFormed a ha
    rw [Text.trim_eq_self_iff] at htrim
    exact ⟨hne, htrim⟩
  · intro v _
    exact atoms_union_eq_append u v
  · intro text
    exact atoms_union_eq_append u (ofText text)

/-- Marking makes one atom of two here, and the cache has read its text before. -/
theorem made_trimmed_distinct_nullable :
    ∃ u v : UnionType, Made u ∧ Made v ∧ u.atoms = ["?A", "mixed", "?int"] ∧
      (∀ a ∈ u.atoms, a ≠ "" ∧ (∀ c ∈ a.toList.head?, Text.isBlank c = false) ∧
        ∀ c ∈ a.toList.getLast?, Text.isBlank c = false) ∧
      (u.union v).atoms = ["?A", "mixed", "?int", "B|C", "int"] := by
  let rs : List TypeCache.Request := [.read "?A|mixed", .clear, .read "A| ?A |mixed"]
  have hu : Made ((((TypeCache.ofCapacity 1).after rs).read "A| ?A |mixed").1.withText
      "\u3000int ").nullable := ((Made.cached 1 rs "A| ?A |mixed").withText "\u3000int ").nullable
  have hv : Made (ofAtoms ["\tB|C ", "?int", " ", "int"]) := .ofAtoms _
  obtain ⟨htrimmed, -, hunion, -⟩ := made_trimmed_distinct hu
  have hatoms : ((((TypeCache.ofCapacity 1).after rs).read "A| ?A |mixed").1.withText
      "\u3000int ").nullable.atoms = ["?A", "mixed", "?int"] := by
    rw [value_read_after]
    decide +kernel
  have hjoined := hunion _ hv
  rw [hatoms] at hjoined
  exact ⟨_, _, hu, hv, hatoms, htrimmed, hjoined.trans (by decide +kernel)⟩

end PhpNames.UnionType
