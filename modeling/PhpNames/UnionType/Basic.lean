/-
  PhpNames.UnionType.Basic — union types: the set of types a value may have.

  A union is a list of atoms without repetition, in the order in which they were first seen.  The
  order decides the text alone; as types, two unions with the same atoms are one.  The empty union
  means that nothing is known.
-/
import PhpNames.Text.Trim
import PhpNames.UnionType.Native

namespace PhpNames

/-- A union type: distinct atoms in the order in which they were first seen. -/
structure UnionType where
  atoms : List String
  nodup : atoms.Nodup
  deriving DecidableEq

namespace UnionType

/-- Unions with the same atoms in the same order are the same. -/
@[ext] theorem ext {u v : UnionType} (h : u.atoms = v.atoms) : u = v := by
  cases u; cases v; simp_all

instance : Membership String UnionType := ⟨fun u a => a ∈ u.atoms⟩

instance (a : String) (u : UnionType) : Decidable (a ∈ u) :=
  inferInstanceAs (Decidable (a ∈ u.atoms))

theorem mem_def {a : String} {u : UnionType} : a ∈ u ↔ a ∈ u.atoms := Iff.rfl

/-! ## Building -/

/-- The union without atoms. -/
def empty : UnionType := ⟨[], List.nodup_nil⟩

instance : EmptyCollection UnionType := ⟨empty⟩
instance : Inhabited UnionType := ⟨empty⟩

@[simp] theorem atoms_empty : empty.atoms = [] := rfl

/-- Adds an atom at the end, unless the union has it. -/
def insert (u : UnionType) (a : String) : UnionType :=
  if h : a ∈ u.atoms then u
  else ⟨u.atoms ++ [a], List.nodup_append.2
    ⟨u.nodup, by simp, by rintro x hx y hy rfl; simp_all⟩⟩

/-- An atom that is new comes last. -/
theorem atoms_insert (u : UnionType) (a : String) :
    (u.insert a).atoms = if a ∈ u.atoms then u.atoms else u.atoms ++ [a] := by
  unfold insert; split <;> simp_all

/-- Adds a written atom: without the blanks around it, and not at all if nothing is left. -/
def addAtom (u : UnionType) (written : String) : UnionType :=
  if Text.trim written = "" then u else u.insert (Text.trim written)

/-- The union of a list of written atoms.  A `|` inside of one does not divide it. -/
def ofAtoms (written : List String) : UnionType :=
  written.foldl addAtom empty

/-- The parts of a type text, between its `|` signs. -/
def parts (text : String) : List String :=
  (text.toList.splitOn '|').map String.ofList

/-- Reads a type text: atoms separated by `|`, in any number of which some may be blank. -/
def ofText (text : String) : UnionType :=
  ofAtoms (parts text)

/-- The type of every value. -/
def mixed : UnionType := ofText "mixed"

/-! ## Text -/

/-- The text of a union: its atoms in order, with `|` between them. -/
def text (u : UnionType) : String :=
  String.ofList (List.intercalate ['|'] (u.atoms.map String.toList))

instance : ToString UnionType := ⟨text⟩

/-! ## Questions -/

/-- The number of atoms. -/
def size (u : UnionType) : Nat := u.atoms.length

/-- Whether the union has no atom. -/
def isEmpty (u : UnionType) : Bool := u.atoms.isEmpty

/-- Whether the written atom belongs to the union. -/
def hasType (u : UnionType) (written : String) : Bool := Text.trim written ∈ u

/-- Whether every atom of `v` is an atom of `u`. -/
def includes (u v : UnionType) : Bool := v.atoms.all (· ∈ u)

/-- Whether the two are the same type: the same atoms, in any order. -/
def sameType (u v : UnionType) : Bool := u.size == v.size && v.includes u

/-- Whether the union has atoms and all of them are native. -/
def isNative (u : UnionType) : Bool := !u.isEmpty && u.atoms.all isNativeTypeName

/-- The atoms that are not native, which name declared types. -/
def declaredAtoms (u : UnionType) : List String := u.atoms.filter (!isNativeTypeName ·)

/-- Inclusion of types is inclusion of their atoms. -/
theorem includes_iff {u v : UnionType} : u.includes v = true ↔ ∀ a ∈ v, a ∈ u := by
  simp [includes, mem_def]

/-! ## Joining -/

/-- The atoms of `u`, then those of `v` that `u` lacks. -/
def union (u v : UnionType) : UnionType := v.atoms.foldl insert u

instance : Union UnionType := ⟨union⟩

/-- The union extended by a type text. -/
def withText (u : UnionType) (text : String) : UnionType := u.union (ofText text)

/-! ## Null -/

/-- Whether an atom admits null by itself: `?T`, `null` and `mixed` do. -/
def admitsNull (a : String) : Bool :=
  a.toList.head? == some '?' || Text.sameLetters a "null" || Text.sameLetters a "mixed"

/-- The atom with a `?` in front, unless it admits null already. -/
def markNull (a : String) : String := if admitsNull a then a else "?" ++ a

/-- Whether null is a possible value. -/
def isNullable (u : UnionType) : Bool := u.atoms.any admitsNull

/-- The union with every atom made to admit null. -/
def nullable (u : UnionType) : UnionType := ofAtoms (u.atoms.map markNull)

/-! ## Instances of the rules -/

example : (ofText " int || \\A[]|int|").atoms = ["int", "\\A[]"] := by decide +kernel
example : (ofText "int|?string|Null|X").nullable.text = "?int|?string|Null|?X" := by
  decide +kernel
example : (ofText "a|b").sameType (ofText "b|a") = true := by decide +kernel

end UnionType

end PhpNames
