/-
  PhpNames.UnionType.Cache — remembered readings of type texts.

  A cache answers a text it has seen from memory.  Once it is full it reads new texts without
  remembering them; nothing is ever replaced or pushed out.
-/
import Std.Data.ExtTreeMap.Lemmas
import PhpNames.UnionType.Basic

namespace PhpNames

/-- The remembered readings, and how many there may be. -/
structure TypeCache where
  capacity : Nat
  entries : Std.ExtTreeMap String UnionType := ∅

namespace TypeCache

/-- The capacity of a cache for which none is asked. -/
def defaultCapacity : Nat := 65536

/-- An empty cache. -/
def ofCapacity (capacity : Nat) : TypeCache := ⟨capacity, ∅⟩

/-- The number of remembered texts. -/
def size (c : TypeCache) : Nat := c.entries.size

/-- Reads a type text, and remembers the reading if the text is new and there is room. -/
def read (c : TypeCache) (text : String) : UnionType × TypeCache :=
  match c.entries[text]? with
  | some known => (known, c)
  | none =>
    let u := UnionType.ofText text
    (u, if c.capacity ≤ c.size then c else { c with entries := c.entries.insert text u })

/-- Forgets every text. -/
def clear (c : TypeCache) : TypeCache := { c with entries := ∅ }

@[simp] theorem capacity_read (c : TypeCache) (text : String) :
    (c.read text).2.capacity = c.capacity := by
  unfold read; split
  · rfl
  · dsimp only; split <;> rfl

@[simp] theorem capacity_clear (c : TypeCache) : c.clear.capacity = c.capacity := rfl

end TypeCache

end PhpNames
