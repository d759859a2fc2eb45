/-
  PhpNames.Scope — the variables that are bound at a point of the program.

  Names are written without the dollar sign and compared exactly.  A name that is bound to the
  empty union is bound; it differs from a name that is not bound at all.
-/
import Std.Data.ExtTreeMap.Lemmas
import PhpNames.UnionType.Basic

namespace PhpNames

/-- The union each bound variable has. -/
structure Scope where
  bindings : Std.ExtTreeMap String UnionType := ∅

namespace Scope

/-- No variable is bound. -/
def empty : Scope := {}

/-- The union of a bound variable. -/
def get? (s : Scope) (name : String) : Option UnionType := s.bindings[name]?

/-- Whether a variable is bound. -/
def has (s : Scope) (name : String) : Bool := s.bindings.contains name

/-- Binds a variable, also one that is bound already. -/
def bind (s : Scope) (name : String) (u : UnionType) : Scope :=
  ⟨s.bindings.insert name u⟩

/-- The number of bound variables. -/
def size (s : Scope) : Nat := s.bindings.size

/-- The bound variables and their unions, in the order of the names. -/
def toList (s : Scope) : List (String × UnionType) := s.bindings.toList

/-- Whether two scopes bind the same variables to the same types. -/
def same (s t : Scope) : Bool :=
  s.size == t.size && s.toList.all fun (name, u) => (t.get? name).any u.sameType

/-- Scopes with the same variables of the same types are the same. -/
@[ext] theorem ext {s t : Scope} (h : ∀ name, s.get? name = t.get? name) : s = t := by
  cases s; cases t
  exact congrArg mk (Std.ExtTreeMap.ext_getElem? h)

theorem get?_empty (name : String) : empty.get? name = none := by
  simp [empty, get?]

/-- Binding a variable changes its own type and no other. -/
theorem get?_bind (s : Scope) (name other : String) (u : UnionType) :
    (s.bind name u).get? other = if name = other then some u else s.get? other := by
  simp [bind, get?, Std.ExtTreeMap.getElem?_insert]

/-- A variable is there if it has a type. -/
theorem has_eq_isSome (s : Scope) (name : String) : s.has name = (s.get? name).isSome := by
  simp [has, get?, Std.ExtTreeMap.isSome_getElem?_eq_contains]

end Scope

end PhpNames
