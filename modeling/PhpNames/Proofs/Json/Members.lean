/-
  PhpNames.Proofs.Json.Members — the members of an object, one key at a time.

  A field of a record is looked for among all members of an object: it may be missing, it may stand
  there once, and a second one is an error.  The order of the members does not matter for this, nor
  do members with other keys (`member?_perm`, `member?_filter`).  A reader that goes through the
  members once, and keeps what it has read of each field, finds the same (`scanField?_none`).
-/
import Mathlib.Data.List.Perm.Basic
import PhpNames.Json.Record

namespace PhpNames.Json

/-! ## §1. The member with a key. -/

/-- A member with another key does not matter. -/
theorem member?_cons_of_ne {key other : String} (h : other ≠ key) (v : Value)
    (ms : List (String × Value)) : member? ((other, v) :: ms) key = member? ms key := by
  unfold member?
  rw [List.filter_cons_of_neg (by simpa using h)]

/-- A key that stands in front may not stand in the rest. -/
theorem member?_cons_self (key : String) (v : Value) (ms : List (String × Value)) :
    member? ((key, v) :: ms) key =
      (member? ms key).bind fun other => if other.isSome then none else some (some v) := by
  unfold member?
  rw [List.filter_cons_of_pos (by simp)]
  generalize (ms.filter fun m => m.1 == key) = found
  match found with
  | [] => rfl
  | [_] => rfl
  | _ :: _ :: _ => rfl

/-- The order of the members does not matter. -/
theorem member?_perm {ms ms' : List (String × Value)} (h : ms.Perm ms') (key : String) :
    member? ms key = member? ms' key := by
  have hfilter := h.filter fun m => m.1 == key
  unfold member?
  revert hfilter
  generalize (ms.filter fun m => m.1 == key) = found
  generalize (ms'.filter fun m => m.1 == key) = found'
  intro hfilter
  have hlength := hfilter.length_eq
  -- only whether one, none or more have the key matters, and that is a matter of length
  match found, found' with
  | [], [] => rfl
  | [m], [m'] =>
    rw [List.singleton_perm_singleton.mp hfilter]
  | _ :: _ :: _, _ :: _ :: _ => rfl
  | [], _ :: _ => simp at hlength
  | _ :: _, [] => simp at hlength
  | [_], _ :: _ :: _ => simp at hlength
  | _ :: _ :: _, [_] => simp at hlength

/-- Members may be left out whose keys are not among some that the key is one of. -/
theorem member?_filter {names : List String} {key : String} (h : key ∈ names)
    (ms : List (String × Value)) :
    member? (ms.filter fun m => names.contains m.1) key = member? ms key := by
  have hfilter : (ms.filter fun m => names.contains m.1).filter (fun m => m.1 == key) =
      ms.filter fun m => m.1 == key := by
    rw [List.filter_filter]
    apply List.filter_congr
    intro m _
    by_cases hkey : m.1 = key
    · simp [hkey, h]
    · simp [hkey]
  unfold member?
  rw [hfilter]

/-- A member that is found is one of the members. -/
theorem mem_of_member? {ms : List (String × Value)} {key : String} {v : Value}
    (h : member? ms key = some (some v)) : (key, v) ∈ ms := by
  unfold member? at h
  split at h
  · cases h
  · next m hm =>
    obtain ⟨hmem, hkey⟩ := List.mem_filter.mp (hm ▸ List.mem_singleton_self m)
    cases h
    rw [← eq_of_beq hkey]
    exact hmem
  · cases h

@[simp]
theorem fieldOr?_none {α : Type} (read : Value → Option α) (default : α) :
    fieldOr? read default none = some default := rfl

@[simp]
theorem fieldOr?_some {α : Type} (read : Value → Option α) (default : α) (v : Value) :
    fieldOr? read default (some v) = read v := rfl

/-- A field that is found is what a search from the front finds. -/
theorem eq_lookup_of_member? {ms : List (String × Value)} {key : String} {o : Option Value}
    (h : member? ms key = some o) : o = ms.lookup key := by
  induction ms with
  | nil =>
    cases h
    rfl
  | cons m ms ih =>
    obtain ⟨other, v⟩ := m
    by_cases hkey : other = key
    · subst hkey
      rw [member?_cons_self] at h
      obtain ⟨rest, -, h⟩ := Option.bind_eq_some_iff.mp h
      rw [List.lookup_cons_self]
      -- there is no second member with the key
      cases rest with
      | none => exact (Option.some.inj h).symm
      | some w => cases h
    · rw [member?_cons_of_ne hkey] at h
      rw [List.lookup_cons, beq_eq_false_iff_ne.mpr (Ne.symm hkey)]
      exact ih h

/-! ## §2. Going through the members. -/

/-- Reads the member with a key, where `old` is what has been read of such a member before. -/
def scanField? {α : Type} (read : Value → Option α) (key : String) (old : Option α) :
    List (String × Value) → Option (Option α)
  | [] => some old
  | (other, v) :: ms =>
    if other = key then do
      let a ← read v
      if old.isSome then none else scanField? read key (some a) ms
    else scanField? read key old ms

section

variable {α : Type} {read : Value → Option α} {key : String}

/-- A member with the key is read, and is one too many if there was one before. -/
theorem scanField?_cons_self (old : Option α) (v : Value) (ms : List (String × Value)) :
    scanField? read key old ((key, v) :: ms) =
      (read v).bind fun a => if old.isSome then none else scanField? read key (some a) ms := by
  rw [scanField?, if_pos rfl]
  rfl

/-- A member with another key is passed over. -/
theorem scanField?_cons_of_ne {other : String} (h : other ≠ key) (old : Option α) (v : Value)
    (ms : List (String × Value)) :
    scanField? read key old ((other, v) :: ms) = scanField? read key old ms := by
  rw [scanField?, if_neg h]

/-- After a member with the key there may be no other. -/
theorem scanField?_some (a : α) (ms : List (String × Value)) :
    scanField? read key (some a) ms =
      (member? ms key).bind fun other => if other.isSome then none else some (some a) := by
  induction ms with
  | nil => rfl
  | cons m ms ih =>
    obtain ⟨other, v⟩ := m
    by_cases hkey : other = key
    · subst hkey
      rw [scanField?_cons_self, member?_cons_self]
      cases read v <;> rcases member? ms other with _ | _ | _ <;> rfl
    · rw [scanField?_cons_of_ne hkey, member?_cons_of_ne hkey, ih]

/-- **Going through the members** finds the one with the key, if there is one. -/
theorem scanField?_none (ms : List (String × Value)) :
    scanField? read key none ms =
      (member? ms key).bind (fieldOr? (fun v => (read v).map some) none) := by
  induction ms with
  | nil => rfl
  | cons m ms ih =>
    obtain ⟨other, v⟩ := m
    by_cases hkey : other = key
    · subst hkey
      rw [scanField?_cons_self, member?_cons_self]
      simp only [scanField?_some]
      cases hread : read v <;> rcases member? ms other with _ | _ | _ <;> simp [fieldOr?, hread]
    · rw [scanField?_cons_of_ne hkey, member?_cons_of_ne hkey, ih]

/-- A field with a default, which is looked for by going through the members. -/
theorem scanField?_map_getD (default : α) (ms : List (String × Value)) :
    (scanField? read key none ms).map (·.getD default) =
      (member? ms key).bind (fieldOr? read default) := by
  rw [scanField?_none]
  rcases member? ms key with _ | _ | v
  · rfl
  · rfl
  · show ((read v).map some).map _ = read v
    cases read v <;> rfl

/-- A field without a default, which is looked for by going through the members. -/
theorem scanField?_bind_id (ms : List (String × Value)) :
    (scanField? read key none ms).bind id = (member? ms key).bind fun o => o.bind read := by
  rw [scanField?_none]
  rcases member? ms key with _ | _ | v
  · rfl
  · rfl
  · show ((read v).map some).bind id = read v
    cases read v <;> rfl

end

/-! ## §3. Documents. -/

/-- Members with values may be chosen by their keys before or after the values are taken. -/
theorem mapM_valued?_filter (names : List String) {ms : List (String × Option Value)}
    {vs : List (String × Value)} (h : ms.mapM valued? = some vs) :
    (ms.filter fun m => names.contains m.1).mapM valued? =
      some (vs.filter fun m => names.contains m.1) := by
  induction ms generalizing vs with
  | nil =>
    cases h
    rfl
  | cons m ms ih =>
    rw [List.mapM_cons] at h
    obtain ⟨v, hv, h⟩ := Option.bind_eq_some_iff.mp h
    obtain ⟨rest, hrest, h⟩ := Option.bind_eq_some_iff.mp h
    cases h
    -- taking the value leaves the key, so both lists are filtered alike
    have hkey : v.1 = m.1 := by
      obtain ⟨w, -, rfl⟩ := Option.map_eq_some_iff.mp hv
      rfl
    rw [List.filter_cons, List.filter_cons, hkey]
    cases names.contains m.1 with
    | true =>
      rw [if_pos rfl, if_pos rfl, List.mapM_cons, hv, ih hrest]
      rfl
    | false => exact ih hrest

/-- Looking a key up does not see members that are left out for other keys. -/
theorem lookup_filter {α : Type} {names : List String} {key : String} (h : key ∈ names)
    (ms : List (String × α)) :
    (ms.filter fun m => names.contains m.1).lookup key = ms.lookup key := by
  induction ms with
  | nil => rfl
  | cons m ms ih =>
    obtain ⟨other, a⟩ := m
    by_cases hkey : other = key
    · subst hkey
      rw [List.filter_cons_of_pos (by simpa using h), List.lookup_cons_self, List.lookup_cons_self]
    · have hne : (key == other) = false := beq_eq_false_iff_ne.mpr (Ne.symm hkey)
      by_cases hother : names.contains other = true
      · rw [List.filter_cons, if_pos hother, List.lookup_cons, List.lookup_cons, hne]
        exact ih
      · rw [List.filter_cons, if_neg hother, List.lookup_cons, hne]
        exact ih

/-- Where all members have values, a search among the values finds the value of the member. -/
theorem lookup_of_mapM_valued? {ms : List (String × Option Value)} {vs : List (String × Value)}
    (h : ms.mapM valued? = some vs) (key : String) : vs.lookup key = (ms.lookup key).join := by
  induction ms generalizing vs with
  | nil =>
    cases h
    rfl
  | cons m ms ih =>
    obtain ⟨other, o⟩ := m
    rw [List.mapM_cons] at h
    obtain ⟨v, hv, h⟩ := Option.bind_eq_some_iff.mp h
    obtain ⟨rest, hrest, h⟩ := Option.bind_eq_some_iff.mp h
    cases h
    obtain ⟨w, ho, rfl⟩ := Option.map_eq_some_iff.mp hv
    rw [List.lookup_cons, List.lookup_cons]
    -- a member without a value has no place in `vs`, so here it has one
    cases key == other with
    | true => exact ho.symm
    | false => exact ih hrest

/-- Where all of a document is readable, it does not matter at which members a reader looks who
    has no use for the others. -/
theorem Document.select?_bind_of_value? {α : Type} {names : List String} {d : Document} {v : Value}
    (h : d.value? = some v) {read : Value → Option α}
    (hread : ∀ ms, read (.obj (ms.filter fun m => names.contains m.1)) = read (.obj ms)) :
    (d.select? names).bind read = read v := by
  cases d with
  | value w =>
    cases h
    rfl
  | fields ms =>
    obtain ⟨vs, hvs, rfl⟩ := Option.map_eq_some_iff.mp h
    show (((ms.filter fun m => names.contains m.1).mapM valued?).map Value.obj).bind read = _
    rw [mapM_valued?_filter names hvs]
    exact hread vs

end PhpNames.Json
