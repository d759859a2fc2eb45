/-
  PhpNames.Proofs.UnitDescription.FinalMembers — what a description makes of members that are given
  more than once, and of their order.

  The tables in a description are filled member by member, so of the members with one key the last
  one counts:

      union of a variable x        =   what the text of the last member x in `variables` says
      name imported under a key    =   that of the last member with the key, in the last table that
                                       is given for the kind

  The order in which the variables are then bound has no influence, for each is bound once.  So two
  descriptions with the same file, namespace and class and the same last members make the same
  context, and with it everything that is resolved there is the same (`toContext_of_lastMember?`).
-/
import Mathlib.Data.List.Induction
import PhpNames.Proofs.Json.Members
import PhpNames.Proofs.Resolve.Reporting
import PhpNames.UnitDescription

namespace PhpNames

open Json (Value Document)

/-! ## §1. The last member with a key. -/

section

variable {α : Type}

/-- The last of the members with a key. -/
def lastMember? (ms : List (String × α)) (key : String) : Option α := ms.reverse.lookup key

theorem lastMember?_nil (key : String) : lastMember? ([] : List (String × α)) key = none := rfl

/-- The last member decides if it has the key. -/
theorem lastMember?_concat (ms : List (String × α)) (m : String × α) (key : String) :
    lastMember? (ms ++ [m]) key = if m.1 = key then some m.2 else lastMember? ms key := by
  unfold lastMember?
  rw [List.reverse_append, List.reverse_singleton, List.singleton_append, List.lookup_cons]
  by_cases hkey : m.1 = key
  · rw [if_pos hkey, beq_iff_eq.mpr hkey.symm]
  · rw [if_neg hkey, beq_eq_false_iff_ne.mpr (Ne.symm hkey)]

/-- There is a last member with a key exactly if there is one at all. -/
theorem isSome_lastMember?_iff {ms : List (String × α)} {key : String} :
    (lastMember? ms key).isSome = true ↔ ∃ a, (key, a) ∈ ms := by
  induction ms using List.reverseRecOn with
  | nil => simp [lastMember?_nil]
  | append_singleton ms m ih =>
    obtain ⟨other, a⟩ := m
    rw [lastMember?_concat]
    by_cases hkey : other = key
    · subst hkey
      simp
    · simp [hkey, Ne.symm hkey, ih]

/-- Among members with different keys the last one with a key is the only one. -/
theorem lastMember?_eq_some_iff_of_nodup {ms : List (String × α)} (h : (ms.map Prod.fst).Nodup)
    {key : String} {a : α} : lastMember? ms key = some a ↔ (key, a) ∈ ms := by
  induction ms using List.reverseRecOn with
  | nil => simp [lastMember?_nil]
  | append_singleton ms m ih =>
    obtain ⟨other, b⟩ := m
    rw [List.map_append, List.nodup_append] at h
    obtain ⟨hms, -, hdisjoint⟩ := h
    rw [lastMember?_concat, List.mem_append, List.mem_singleton]
    by_cases hkey : other = key
    · -- the last member has the key, so by `Nodup` no earlier one can
      have hnot : (key, a) ∉ ms := fun hmem =>
        hdisjoint key (List.mem_map_of_mem hmem) other List.mem_cons_self hkey.symm
      simp [hkey, hnot, eq_comm]
    · simp [hkey, Ne.symm hkey, ih hms]

end

/-- The text of the last member with a key. -/
def lastText? (ms : List (String × Value)) (key : String) : Option String :=
  (lastMember? ms key).bind Json.text?

/-- The members of a value, if it is an object. -/
def membersOf : Option Value → List (String × Value)
  | some (.obj ms) => ms
  | _ => []

/-! ## §2. Tables. -/

/-- A member with a text is one more text in the table. -/
theorem getElem?_addText? {t new : Std.ExtTreeMap String String} {m : String × Value}
    (h : addText? t m = some new) (key : String) :
    new[key]? = if m.1 = key then Json.text? m.2 else t[key]? := by
  obtain ⟨s, hs, rfl⟩ := Option.map_eq_some_iff.mp h
  rw [Std.ExtTreeMap.getElem?_insert, hs]
  simp

/-- **A table of texts** has the last text for each key, and nothing but texts has been given. -/
theorem textTable?_obj {ms : List (String × Value)} {t : Std.ExtTreeMap String String}
    (h : textTable? (.obj ms) = some t) (key : String) :
    t[key]? = lastText? ms key ∧ (t[key]?.isSome = true ↔ ∃ v, (key, v) ∈ ms) := by
  rw [← isSome_lastMember?_iff]
  have hfold : ms.foldlM addText? ∅ = some t := h
  clear h
  induction ms using List.reverseRecOn generalizing t with
  | nil =>
    cases hfold
    simp [lastText?, lastMember?_nil]
  | append_singleton ms m ih =>
    rw [List.foldlM_append] at hfold
    obtain ⟨before, hbefore, hlast⟩ := Option.bind_eq_some_iff.mp hfold
    have hadd : addText? before m = some t := by simpa using hlast
    have hbefore := ih hbefore
    unfold lastText? at hbefore ⊢
    rw [getElem?_addText? hadd, lastMember?_concat]
    -- the last member has a text, and decides about its own key only
    by_cases hkey : m.1 = key
    · obtain ⟨s, hs, -⟩ := Option.map_eq_some_iff.mp hadd
      rw [if_pos hkey, if_pos hkey]
      simp [hs]
    · rw [if_neg hkey, if_neg hkey]
      exact hbefore

/-- A kind is found under its own key only. -/
theorem AliasKind.ofKey?_eq_some_iff {s : String} {k : AliasKind} :
    ofKey? s = some k ↔ s = k.key := by
  constructor
  · intro h
    have hkey := List.find?_some h
    exact (eq_of_beq hkey).symm
  · rintro rfl
    cases k <;> rfl

/-- No two kinds have one key. -/
theorem AliasKind.key_injective {k l : AliasKind} (h : k.key = l.key) : k = l := by
  have hk : ofKey? k.key = some k := ofKey?_eq_some_iff.mpr rfl
  have hl : ofKey? k.key = some l := ofKey?_eq_some_iff.mpr h
  exact Option.some.inj (hk.symm.trans hl)

/-- A member with a table is the table of its kind. -/
theorem AliasTables.get?_addTable? {t new : AliasTables} {m : String × Value}
    (h : addTable? t m = some new) (k : AliasKind) (key : String) :
    new.get? k key = if m.1 = k.key then lastText? (membersOf (some m.2)) key
      else t.get? k key := by
  obtain ⟨kind, hkind, h⟩ := Option.bind_eq_some_iff.mp h
  obtain ⟨table, htable, h⟩ := Option.bind_eq_some_iff.mp h
  cases h
  rw [AliasKind.ofKey?_eq_some_iff.mp hkind]
  unfold AliasTables.get?
  rw [AliasTables.table_setTable]
  -- the member sets the table of one kind as a whole and leaves the others
  by_cases hk : kind = k
  · subst hk
    rw [if_pos rfl, if_pos rfl]
    match hv : m.2 with
    | .obj ms =>
      rw [hv] at htable
      exact (textTable?_obj htable key).1
    | .null | .bool _ | .num _ | .str _ | .arr _ =>
      rw [hv] at htable
      cases htable
  · rw [if_neg hk, if_neg fun hkey => hk (AliasKind.key_injective hkey)]

/-- **Import tables**: of each kind the last table, as far as one is given. -/
theorem AliasTables.get?_ofValue? {ms : List (String × Value)} {t : AliasTables}
    (h : AliasTables.ofValue? (.obj ms) = some t) (k : AliasKind) (key : String) :
    t.get? k key = lastText? (membersOf (lastMember? ms k.key)) key := by
  have hfold : ms.foldlM addTable? {} = some t := h
  clear h
  -- from the front: the table after the last member is what that member made of the one before
  induction ms using List.reverseRecOn generalizing t with
  | nil =>
    cases hfold
    cases k <;> simp [AliasTables.get?, AliasTables.table, lastMember?_nil, membersOf, lastText?]
  | append_singleton ms m ih =>
    rw [List.foldlM_append] at hfold
    obtain ⟨before, hbefore, hlast⟩ := Option.bind_eq_some_iff.mp hfold
    have hadd : addTable? before m = some t := by simpa using hlast
    rw [AliasTables.get?_addTable? hadd, lastMember?_concat, ih hbefore]
    by_cases hkey : m.1 = k.key
    · rw [if_pos hkey, if_pos hkey]
    · rw [if_neg hkey, if_neg hkey]

/-! ## §3. The fields of a document. -/

namespace UnitDescription

/-- What a document gives for a field: in an object by its name, in an array by its place. -/
def given (d : Document) (name : String) : Option Value :=
  match d with
  | .fields ms => (ms.lookup name).join
  | .value (.obj ms) => ms.lookup name
  | .value (.arr vs) => vs[fieldNames.idxOf name]?
  | .value _ => none

/-- Fields that are found are found by looking up their names. -/
theorem mapM_member? {ms : List (String × Value)} {names : List String} {fs : List (Option Value)}
    (h : names.mapM (Json.member? ms) = some fs) : fs = names.map fun name => ms.lookup name := by
  induction names generalizing fs with
  | nil =>
    cases h
    rfl
  | cons name names ih =>
    rw [List.mapM_cons] at h
    obtain ⟨o, ho, h⟩ := Option.bind_eq_some_iff.mp h
    obtain ⟨rest, hrest, h⟩ := Option.bind_eq_some_iff.mp h
    cases h
    rw [List.map_cons, Json.eq_lookup_of_member? ho, ih hrest]

/-- What is read of the fields is what the document gives. -/
theorem recordFields?_of_document {d : Document} {fs : List (Option Value)}
    (h : (d.select? fieldNames).bind (Json.recordFields? fieldNames) = some fs) :
    fs = fieldNames.map (given d) := by
  obtain ⟨v, hv, hfs⟩ := Option.bind_eq_some_iff.mp h
  cases d with
  | fields ms =>
    -- a member that is found among the readable ones is the one that is given
    obtain ⟨vs, hvs, rfl⟩ := Option.map_eq_some_iff.mp hv
    rw [mapM_member? hfs]
    apply List.map_congr_left
    intro name hname
    rw [Json.lookup_of_mapM_valued? hvs, Json.lookup_filter hname]
    rfl
  | value w =>
    cases hv
    match v with
    | .obj ms => exact mapM_member? hfs
    | .arr [] => exact (Option.some.inj hfs).symm
    | .arr [_] => exact (Option.some.inj hfs).symm
    | .arr [_, _] => exact (Option.some.inj hfs).symm
    | .arr [_, _, _] => exact (Option.some.inj hfs).symm
    | .arr [_, _, _, _] => exact (Option.some.inj hfs).symm
    | .arr [_, _, _, _, _] => exact (Option.some.inj hfs).symm
    | .arr (_ :: _ :: _ :: _ :: _ :: _ :: vs) =>
      unfold Json.recordFields? at hfs
      obtain ⟨hlength, -⟩ := Option.ite_none_right_eq_some.mp hfs
      change vs.length + 6 ≤ 5 at hlength
      omega
    | .null | .bool _ | .num _ | .str _ => cases hfs

/-- Each field is read of what the document gives for it. -/
structure ReadOf (u : UnitDescription) (d : Document) : Prop where
  file : Json.fieldOr? Json.text? "" (given d "file") = some u.file
  space : Json.fieldOr? Json.text? "" (given d "namespace") = some u.space
  aliases : Json.fieldOr? AliasTables.ofValue? {} (given d "aliases") = some u.aliases
  enclosingClass : Json.fieldOr? optionalText? none (given d "class") = some u.enclosingClass
  bindings : Json.fieldOr? textTable? ∅ (given d "variables") = some u.bindings

/-- **What a description has been read of**: each field from what the document gives for it, or else
    its default. -/
theorem readOf_of_ofDocument? {d : Document} {u : UnitDescription} (h : ofDocument? d = some u) :
    u.ReadOf d := by
  obtain ⟨v, hv, h⟩ := Option.bind_eq_some_iff.mp h
  obtain ⟨fs, hfs, h⟩ := Option.bind_eq_some_iff.mp h
  have hgiven : fs = fieldNames.map (given d) :=
    recordFields?_of_document (Option.bind_eq_some_iff.mpr ⟨v, hv, hfs⟩)
  subst hgiven
  obtain ⟨file, hfile, h⟩ := Option.bind_eq_some_iff.mp h
  obtain ⟨space, hspace, h⟩ := Option.bind_eq_some_iff.mp h
  obtain ⟨aliases, haliases, h⟩ := Option.bind_eq_some_iff.mp h
  obtain ⟨enclosingClass, hclass, h⟩ := Option.bind_eq_some_iff.mp h
  obtain ⟨bindings, hbindings, h⟩ := Option.bind_eq_some_iff.mp h
  cases h
  exact ⟨hfile, hspace, haliases, hclass, hbindings⟩

/-- The variables that a document gives, each with its text. -/
def givenVariables (d : Document) : List (String × Value) := membersOf (given d "variables")

/-- The last full name that a document gives for an imported name, in the last table that it gives
    for the kind. -/
def lastTarget? (d : Document) (k : AliasKind) (key : String) : Option String :=
  lastText? (membersOf (lastMember? (membersOf (given d "aliases")) k.key)) key

/-- A variable is bound by the last member that is given for it. -/
theorem ReadOf.getElem?_bindings {u : UnitDescription} {d : Document} (h : u.ReadOf d)
    (x : String) :
    u.bindings[x]? = lastText? (givenVariables d) x ∧
      (u.bindings[x]?.isSome = true ↔ ∃ v, (x, v) ∈ givenVariables d) := by
  have hread := h.bindings
  unfold givenVariables
  -- a description without the member binds nothing; one whose member is no object is refused
  match hgiven : given d "variables" with
  | none =>
    rw [hgiven, Json.fieldOr?_none, Option.some_inj] at hread
    rw [← hread]
    simp [membersOf, lastText?, lastMember?_nil]
  | some (.obj ms) =>
    rw [hgiven, Json.fieldOr?_some] at hread
    exact textTable?_obj hread x
  | some .null | some (.bool _) | some (.num _) | some (.str _) | some (.arr _) =>
    rw [hgiven, Json.fieldOr?_some] at hread
    cases hread

/-- An entry says what the last member in the last table of its kind says. -/
theorem ReadOf.get?_aliases {u : UnitDescription} {d : Document} (h : u.ReadOf d) (k : AliasKind)
    (key : String) : u.aliases.get? k key = lastTarget? d k key := by
  have hread := h.aliases
  unfold lastTarget?
  -- a description without the member has empty tables; one whose member is no object is refused
  match hgiven : given d "aliases" with
  | none =>
    rw [hgiven, Json.fieldOr?_none, Option.some_inj] at hread
    rw [← hread]
    cases k <;>
      simp [AliasTables.get?, AliasTables.table, membersOf, lastText?, lastMember?_nil]
  | some (.obj ms) =>
    rw [hgiven, Json.fieldOr?_some] at hread
    exact AliasTables.get?_ofValue? hread k key
  | some .null | some (.bool _) | some (.num _) | some (.str _) | some (.arr _) =>
    rw [hgiven, Json.fieldOr?_some] at hread
    cases hread

/-! ## §4. Binding the variables one after the other. -/

/-- A scope that is filled with the unions of texts, one after the other. -/
def scopeInOrder (order : List (String × String)) : Scope :=
  order.foldl (fun s binding => s.bind binding.1 (UnionType.ofText binding.2)) .empty

/-- Binding one variable after the other leaves the last binding of each. -/
theorem get?_scopeInOrder (order : List (String × String)) (x : String) :
    (scopeInOrder order).get? x = (lastMember? order x).map UnionType.ofText := by
  induction order using List.reverseRecOn with
  | nil => exact Scope.get?_empty x
  | append_singleton order binding ih =>
    unfold scopeInOrder at ih ⊢
    rw [List.foldl_append, List.foldl_cons, List.foldl_nil, Scope.get?_bind, ih,
      lastMember?_concat]
    by_cases hkey : binding.1 = x
    · rw [if_pos hkey, if_pos hkey]
      rfl
    · rw [if_neg hkey, if_neg hkey]

/-- The scope of a description has the types that are read from the texts of the bindings. -/
theorem get?_scope (u : UnitDescription) (x : String) :
    u.scope.get? x = (u.bindings[x]?).map UnionType.ofText :=
  Std.ExtTreeMap.getElem?_map

/-- In which order the variables are bound makes no difference. -/
theorem scopeInOrder_of_perm {u : UnitDescription} {order : List (String × String)}
    (h : order.Perm u.bindings.toList) : scopeInOrder order = u.scope := by
  have hnodup : (order.map Prod.fst).Nodup := by
    rw [(h.map Prod.fst).nodup_iff, Std.ExtTreeMap.map_fst_toList_eq_keys]
    exact Std.ExtTreeMap.nodup_keys
  -- so each variable is bound once, and the last binding is the only one
  have hlast (x : String) : lastMember? order x = u.bindings[x]? := by
    apply Option.ext
    intro text
    rw [lastMember?_eq_some_iff_of_nodup hnodup, h.mem_iff,
      Std.ExtTreeMap.mem_toList_iff_getElem?_eq_some]
  apply Scope.ext
  intro x
  rw [get?_scopeInOrder, get?_scope, hlast]

/-- The context of a description, made step by step with its variables in some order. -/
def contextInOrder (u : UnitDescription) (order : List (String × String)) : Context :=
  let c := (((Context.ofFile u.file).withNamespace u.space).withAliases u.aliases).withScope
    (scopeInOrder order)
  match u.enclosingClass with
  | some name => c.withClass name
  | none => c

/-- The order in which the variables are bound does not matter, since no two bindings are of one
    variable. -/
theorem contextInOrder_of_perm {u : UnitDescription} {order : List (String × String)}
    (h : order.Perm u.bindings.toList) : u.contextInOrder order = u.toContext := by
  unfold contextInOrder toContext Context.withScope Context.withAliases Context.withNamespace
    Context.withClass Context.ofFile
  rw [scopeInOrder_of_perm h]
  dsimp only
  cases u.enclosingClass <;> rfl

/-! ## §5. The context of a document. -/

/-- The union of a variable is what its last text says, and it is bound if it is given at all. -/
theorem get?_toContext_scope {d : Document} {u : UnitDescription} (h : ofDocument? d = some u)
    (x : String) :
    u.toContext.scope.get? x = (lastText? (givenVariables d) x).map UnionType.ofText ∧
      (u.toContext.scope.has x = true ↔ ∃ v, (x, v) ∈ givenVariables d) := by
  obtain ⟨htext, hgiven⟩ := (readOf_of_ofDocument? h).getElem?_bindings x
  have hget : u.toContext.scope.get? x = (u.bindings[x]?).map UnionType.ofText := u.get?_scope x
  rw [Scope.has_eq_isSome, hget, Option.isSome_map]
  exact ⟨by rw [htext], hgiven⟩

/-- The context of a description knows an import by the last member in the last table of its kind.
    -/
theorem alias?_toContext {d : Document} {u : UnitDescription} (h : ofDocument? d = some u)
    (k : AliasKind) (key : String) : u.toContext.alias? k key = lastTarget? d k key :=
  (readOf_of_ofDocument? h).get?_aliases k key

/-- Descriptions with the same last members make the same context. -/
theorem toContext_eq_of_lastMember? {d d' : Document} {u u' : UnitDescription}
    (h : ofDocument? d = some u) (h' : ofDocument? d' = some u') (hfile : u.file = u'.file)
    (hspace : u.space = u'.space) (hclass : u.enclosingClass = u'.enclosingClass)
    (hvariables : ∀ x, lastText? (givenVariables d) x = lastText? (givenVariables d') x)
    (haliases : ∀ k key, lastTarget? d k key = lastTarget? d' k key) :
    u.toContext = u'.toContext := by
  -- the maps are equal as soon as every look-up in them is
  have hscope : u.scope = u'.scope := by
    apply Scope.ext
    intro x
    have hx := (get?_toContext_scope h x).1
    have hx' := (get?_toContext_scope h' x).1
    rw [hvariables x] at hx
    exact hx.trans hx'.symm
  have htables : u.aliases = u'.aliases := by
    apply AliasTables.ext_get?
    intro k key
    have hk := alias?_toContext h k key
    have hk' := alias?_toContext h' k key
    rw [haliases k key] at hk
    exact hk.trans hk'.symm
  unfold toContext
  rw [hfile, hspace, hclass, hscope, htables]

/-- **A description determines its context**: of the members with one key the last one counts, for
    variables as for imports, and the order in which variables are bound does not.  Descriptions
    with the same file, namespace and class and the same last members make one context, so each run
    of operations has the same outcomes there and holds the same diagnostics at its end. -/
theorem toContext_of_lastMember? :
    (∀ (u : UnitDescription) (order : List (String × String)), order.Perm u.bindings.toList →
      u.contextInOrder order = u.toContext) ∧
    (∀ (d : Document) (u : UnitDescription), ofDocument? d = some u →
      (∀ x, u.toContext.scope.get? x =
          (lastText? (givenVariables d) x).map UnionType.ofText ∧
        (u.toContext.scope.has x = true ↔ ∃ v, (x, v) ∈ givenVariables d)) ∧
      ∀ k key, u.toContext.alias? k key = lastTarget? d k key) ∧
    ∀ (d d' : Document) (u u' : UnitDescription) (order order' : List (String × String)),
      ofDocument? d = some u → ofDocument? d' = some u' →
      order.Perm u.bindings.toList → order'.Perm u'.bindings.toList →
      u.file = u'.file → u.space = u'.space → u.enclosingClass = u'.enclosingClass →
      (∀ x, lastText? (givenVariables d) x = lastText? (givenVariables d') x) →
      (∀ k key, lastTarget? d k key = lastTarget? d' k key) →
      u.contextInOrder order = u'.contextInOrder order' ∧
      ∀ (o : Options) (ops : List Operation),
        (Session.fresh ⟨u.contextInOrder order, o⟩).performAll ops =
          (Session.fresh ⟨u'.contextInOrder order', o⟩).performAll ops := by
  refine ⟨fun _ _ => contextInOrder_of_perm,
    fun d u h => ⟨get?_toContext_scope h, alias?_toContext h⟩, ?_⟩
  intro d d' u u' order order' h h' horder horder' hfile hspace hclass hvariables haliases
  have hcontext : u.contextInOrder order = u'.contextInOrder order' := by
    rw [contextInOrder_of_perm horder, contextInOrder_of_perm horder',
      toContext_eq_of_lastMember? h h' hfile hspace hclass hvariables haliases]
  refine ⟨hcontext, fun o ops => ?_⟩
  rw [hcontext]

/-- Repeated members in an object, and what remains of them in an array. -/
theorem toContext_of_lastMember?_repeated :
    let d : Document := .fields
      [("variables", some (.obj [("x", .str "int"), ("y", .str "A"), ("x", .str "string")])),
        ("aliases", some (.obj [("class", .obj [("A", .str "Old")]),
          ("class", .obj [("A", .str "Older"), ("A", .str "New")])]))]
    let d' : Document := .value (.arr [.str "", .str "",
      .obj [("function", .obj []), ("class", .obj [("A", .str "New")])], .null,
      .obj [("y", .str "A"), ("x", .str "string")]])
    ∃ u u', ofDocument? d = some u ∧ ofDocument? d' = some u' ∧
      u.contextInOrder u.bindings.toList.reverse = u'.contextInOrder u'.bindings.toList ∧
      u.toContext.scope.get? "x" = some (UnionType.ofText "string") ∧
      u.toContext.alias? .cls "A" = some "New" := by
  intro d d'
  have hvariables (x : String) :
      lastText? (givenVariables d) x = lastText? (givenVariables d') x := by
    have hd : givenVariables d = [("x", .str "int"), ("y", .str "A"), ("x", .str "string")] := rfl
    have hd' : givenVariables d' = [("y", .str "A"), ("x", .str "string")] := rfl
    rw [hd, hd']
    simp only [lastText?, lastMember?, List.reverse_cons, List.reverse_nil, List.nil_append,
      List.cons_append, List.lookup_cons]
    cases x == "x" <;> rfl
  have haliases (k : AliasKind) (key : String) : lastTarget? d k key = lastTarget? d' k key := by
    cases k with
    | function | constant => rfl
    | cls =>
      show lastText? [("A", .str "Older"), ("A", .str "New")] key =
        lastText? [("A", .str "New")] key
      simp only [lastText?, lastMember?, List.reverse_cons, List.reverse_nil, List.nil_append,
        List.cons_append, List.lookup_cons]
      cases key == "A" <;> rfl
  refine ⟨_, _, rfl, rfl, ?_, ?_, ?_⟩
  · exact (toContext_of_lastMember?.2.2 d d' _ _ _ _ rfl rfl (List.reverse_perm _)
      (List.Perm.refl _) rfl rfl rfl hvariables haliases).1
  · exact ((toContext_of_lastMember?.2.1 d _ rfl).1 "x").1
  · exact (toContext_of_lastMember?.2.1 d _ rfl).2 .cls "A"

end UnitDescription

end PhpNames
