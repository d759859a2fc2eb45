/-
  PhpNames.Proofs.ClassName.Names — the class that a name node names, and its full name.

  The class of a name node is found without asking for its full name: the node is read and its
  text is qualified once more.  Beside the words `self`, `static` and `parent`, which mean
  something else there, both ways find the same (`value_classOfName`), so the class is the declared
  spelling of the full name, and there is none where there is no full name.

  Nodes that hold a class name in one of their slots have the class of the name in that slot,
  and no class if there is something else (`value_className_of_classNode?`).
-/
import PhpNames.ClassName
import PhpNames.Proofs.Resolve.Recorded
import PhpNames.Resolve.Expressions

namespace PhpNames

/-! ## §1. The two steps of a class rule. -/

/-- A class is a candidate that is not empty and is accepted. -/
theorem ClassRule.value_className (rule : ClassRule) (c : Context) (n : Node) :
    (rule.className c n).value =
      match (rule.candidate c n).value with
      | none => ""
      | some name => if name = "" then "" else (rule.accept c name).getD "" := by
  unfold className
  rw [Logged.value_bind]
  cases (rule.candidate c n).value with
  | none => rfl
  | some name =>
    dsimp only
    split
    · rfl
    · cases rule.accept c name <;> rfl

/-! ## §2. Name nodes. -/

/-- The words that do not name a class by themselves where a class is named. -/
def classWords : List String := ["self", "static", "parent"]

/-- The node is one of these words, written as a relative name, in any letter case. -/
def Node.IsClassWord (n : Node) : Prop :=
  n.isRelative = true ∧ ∃ text, n.childText? 0 = some text ∧ Text.lower text ∈ classWords

/-- Beside the class words, the candidate of a name node is its full name, if it has one. -/
theorem Context.value_classOfName (c : Context) {n : Node} (hkind : n.kind = .name)
    (hword : ¬n.IsClassWord) :
    (c.classOfName n).value = (c.nameOfNode .cls n).run.value.toOption := by
  rw [value_nameOfNode]
  unfold classOfName
  rw [if_neg (not_not_intro hkind)]
  cases htext : n.childText? 0 with
  | none => rfl
  | some text =>
    dsimp only
    cases hrelative : n.isRelative with
    | false => rfl
    | true =>
      -- the words are tried one after the other, and the text is none of them
      have hnot : Text.lower text ∉ classWords := fun hmem => hword ⟨hrelative, text, htext, hmem⟩
      obtain ⟨hself, hstatic, hparent⟩ : Text.lower text ≠ "self" ∧ Text.lower text ≠ "static" ∧
          Text.lower text ≠ "parent" := by
        simpa [classWords] using hnot
      rw [if_neg (by simp), if_neg (not_or.mpr ⟨hself, hstatic⟩), if_neg hparent]
      show some (c.qualifyLogged .cls text).value =
        some (if true = true then c.qualify .cls text else text)
      rw [if_pos rfl, value_qualifyLogged]

/-- The declared spelling of a name that has been found, and nothing if none has or if it is not
    declared. -/
def KnownClasses.declared (known : KnownClasses) : Except ResolveError String → String
  | .ok name => if name = "" then "" else (known.spelling? name).getD ""
  | .error _ => ""

/-- In a class-name position a name node stands for its own full name. -/
theorem Resolver.qualifiedName_of_name {r : Resolver} {n : Node} (h : n.kind = .name) :
    r.qualifiedName n = r.context.nameOfNode .cls n := by
  unfold qualifiedName
  rw [if_pos h]

/-- A name node is the node that names its class. -/
theorem Node.classNode?_of_name {n : Node} (h : n.kind = .name) : n.classNode? = some n := by
  unfold classNode?
  rw [h]

/-- The candidate of a node is the one of the node in the place for its class name. -/
theorem KnownClasses.candidate_of_classNode? (known : KnownClasses) (c : Context) {n m : Node}
    (h : n.classNode? = some m) : known.rule.candidate c n = c.classOfName m := by
  show c.classCandidate n = c.classOfName m
  unfold Context.classCandidate
  rw [h]

/-- The class of a name node is the declared spelling of its full name. -/
theorem KnownClasses.value_className_of_name (known : KnownClasses) (r : Resolver) {n : Node}
    (hkind : n.kind = .name) (hword : ¬n.IsClassWord) :
    (known.rule.className r.context n).value = known.declared (r.qualifiedName n).run.value := by
  have hcandidate : (known.rule.candidate r.context n).value =
      (r.context.nameOfNode .cls n).run.value.toOption := by
    rw [known.candidate_of_classNode? r.context (Node.classNode?_of_name hkind)]
    exact r.context.value_classOfName hkind hword
  rw [ClassRule.value_className, hcandidate, Resolver.qualifiedName_of_name hkind]
  -- no full name is no candidate
  cases (r.context.nameOfNode .cls n).run.value <;> rfl

/-! ## §3. Nodes with a class name in a slot. -/

/-- A slot that holds a node gives it as a child node. -/
theorem Node.childNode?_of_child? {n m : Node} {i : Nat} (h : n.child? i = some (.node m)) :
    n.childNode? i = some m := by
  unfold childNode?
  rw [h]
  rfl

/-- What stands in the place for the class name decides the class. -/
theorem KnownClasses.value_className_of_classNode? (known : KnownClasses) (c : Context)
    {n m : Node} (h : n.classNode? = some m) :
    (known.rule.className c n).value =
      if m.kind = .name then (known.rule.className c m).value else "" := by
  rw [ClassRule.value_className, known.candidate_of_classNode? c h]
  by_cases hkind : m.kind = .name
  · -- a name node is itself in the place for its class name
    have hsame := known.candidate_of_classNode? c (Node.classNode?_of_name hkind)
    rw [if_pos hkind, ClassRule.value_className, hsame]
  · have hnone : (c.classOfName m).value = none := by
      unfold Context.classOfName
      rw [if_pos hkind]
      rfl
    rw [if_neg hkind, hnone]

/-! ## §4. Classes and full names agree. -/

/-- **Classes and full names agree**: the class of a name node that is none of the class words is
    the declared spelling of its full name, if it has one that is declared.  A node that holds a
    class name in a slot has the class of the name that stands there, and else none. -/
theorem KnownClasses.className_eq_declared (known : KnownClasses) (c : Context) :
    (∀ (o : Options) (n : Node), n.kind = .name → ¬n.IsClassWord →
      (known.rule.className c n).value =
        known.declared (Resolver.qualifiedName ⟨c, o⟩ n).run.value) ∧
    (∀ n m : Node, n.kind ∈ [.new, .staticCall, .staticProp, .classConst] →
      n.child? 0 = some (.node m) →
      (known.rule.className c n).value =
        if m.kind = .name then (known.rule.className c m).value else "") ∧
    ∀ n m : Node, n.kind = .instanceOf → n.child? 1 = some (.node m) →
      (known.rule.className c n).value =
        if m.kind = .name then (known.rule.className c m).value else "" := by
  refine ⟨?_, ?_, ?_⟩
  · intro o n hkind hword
    exact known.value_className_of_name ⟨c, o⟩ hkind hword
  · intro n m hkind hm
    apply known.value_className_of_classNode? c
    have hchild : n.childNode? 0 = some m := Node.childNode?_of_child? hm
    simp only [List.mem_cons, List.not_mem_nil, or_false] at hkind
    -- whichever of the four kinds it is, the class is named in slot 0
    unfold Node.classNode?
    rcases hkind with hk | hk | hk | hk <;> rw [hk] <;> exact hchild
  · intro n m hkind hm
    apply known.value_className_of_classNode? c
    have hchild : n.childNode? 1 = some m := Node.childNode?_of_child? hm
    unfold Node.classNode?
    rw [hkind]
    exact hchild

/-- An imported name is accepted in the spelling of a declaration, alone and in the first slot of
    another node; a variable names no class. -/
theorem KnownClasses.className_eq_declared_imported :
    ∃ (known : KnownClasses) (c : Context) (n new instanceOf : Node),
      n.kind = .name ∧ ¬n.IsClassWord ∧
      (known.rule.className c n).value =
        known.declared (Resolver.qualifiedName ⟨c, {}⟩ n).run.value ∧
      known.declared (Resolver.qualifiedName ⟨c, {}⟩ n).run.value = "\\Vendor\\Client" ∧
      new.kind ∈ [.new, .staticCall, .staticProp, .classConst] ∧
      new.child? 0 = some (.node n) ∧
      (known.rule.className c new).value = (known.rule.className c n).value ∧
      instanceOf.kind = .instanceOf ∧ instanceOf.child? 1 = some (.node (.var "x" 1)) ∧
      (known.rule.className c instanceOf).value = "" := by
  let known : KnownClasses := .ofList ["Vendor\\Client"]
  let c : Context := (Context.ofFile "a.php").withAlias .cls "C" "\\VENDOR\\client"
  let n : Node := .ofName "C" relativeFlag 1
  obtain ⟨hname, hslot, hinstance⟩ := known.className_eq_declared c
  have hword : ¬n.IsClassWord := by
    rintro ⟨-, text, htext, hmem⟩
    obtain rfl := Option.some.inj htext
    revert hmem
    decide +kernel
  refine ⟨known, c, n, ⟨.new, 5, 2, [some (.node n), none]⟩,
    ⟨.instanceOf, 0, 3, [none, some (.node (.var "x" 1))]⟩, rfl, hword, hname {} n rfl hword,
    by decide +kernel, by decide, rfl, hslot _ n (by decide) rfl, rfl, rfl,
    hinstance _ (.var "x" 1) rfl rfl⟩

end PhpNames
