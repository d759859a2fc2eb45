/-
  PhpNames.Proofs.Context.Reread — the path of a namespace, read as a namespace.

  A written namespace is cut twice, first its blanks and then its separators.  The second cut may
  lay blanks open, and they become part of the path:

      `App \`   is the namespace   `\App `.

  When that path is read in its turn, blanks at its end are cut off, and blanks behind the separator
  that it begins with are not.  So reading the path gives the same namespace exactly when the path
  does not end with a blank, and that is when no blank of the written text is left at its end once
  the separators there are gone (`Exposed`).  A text of blanks and separators alone is the root in
  the same case.
-/
import PhpNames.Proofs.Context.RootedPaths

namespace PhpNames

/-! ## §1. Reading a path. -/

namespace Namespace

/-- A path that is read as a namespace loses the blanks at its end, and then the separators that
    stood before them. -/
theorem inside_path (written : String) :
    inside (ofText written).path =
      Text.cut (· == separator) (Text.dropEndWhile Text.isBlank (inside written)) := by
  show Text.cut (· == separator) (Text.trim (ofText written).path).toList = _
  rw [Text.toList_trim, toList_path_ofText, Text.cut_cons_of_neg rfl]
  exact Text.cut_cons_of_pos rfl _

/-- A path is read again as the same namespace unless what is inside ends in a blank. -/
theorem reread_eq_iff_ends (written : String) :
    ofText (ofText written).path = ofText written ↔
      ∀ b ∈ (inside written).getLast?, Text.isBlank b = false := by
  rw [ofText_eq_iff, inside_path, ← Text.dropEndWhile_eq_self_iff]
  constructor
  · intro h
    -- the two cuts leave as much as there was, so the first has taken nothing
    have hle : (inside written).length ≤
        (Text.dropEndWhile Text.isBlank (inside written)).length := by
      conv_lhs => rw [← h]
      exact (Text.cut_isInfix _ _).length_le
    rw [Text.dropEndWhile_eq_rdropWhile] at hle ⊢
    exact (List.rdropWhile_prefix _ _).eq_of_length_le hle
  · intro h
    rw [h, cut_inside]

/-! ## §2. Exposed blanks. -/

/-- Without the blanks around it, the text ends with separators that have a blank before them:
    cutting them off leaves the blank at the end. -/
def Exposed (written : String) : Prop :=
  ∃ front b back, (Text.trim written).toList = front ++ b :: back ∧ Text.isBlank b = true ∧
    ∀ c ∈ back, c = separator

/-- A blank is no separator. -/
theorem not_separator_of_isBlank {b : Char} (h : Text.isBlank b = true) :
    (b == separator) = false := by
  rw [beq_eq_false_iff_ne]
  rintro rfl
  exact absurd h (by decide)

/-- What is exposed by cutting off the separators is a blank at the end of the inside. -/
theorem exposed_iff (written : String) :
    Exposed written ↔ ∃ b ∈ (inside written).getLast?, Text.isBlank b = true := by
  have hlast : ∀ b, Text.isBlank b = true →
      ((inside written).getLast? = some b ↔ ∃ front back,
        (Text.trim written).toList = front ++ b :: back ∧ ∀ c ∈ back, (c == separator) = true) :=
    fun b hb => Text.getLast?_cut_eq_some_iff (not_separator_of_isBlank hb)
  constructor
  · intro h
    obtain ⟨front, b, back, htext, hb, hback⟩ := h
    refine ⟨b, (hlast b hb).mpr ⟨front, back, htext, ?_⟩, hb⟩
    intro c hc
    exact beq_iff_eq.mpr (hback c hc)
  · intro h
    obtain ⟨b, hmem, hb⟩ := h
    obtain ⟨front, back, htext, hback⟩ := (hlast b hb).mp hmem
    exact ⟨front, b, back, htext, hb, fun c hc => beq_iff_eq.mp (hback c hc)⟩

/-- A path is read again as the same namespace exactly if no blank has been exposed. -/
theorem reread_eq_iff (written : String) :
    ofText (ofText written).path = ofText written ↔ ¬Exposed written := by
  rw [reread_eq_iff_ends, exposed_iff]
  simp

/-- A blank that is exposed is the end of the path. -/
theorem exposed_iff_path (written : String) :
    Exposed written ↔ (ofText written).path.toList.getLast?.any Text.isBlank = true := by
  rw [exposed_iff, toList_path_ofText, Option.any_eq_true]
  cases inside written with
  | nil => simp [separator, Text.isBlank]
  | cons c cs =>
    rw [List.getLast?_cons_cons]
    exact Iff.rfl

/-- What is left of blanks and separators has a blank at its end. -/
theorem ofText_eq_root_iff_not_exposed {written : String}
    (h : ∀ c ∈ written.toList, Text.isBlank c = true ∨ c = separator) :
    ofText written = root ↔ ¬Exposed written := by
  rw [ofText_eq_root_iff, exposed_iff]
  constructor
  · intro hnil
    rw [hnil]
    simp
  · intro hnone
    by_contra hne
    obtain ⟨b, hb⟩ := Option.ne_none_iff_exists'.mp (mt List.getLast?_eq_none_iff.mp hne)
    have hmem : b ∈ written.toList :=
      Text.mem_of_mem_trim ((Text.cut_isInfix _ _).mem (List.mem_of_mem_getLast? hb))
    -- a cut does not leave a separator at the end
    have hnot : (b == separator) = false :=
      (Text.cut_eq_self_iff.mp (cut_inside written)).2 b hb
    have hblank : Text.isBlank b = true :=
      (h b hmem).resolve_right (beq_eq_false_iff_ne.mp hnot)
    exact hnone ⟨b, hb, hblank⟩

end Namespace

/-! ## §3. Contexts. -/

namespace Context

@[simp]
theorem space_withNamespace (c : Context) (written : String) :
    (c.withNamespace written).space = .ofText written := by
  dsimp only [withNamespace]

/-- **When a namespace is its own reading**: entering the path of the namespace that a text stands
    for stays in that namespace exactly when the text exposes no blank, which is when the path does
    not end with one.  A text of blanks and separators stands for the root in the same case. -/
theorem withNamespace_path_iff (c : Context) (written : String) :
    (((c.withNamespace written).withNamespace (c.withNamespace written).space.path).space =
        (c.withNamespace written).space ↔
      ¬Namespace.Exposed written) ∧
    (Namespace.Exposed written ↔
      (c.withNamespace written).space.path.toList.getLast?.any Text.isBlank = true) ∧
    ((∀ ch ∈ written.toList, Text.isBlank ch = true ∨ ch = separator) →
      ((c.withNamespace written).space = .root ↔ ¬Namespace.Exposed written)) := by
  simp only [space_withNamespace]
  exact ⟨Namespace.reread_eq_iff written, Namespace.exposed_iff_path written,
    Namespace.ofText_eq_root_iff_not_exposed⟩

/-- Blanks in front of a path stay; a blank at its end is lost when the path is read. -/
theorem withNamespace_path_iff_blanks :
    ∃ (c : Context) (settled exposed plain : String),
      ((c.withNamespace settled).withNamespace (c.withNamespace settled).space.path).space =
        (c.withNamespace settled).space ∧
      (c.withNamespace settled).space.path = "\\ App\\Sub" ∧
      Namespace.Exposed exposed ∧ (c.withNamespace exposed).space.path = "\\App " ∧
      (∀ ch ∈ plain.toList, Text.isBlank ch = true ∨ ch = separator) ∧
      (c.withNamespace plain).space = .root := by
  let c : Context := Context.ofFile "a.php"
  have hblanks : ∀ ch ∈ " \\\\\t".toList, Text.isBlank ch = true ∨ ch = separator := by
    simp [separator, Text.isBlank]
  have hsettled : (c.withNamespace "\t\\ App\\Sub\\ ").space.path = "\\ App\\Sub" := by
    decide +kernel
  have hexposed : (c.withNamespace "App \\").space.path = "\\App " := by decide +kernel
  have hplain : (c.withNamespace " \\\\\t").space.path = "\\" := by decide +kernel
  obtain ⟨hkeeps, hends, -⟩ := withNamespace_path_iff c "\t\\ App\\Sub\\ "
  obtain ⟨-, hloses, -⟩ := withNamespace_path_iff c "App \\"
  obtain ⟨-, hstops, hroot⟩ := withNamespace_path_iff c " \\\\\t"
  rw [hsettled] at hends
  rw [hexposed] at hloses
  rw [hplain] at hstops
  exact ⟨c, _, _, _, hkeeps.mpr (hends.not.mpr (by decide +kernel)), hsettled,
    hloses.mpr (by decide +kernel), hexposed, hblanks,
    (hroot hblanks).mpr (hstops.not.mpr (by decide +kernel))⟩

/-- A blank between two separators is a namespace at first, and then the root. -/
theorem not_forall_withNamespace_path :
    (¬∀ (c : Context) (written : String),
      ((c.withNamespace written).withNamespace (c.withNamespace written).space.path).space =
        (c.withNamespace written).space) ∧
    ¬∀ (c : Context) (written : String),
      (∀ ch ∈ written.toList, Text.isBlank ch = true ∨ ch = separator) →
      (c.withNamespace written).space = .root := by
  constructor
  · intro h
    have hsame := h (Context.ofFile "a.php") "\\ \\"
    revert hsame
    decide +kernel
  · intro h
    have hroot := h (Context.ofFile "a.php") "\\ \\" (by simp [separator, Text.isBlank])
    revert hroot
    decide +kernel

end Context

end PhpNames
