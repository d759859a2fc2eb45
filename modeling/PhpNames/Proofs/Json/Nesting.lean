/-
  PhpNames.Proofs.Json.Nesting — how deep arrays and objects stand inside of one another.

  A container is unreadable when too many others are open around it, and a container that cannot
  be read makes the one around it unreadable too.  So whatever is read of a text is nested no
  deeper than `maxNesting` (`nesting_le_of_select?`).  The invariant of the assembly says this of
  every open container, with room for no more than the containers around it leave.
-/
import PhpNames.Json.Document

namespace PhpNames.Json

/-! ## §1. Nesting. -/

mutual

/-- How many arrays and objects stand inside of one another. -/
def Value.nesting : Value → Nat
  | .arr vs => itemsNesting vs + 1
  | .obj ms => membersNesting ms + 1
  | _ => 0

/-- The nesting of the deepest item. -/
def itemsNesting : List Value → Nat
  | [] => 0
  | v :: vs => max v.nesting (itemsNesting vs)

/-- The nesting of the deepest member. -/
def membersNesting : List (String × Value) → Nat
  | [] => 0
  | (_, v) :: ms => max v.nesting (membersNesting ms)

end

/-- Items are nested as deep as the deepest of them. -/
theorem itemsNesting_le {vs : List Value} {n : Nat} (h : ∀ v ∈ vs, v.nesting ≤ n) :
    itemsNesting vs ≤ n := by
  induction vs with
  | nil => exact Nat.zero_le n
  | cons v vs ih =>
    exact Nat.max_le.mpr ⟨h v List.mem_cons_self, ih fun w hw => h w (List.mem_cons_of_mem v hw)⟩

/-- No item is nested deeper than the items. -/
theorem nesting_le_itemsNesting {v : Value} {vs : List Value} (h : v ∈ vs) :
    v.nesting ≤ itemsNesting vs := by
  induction h with
  | head vs => exact Nat.le_max_left v.nesting (itemsNesting vs)
  | tail w _ ih => exact Nat.le_trans ih (Nat.le_max_right w.nesting _)

/-- Members are nested as deep as the deepest of them. -/
theorem membersNesting_le {ms : List (String × Value)} {n : Nat}
    (h : ∀ m ∈ ms, m.2.nesting ≤ n) : membersNesting ms ≤ n := by
  induction ms with
  | nil => exact Nat.zero_le n
  | cons m ms ih =>
    exact Nat.max_le.mpr ⟨h m List.mem_cons_self, ih fun w hw => h w (List.mem_cons_of_mem m hw)⟩

/-- No member is nested deeper than the members. -/
theorem nesting_le_membersNesting {m : String × Value} {ms : List (String × Value)} (h : m ∈ ms) :
    m.2.nesting ≤ membersNesting ms := by
  induction h with
  | head ms => exact Nat.le_max_left m.2.nesting (membersNesting ms)
  | tail w _ ih => exact Nat.le_trans ih (Nat.le_max_right w.2.nesting _)

/-! ## §2. What containers hold. -/

/-- What can be read of the open container is nested no deeper than `n`. -/
def Frame.Within (n : Nat) : Frame → Prop
  | .array items => ∀ v, some v ∈ items → v.nesting ≤ n
  | .object ms => ∀ k v, (k, some v) ∈ ms → v.nesting ≤ n

/-- What can be read of the parts of the document is nested no deeper than `n`. -/
def Document.Within (n : Nat) : Document → Prop
  | .fields ms => ∀ k v, (k, some v) ∈ ms → v.nesting ≤ n
  | .value v => v.nesting ≤ n + 1

/-- Each open container has the room that the containers around it leave. -/
def FramesWithin : List Frame → Prop
  | [] => True
  | f :: rest => f.Within (maxNesting - (rest.length + 1)) ∧ FramesWithin rest

/-- What comes out of a list has been made of something in it. -/
theorem exists_of_mem_mapM {α β : Type} {f : α → Option β} {as : List α} {bs : List β}
    (h : as.mapM f = some bs) {b : β} (hb : b ∈ bs) : ∃ a ∈ as, f a = some b := by
  induction as generalizing bs with
  | nil =>
    cases h
    cases hb
  | cons a as ih =>
    rw [List.mapM_cons] at h
    obtain ⟨c, hc, h⟩ := Option.bind_eq_some_iff.mp h
    obtain ⟨cs, hcs, h⟩ := Option.bind_eq_some_iff.mp h
    cases h
    rcases List.mem_cons.mp hb with rfl | hb
    · exact ⟨a, List.mem_cons_self, hc⟩
    · obtain ⟨d, hd, hfd⟩ := ih hcs hb
      exact ⟨d, List.mem_cons_of_mem a hd, hfd⟩

/-- A container that is closed keeps the bound that it had while it was open. -/
theorem Frame.within_document? {f : Frame} {d : Document} {n : Nat} (hf : f.Within n)
    (h : f.document? = some d) : d.Within n := by
  cases f with
  | array items =>
    obtain ⟨vs, hvs, rfl⟩ := Option.map_eq_some_iff.mp h
    refine Nat.succ_le_succ (itemsNesting_le fun v hv => ?_)
    obtain ⟨item, hitem, rfl⟩ := exists_of_mem_mapM hvs hv
    exact hf v (List.mem_reverse.mp hitem)
  | object members =>
    obtain ⟨ms, hms, rfl⟩ := Option.map_eq_some_iff.mp h
    intro k v hkv
    obtain ⟨⟨key, w⟩, hm, hkeyed⟩ := exists_of_mem_mapM hms hkv
    obtain ⟨k, -, hpair⟩ := Option.map_eq_some_iff.mp hkeyed
    cases hpair
    exact hf key v (List.mem_reverse.mp hm)

/-- The value of a document is one deeper than its parts. -/
theorem Document.nesting_value? {d : Document} {v : Value} {n : Nat} (hd : d.Within n)
    (h : d.value? = some v) : v.nesting ≤ n + 1 := by
  cases d with
  | fields members =>
    obtain ⟨ms, hms, rfl⟩ := Option.map_eq_some_iff.mp h
    refine Nat.succ_le_succ (membersNesting_le fun m hm => ?_)
    obtain ⟨⟨k, v⟩, hkv, hvalued⟩ := exists_of_mem_mapM hms hm
    obtain ⟨v, rfl, rfl⟩ := Option.map_eq_some_iff.mp hvalued
    exact hd k v hkv
  | value w =>
    cases h
    exact hd

/-! ## §3. The invariant of an assembly. -/

/-- Open containers have the room that is left to them, and so has a whole document. -/
structure Assembly.Within (a : Assembly) : Prop where
  frames : FramesWithin a.frames
  done : ∀ d, a.due = .done d → d.Within (maxNesting - 1)

namespace Assembly

/-- A value that fits into the place where it is due. -/
theorem within_deliver {frames : List Frame} {v : Option Value} {a : Assembly}
    (hframes : FramesWithin frames)
    (hv : ∀ w, v = some w → w.nesting ≤ maxNesting - frames.length)
    (h : deliver frames v = some a) : a.Within := by
  -- the value is the document, an item, or what the last key has been waiting for
  match frames with
  | [] =>
    obtain ⟨w, rfl, rfl⟩ := Option.map_eq_some_iff.mp h
    refine ⟨trivial, fun d hd => ?_⟩
    cases hd
    exact hv w rfl
  | .array items :: rest =>
    cases h
    refine ⟨⟨fun w hw => ?_, hframes.2⟩, fun d hd => nomatch hd⟩
    rcases List.mem_cons.mp hw with hw | hw
    · exact hv w hw.symm
    · exact hframes.1 w hw
  | .object ((key, old) :: ms) :: rest =>
    cases h
    refine ⟨⟨fun k w hw => ?_, hframes.2⟩, fun d hd => nomatch hd⟩
    rcases List.mem_cons.mp hw with hw | hw
    · exact hv w (congrArg Prod.snd hw).symm
    · exact hframes.1 k w (List.mem_cons_of_mem _ hw)
  | .object [] :: rest => cases h

/-- A container is closed only where there is room for it. -/
theorem within_close {b : Bracket} {frames : List Frame} {a : Assembly}
    (hframes : FramesWithin frames) (h : close b frames = some a) : a.Within := by
  match frames with
  | [] => cases h
  | f :: rest =>
    unfold close at h
    dsimp only at h
    split at h
    · cases h
    · -- the outermost container is the document; any other is a value of the one around it
      split at h
      next hrest =>
        obtain rfl := List.isEmpty_iff.mp hrest
        obtain ⟨d, hd, rfl⟩ := Option.map_eq_some_iff.mp h
        refine ⟨trivial, fun e he => ?_⟩
        cases he
        exact f.within_document? hframes.1 hd
      next =>
        refine within_deliver hframes.2 (fun w hw => ?_) h
        split at hw
        -- there is room for the container only if it is read at all
        next hroom =>
          obtain ⟨d, hd, hvalue⟩ := Option.bind_eq_some_iff.mp hw
          have hle := d.nesting_value? (f.within_document? hframes.1 hd) hvalue
          omega
        next => cases hw

/-- A scalar fits everywhere. -/
theorem within_scalar {frames : List Frame} {v : Option Value} {a : Assembly}
    (hframes : FramesWithin frames) (hv : ∀ w, v = some w → w.nesting = 0)
    (h : deliver frames v = some a) : a.Within :=
  within_deliver hframes (fun w hw => (hv w hw).symm ▸ Nat.zero_le _) h

/-- One token keeps the invariant. -/
theorem within_step {a b : Assembly} {t : Token} (ha : a.Within) (h : a.step t = some b) :
    b.Within := by
  obtain ⟨frames, due⟩ := a
  have hframes : FramesWithin frames := ha.frames
  unfold step at h
  split at h
  · cases h
    exact ⟨⟨fun v hv => absurd hv List.not_mem_nil, hframes⟩, fun d hd => nomatch hd⟩
  · cases h
    exact ⟨⟨fun k v hv => absurd hv List.not_mem_nil, hframes⟩, fun d hd => nomatch hd⟩
  · -- a closing bracket, after a value or after nothing
    exact within_close hframes h
  · exact within_close hframes h
  · exact within_close hframes h
  · -- words, numbers and texts have no nesting of their own
    exact within_scalar hframes (fun w hw => by cases hw; rfl) h
  · exact within_scalar hframes (fun w hw => by cases hw; rfl) h
  · refine within_scalar hframes (fun w hw => ?_) h
    obtain ⟨n, -, rfl⟩ := Option.map_eq_some_iff.mp hw
    rfl
  · refine within_scalar hframes (fun w hw => ?_) h
    obtain ⟨s, -, rfl⟩ := Option.map_eq_some_iff.mp hw
    rfl
  · -- a key: the member has no value yet
    dsimp only at h
    split at h
    · cases h
      refine ⟨⟨fun k v hv => ?_, hframes.2⟩, fun d hd => nomatch hd⟩
      rcases List.mem_cons.mp hv with hv | hv
      · cases hv
      · exact hframes.1 k v hv
    · cases h
  · cases h
    exact ⟨hframes, fun d hd => nomatch hd⟩
  · dsimp only at h
    split at h
    · cases h
      exact ⟨hframes, fun d hd => nomatch hd⟩
    · cases h
      exact ⟨hframes, fun d hd => nomatch hd⟩
    · cases h
  · cases h

/-- So does a whole run. -/
theorem within_foldlM {ts : List Token} {a b : Assembly} (ha : a.Within)
    (h : ts.foldlM step a = some b) : b.Within := by
  induction ts generalizing a with
  | nil =>
    cases h
    exact ha
  | cons t ts ih =>
    obtain ⟨c, hc, h⟩ := Option.bind_eq_some_iff.mp h
    exact ih (within_step ha hc) h

end Assembly

/-! ## §4. Documents. -/

/-- What has been read of a text fits below the outermost container. -/
theorem Document.within_parse? {t : String} {d : Document} (h : Document.parse? t = some d) :
    d.Within (maxNesting - 1) := by
  obtain ⟨ts, -, h⟩ := Option.bind_eq_some_iff.mp h
  obtain ⟨a, hrun, h⟩ := Option.bind_eq_some_iff.mp h
  have hstart : Assembly.start.Within := ⟨trivial, fun d hd => nomatch hd⟩
  have hdue : a.due = .done d := by
    unfold Assembly.document? at h
    split at h
    next hdue =>
      cases h
      exact hdue
    next => cases h
  exact (Assembly.within_foldlM hstart hrun).done d hdue

/-- **What is read of a text is nested no deeper than containers may be open at once**, whatever
    members of an object the reader looks at. -/
theorem nesting_le_of_select? {t : String} {d : Document} {names : List String} {v : Value}
    (hparse : Document.parse? t = some d) (h : d.select? names = some v) :
    v.nesting ≤ maxNesting := by
  have hd := Document.within_parse? hparse
  cases d with
  | fields ms =>
    have hselected : (Document.fields (ms.filter fun m => names.contains m.1)).Within
        (maxNesting - 1) := fun k v hkv => hd k v (List.mem_filter.mp hkv).1
    exact Document.nesting_value? hselected h
  | value w =>
    cases h
    exact hd

end PhpNames.Json
