/-
  PhpNames.Proofs.Json.Written — reading what has been written.

  The tokens of a value are put together again to the value, one container inside the other.  Two
  things may get in the way: a double whose digits are read as another double, or as none, and a
  container that is nested deeper than a reader goes.  Both are said of the value itself:

      parse? v.write   =   v.readBack?   if v.nesting ≤ maxNesting, and else nothing

  (`Value.parse?_write`).  At the top of a document the members of an object stand on their own
  (`Document.parse?_write`).
-/
import PhpNames.Proofs.Json.Nesting
import PhpNames.Proofs.Json.Tokens

namespace PhpNames.Json

/-! ## §1. Values as they come back. -/

/-- The value that the written form of a number is read as, if it is read as one. -/
def Number.readBack? (n : Number) : Option Value :=
  match n.token with
  | .number m => m.map .num
  | _ => some .null

mutual

/-- The value with each number as it comes back; none if a number does not come back. -/
def Value.readBack? : Value → Option Value
  | .num n => n.readBack?
  | .arr vs => (itemsReadBack? vs).map .arr
  | .obj ms => (membersReadBack? ms).map .obj
  | v => some v

/-- The items as they come back. -/
def itemsReadBack? : List Value → Option (List Value)
  | [] => some []
  | v :: vs => do return (← v.readBack?) :: (← itemsReadBack? vs)

/-- The members as they come back. -/
def membersReadBack? : List (String × Value) → Option (List (String × Value))
  | [] => some []
  | (k, v) :: ms => do return (k, ← v.readBack?) :: (← membersReadBack? ms)

end

/-- The value as it comes back from inside of `opened` containers. -/
def Value.readAt? (opened : Nat) (v : Value) : Option Value :=
  if v.nesting ≤ maxNesting - opened then v.readBack? else none

/-- The items as they come back from inside of `opened` containers. -/
def itemsReadAt? (opened : Nat) (vs : List Value) : Option (List Value) :=
  if itemsNesting vs ≤ maxNesting - opened then itemsReadBack? vs else none

/-- The members as they come back from inside of `opened` containers. -/
def membersReadAt? (opened : Nat) (ms : List (String × Value)) : Option (List (String × Value)) :=
  if membersNesting ms ≤ maxNesting - opened then membersReadBack? ms else none

/-- A member whose key is as it was, and whose value is as it comes back. -/
def memberReadAt? (opened : Nat) (m : String × Value) : String × Option Value :=
  (m.1, m.2.readAt? opened)

/-- Two parts are there if neither of them is too deep. -/
theorem ite_max_le {α β γ : Type} (f : α → β → γ) (x : Option α) (y : Option β) (a b n : Nat) :
    (if max a b ≤ n then x.bind fun u => y.bind fun w => some (f u w) else none) =
      (if a ≤ n then x else none).bind fun u =>
        (if b ≤ n then y else none).bind fun w => some (f u w) := by
  by_cases ha : a ≤ n
  · by_cases hb : b ≤ n
    · rw [if_pos ha, if_pos hb, if_pos (Nat.max_le.mpr ⟨ha, hb⟩)]
    · rw [if_pos ha, if_neg hb, if_neg (fun h => hb (Nat.max_le.mp h).2)]
      cases x <;> rfl
  · rw [if_neg ha, if_neg (fun h => ha (Nat.max_le.mp h).1)]
    rfl

/-- Items come back if each of them does. -/
theorem mapM_readAt? (opened : Nat) (vs : List Value) :
    (vs.map (Value.readAt? opened)).mapM id = itemsReadAt? opened vs := by
  induction vs with
  | nil => rfl
  | cons v vs ih =>
    rw [List.map_cons, List.mapM_cons, ih]
    exact (ite_max_le List.cons v.readBack? (itemsReadBack? vs) v.nesting (itemsNesting vs) _).symm

/-- Members come back if each of them does. -/
theorem mapM_valued?_readAt? (opened : Nat) (ms : List (String × Value)) :
    (ms.map (memberReadAt? opened)).mapM valued? = membersReadAt? opened ms := by
  induction ms with
  | nil => rfl
  | cons m ms ih =>
    obtain ⟨k, v⟩ := m
    have hsplit := ite_max_le (fun v ms => (k, v) :: ms) v.readBack? (membersReadBack? ms) v.nesting
      (membersNesting ms) (maxNesting - opened)
    rw [List.map_cons, List.mapM_cons, ih]
    refine Eq.trans ?_ hsplit.symm
    show ((v.readAt? opened).map fun v => (k, v)) >>= _ = (v.readAt? opened).bind _
    cases v.readAt? opened <;> rfl

/-- A container comes back if it may be opened and what it holds comes back from inside. -/
theorem ite_succ_le {α β : Type} (f : α → β) (x : Option α) (depth opened : Nat) :
    (if depth + 1 ≤ maxNesting - opened then x.map f else none) =
      if opened < maxNesting then (if depth ≤ maxNesting - (opened + 1) then x else none).map f
      else none := by
  by_cases hopened : opened < maxNesting
  · rw [if_pos hopened, apply_ite (Option.map f)]
    exact if_congr (by omega) rfl rfl
  · rw [if_neg hopened, if_neg (by omega)]

/-- An array is read if there is room for one more container and its items are read inside of it. -/
theorem Value.readAt?_arr (opened : Nat) (vs : List Value) :
    (Value.arr vs).readAt? opened =
      if opened < maxNesting then (itemsReadAt? (opened + 1) vs).map .arr else none :=
  ite_succ_le Value.arr (itemsReadBack? vs) (itemsNesting vs) opened

/-- An object is read if there is room for one more container and its members are read inside of it.
    -/
theorem Value.readAt?_obj (opened : Nat) (ms : List (String × Value)) :
    (Value.obj ms).readAt? opened =
      if opened < maxNesting then (membersReadAt? (opened + 1) ms).map .obj else none :=
  ite_succ_le Value.obj (membersReadBack? ms) (membersNesting ms) opened

/-! ## §2. Containers. -/

/-- The container of these items, when they have all been read. -/
def arrayFrame (opened : Nat) (vs : List Value) : Frame :=
  .array (vs.map (Value.readAt? opened)).reverse

/-- The container of these members, when they have all been read. -/
def objectFrame (opened : Nat) (ms : List (String × Value)) : Frame :=
  .object (ms.map fun m => (some m.1, m.2.readAt? opened)).reverse

/-- Closing an array gives its items, or nothing if one of them could not be read. -/
theorem document?_arrayFrame (opened : Nat) (vs : List Value) :
    (arrayFrame opened vs).document? = (itemsReadAt? opened vs).map fun vs => .value (.arr vs) := by
  unfold arrayFrame Frame.document?
  dsimp only
  rw [List.reverse_reverse, mapM_readAt?]

/-- Closing an object gives its members, those that could not be read among them. -/
theorem document?_objectFrame (opened : Nat) (ms : List (String × Value)) :
    (objectFrame opened ms).document? = some (.fields (ms.map (memberReadAt? opened))) := by
  have hkeyed : (ms.map fun m => (some m.1, m.2.readAt? opened)).mapM keyed? =
      some (ms.map (memberReadAt? opened)) := by
    induction ms with
    | nil => rfl
    | cons m ms ih =>
      rw [List.map_cons, List.mapM_cons, ih]
      rfl
  unfold objectFrame Frame.document?
  dsimp only
  rw [List.reverse_reverse, hkeyed]
  rfl

/-- A container inside of others comes back if it is not nested too deep. -/
theorem close_arrayFrame {rest : List Frame} (hrest : rest ≠ []) (vs : List Value) :
    Assembly.close .square (arrayFrame (rest.length + 1) vs :: rest) =
      Assembly.deliver rest ((Value.arr vs).readAt? rest.length) := by
  have hvalue : (arrayFrame (rest.length + 1) vs).value? =
      (itemsReadAt? (rest.length + 1) vs).map .arr := by
    unfold Frame.value?
    rw [document?_arrayFrame]
    cases itemsReadAt? (rest.length + 1) vs <;> rfl
  rw [Value.readAt?_arr, ← hvalue]
  unfold Assembly.close
  dsimp only
  rw [if_neg (by simp [arrayFrame, Frame.bracket]), if_neg (by simpa using hrest)]

/-- An object that is closed inside of another container is delivered there as a value. -/
theorem close_objectFrame {rest : List Frame} (hrest : rest ≠ []) (ms : List (String × Value)) :
    Assembly.close .curly (objectFrame (rest.length + 1) ms :: rest) =
      Assembly.deliver rest ((Value.obj ms).readAt? rest.length) := by
  have hvalue : (objectFrame (rest.length + 1) ms).value? =
      (membersReadAt? (rest.length + 1) ms).map .obj := by
    unfold Frame.value?
    rw [document?_objectFrame, ← mapM_valued?_readAt?]
    rfl
  rw [Value.readAt?_obj, ← hvalue]
  unfold Assembly.close
  dsimp only
  rw [if_neg (by simp [objectFrame, Frame.bracket]), if_neg (by simpa using hrest)]

/-! ## §3. Putting the tokens together (the crux). -/

/-- A value that is no container takes no room. -/
theorem Value.readAt?_of_nesting_eq_zero {v : Value} (h : v.nesting = 0) (opened : Nat) :
    v.readAt? opened = v.readBack? := by
  unfold readAt?
  rw [if_pos (by omega)]

/-- The token of a number delivers the number as it comes back. -/
theorem step_numberToken (n : Number) (frames : List Frame) (m : Bool) :
    Assembly.step ⟨frames, .value m⟩ n.token =
      Assembly.deliver frames ((Value.num n).readAt? frames.length) := by
  rw [Value.readAt?_of_nesting_eq_zero rfl]
  show _ = Assembly.deliver frames n.readBack?
  unfold Number.readBack? Number.token
  cases Literal.ofChars? n.chars <;> rfl

/-- A run over tokens and one more. -/
theorem foldlM_append_singleton (ts : List Token) (t : Token) (a : Assembly) :
    (ts ++ [t]).foldlM Assembly.step a = (ts.foldlM Assembly.step a).bind (Assembly.step · t) := by
  rw [List.foldlM_append]
  congr 1
  funext b
  exact Option.bind_fun_some (b.step t)

/-- An array is opened, filled with its items and closed. -/
theorem foldlM_arr {vs : List Value} {rest : List Frame} (m : Bool)
    (hitems : vs ≠ [] → ((itemTokens vs).map Token.readBack).foldlM Assembly.step
      ⟨.array [] :: rest, .value true⟩ = some ⟨arrayFrame (rest.length + 1) vs :: rest, .next⟩) :
    ((Value.arr vs).tokens.map Token.readBack).foldlM Assembly.step ⟨rest, .value m⟩ =
      Assembly.close .square (arrayFrame (rest.length + 1) vs :: rest) := by
  unfold Value.tokens
  rw [List.map_cons, List.map_append, List.foldlM_cons]
  show ((itemTokens vs).map Token.readBack ++ [Token.closing .square]).foldlM Assembly.step
    ⟨.array [] :: rest, .value true⟩ = _
  rw [foldlM_append_singleton]
  cases vs with
  | nil => rfl
  | cons v vs =>
    rw [hitems (List.cons_ne_nil v vs)]
    rfl

/-- An object is opened, filled with its members and closed. -/
theorem foldlM_obj {ms : List (String × Value)} {rest : List Frame} (m : Bool)
    (hmembers : ms ≠ [] → ((memberTokens ms).map Token.readBack).foldlM Assembly.step
      ⟨.object [] :: rest, .key true⟩ = some ⟨objectFrame (rest.length + 1) ms :: rest, .next⟩) :
    ((Value.obj ms).tokens.map Token.readBack).foldlM Assembly.step ⟨rest, .value m⟩ =
      Assembly.close .curly (objectFrame (rest.length + 1) ms :: rest) := by
  unfold Value.tokens
  rw [List.map_cons, List.map_append, List.foldlM_cons]
  show ((memberTokens ms).map Token.readBack ++ [Token.closing .curly]).foldlM Assembly.step
    ⟨.object [] :: rest, .key true⟩ = _
  rw [foldlM_append_singleton]
  cases ms with
  | nil => rfl
  | cons n ms =>
    rw [hmembers (List.cons_ne_nil n ms)]
    rfl

mutual

/-- Inside of a container, the tokens of a value deliver the value as it comes back. -/
theorem foldlM_tokens (v : Value) (frames : List Frame) (hframes : frames ≠ []) (m : Bool) :
    (v.tokens.map Token.readBack).foldlM Assembly.step ⟨frames, .value m⟩ =
      Assembly.deliver frames (v.readAt? frames.length) :=
  match v with
  | .null => by
    rw [Value.readAt?_of_nesting_eq_zero rfl]
    exact foldlM_append_singleton [] .null _
  | .bool b => by
    rw [Value.readAt?_of_nesting_eq_zero rfl]
    exact foldlM_append_singleton [] (.bool b) _
  | .num n => by
    rw [← step_numberToken n frames m]
    exact foldlM_append_singleton [] n.token _
  | .str s => by
    rw [Value.readAt?_of_nesting_eq_zero rfl]
    exact foldlM_append_singleton [] (.text (some s)) _
  -- a container is assembled inside a frame of its own, which closing it removes
  | .arr vs => by
    rw [← close_arrayFrame hframes vs]
    apply foldlM_arr
    intro hvs
    rw [foldlM_itemTokens vs hvs [] frames true, List.append_nil]
    rfl
  | .obj ms => by
    rw [← close_objectFrame hframes ms]
    apply foldlM_obj
    intro hms
    rw [foldlM_memberTokens ms hms [] frames true, List.append_nil]
    rfl
termination_by structural v

/-- The tokens of items go into the array that is open. -/
theorem foldlM_itemTokens (vs : List Value) (hvs : vs ≠ []) (done : List (Option Value))
    (rest : List Frame) (m : Bool) :
    ((itemTokens vs).map Token.readBack).foldlM Assembly.step ⟨.array done :: rest, .value m⟩ =
      some ⟨.array ((vs.map (Value.readAt? (rest.length + 1))).reverse ++ done) :: rest, .next⟩ :=
  match vs with
  | [] => absurd rfl hvs
  | [v] => foldlM_tokens v (.array done :: rest) (List.cons_ne_nil _ _) m
  | v :: w :: vs => by
    unfold itemTokens
    rw [List.map_append, List.map_cons, List.foldlM_append,
      foldlM_tokens v (.array done :: rest) (List.cons_ne_nil _ _) m]
    -- the comma has been passed, so an item must follow
    show (((itemTokens (w :: vs)).map Token.readBack).foldlM Assembly.step
      ⟨.array (v.readAt? (rest.length + 1) :: done) :: rest, .value false⟩) = _
    rw [foldlM_itemTokens (w :: vs) (List.cons_ne_nil w vs) _ rest false, List.map_cons (a := v),
      List.reverse_cons, List.append_assoc]
    rfl
termination_by structural vs

/-- The tokens of members go into the object that is open. -/
theorem foldlM_memberTokens (ms : List (String × Value)) (hms : ms ≠ [])
    (done : List (Option String × Option Value)) (rest : List Frame) (m : Bool) :
    ((memberTokens ms).map Token.readBack).foldlM Assembly.step ⟨.object done :: rest, .key m⟩ =
      some ⟨.object ((ms.map fun m => (some m.1, m.2.readAt? (rest.length + 1))).reverse ++ done)
        :: rest, .next⟩ :=
  match ms with
  | [] => absurd rfl hms
  | [(k, v)] => by
    unfold memberTokens
    rw [List.map_cons, List.map_cons, List.foldlM_cons]
    show ((v.tokens.map Token.readBack).foldlM Assembly.step
      ⟨.object ((some k, none) :: done) :: rest, .value false⟩) = _
    exact foldlM_tokens v _ (List.cons_ne_nil _ _) false
  | (k, v) :: n :: ms => by
    unfold memberTokens
    rw [List.map_cons, List.map_cons, List.map_append, List.map_cons, List.foldlM_cons]
    -- the key is in place and waits for its value
    show ((v.tokens.map Token.readBack ++ Token.comma :: (memberTokens (n :: ms)).map Token.readBack
      ).foldlM Assembly.step ⟨.object ((some k, none) :: done) :: rest, .value false⟩) = _
    rw [List.foldlM_append, foldlM_tokens v _ (List.cons_ne_nil _ _) false]
    show (((memberTokens (n :: ms)).map Token.readBack).foldlM Assembly.step
      ⟨.object ((some k, v.readAt? (rest.length + 1)) :: done) :: rest, .key false⟩) = _
    rw [foldlM_memberTokens (n :: ms) (List.cons_ne_nil n ms) _ rest false, List.map_cons (a := (k, v)),
      List.reverse_cons, List.append_assoc]
    rfl
termination_by structural ms

end

/-! ## §4. Documents. -/

/-- The document that the written form of a value is read as. -/
def Value.document? : Value → Option Document
  | .obj ms => some (.fields (ms.map (memberReadAt? 1)))
  | v => (v.readAt? 0).map .value

/-- At the top of a document nothing is too deep to be closed. -/
theorem foldlM_tokens_start (v : Value) :
    (v.tokens.map Token.readBack).foldlM Assembly.step Assembly.start =
      v.document?.map fun d => ⟨[], .done d⟩ := by
  cases v with
  | null => rfl
  | bool b => rfl
  | num n =>
    show (Assembly.step ⟨[], .value false⟩ n.token).bind pure = _
    rw [step_numberToken]
    show (((Value.num n).readAt? 0).map _).bind pure = ((((Value.num n).readAt? 0).map _).map _)
    cases (Value.num n).readAt? 0 <;> rfl
  | str s => rfl
  -- outside of all frames a container becomes the document when it is closed
  | arr vs =>
    have hclose : Assembly.close .square [arrayFrame 1 vs] =
        (Value.arr vs).document?.map fun d => ⟨[], .done d⟩ := by
      show (arrayFrame 1 vs).document?.map _ = (((Value.arr vs).readAt? 0).map _).map _
      rw [document?_arrayFrame, Value.readAt?_arr, if_pos (by decide)]
      cases itemsReadAt? 1 vs <;> rfl
    rw [← hclose]
    apply foldlM_arr
    intro hvs
    rw [foldlM_itemTokens vs hvs [] [] true, List.append_nil]
    rfl
  | obj ms =>
    have hclose : Assembly.close .curly [objectFrame 1 ms] =
        (Value.obj ms).document?.map fun d => ⟨[], .done d⟩ := by
      show (objectFrame 1 ms).document?.map _ = _
      rw [document?_objectFrame]
      rfl
    rw [← hclose]
    apply foldlM_obj
    intro hms
    rw [foldlM_memberTokens ms hms [] [] true, List.append_nil]
    rfl

/-- **Written values are read**, each number and each depth as it comes back. -/
theorem Document.parse?_write (v : Value) : Document.parse? v.write = v.document? := by
  unfold Document.parse? Document.ofTokens?
  rw [scan?_write, Option.bind_eq_bind, Option.bind_some, foldlM_tokens_start]
  cases v.document? <;> rfl

/-- A written value is read as a value if it is not nested too deep and its numbers come back. -/
theorem Value.parse?_write (v : Value) : Value.parse? v.write = v.readAt? 0 := by
  have hvalue (o : Option Value) : (o.map Document.value).bind Document.value? = o := by
    cases o <;> rfl
  unfold Value.parse?
  rw [Document.parse?_write]
  cases v with
  | obj ms =>
    rw [Value.readAt?_obj, if_pos (by decide), ← mapM_valued?_readAt?]
    rfl
  | _ =>
    unfold Value.document?
    exact hvalue _

/-- A reader who looks at all members of a written object sees all of it. -/
theorem Value.select?_document? {names : List String} {ms : List (String × Value)}
    (h : ∀ m ∈ ms, names.contains m.1 = true) :
    (Value.obj ms).document?.bind (Document.select? names) = (Value.obj ms).readAt? 0 := by
  have hall : (ms.map (memberReadAt? 1)).filter (fun m => names.contains m.1) =
      ms.map (memberReadAt? 1) := by
    refine List.filter_eq_self.mpr fun read hread => ?_
    obtain ⟨m, hm, rfl⟩ := List.mem_map.mp hread
    exact h m hm
  show (((ms.map (memberReadAt? 1)).filter _).mapM valued?).map Value.obj = _
  rw [hall, mapM_valued?_readAt?, Value.readAt?_obj, if_pos (by decide)]

/-- A number that is a whole document is read back as any other. -/
theorem Value.parse?_write_num (n : Number) : Value.parse? (Value.num n).write = n.readBack? := by
  rw [Value.parse?_write, Value.readAt?_of_nesting_eq_zero rfl]
  rfl

/-- An integer in the range of the words comes back. -/
theorem Number.readBack?_int {i : Int} (hlow : -(signedBound : Int) ≤ i)
    (hhigh : i < unsignedBound) : (Number.int i).readBack? = some (.num (.int i)) := by
  have hchars : (intForm i).chars = (Number.int i).chars := chars_intForm i
  unfold readBack?
  rw [token_of_form (valid_intForm i) hchars, intForm_number? hlow hhigh]
  rfl

/-- A double comes back as a double, if it comes back as a number. -/
theorem Number.readBack?_float (f : Float) {v : Value} (h : (Number.float f).readBack? = some v) :
    v = .null ∨ ∃ g, v = .num (.float g) := by
  by_cases hfinite : f.isFinite = true
  · obtain ⟨w, hw, hsome, hchars⟩ := exists_form_float hfinite
    unfold readBack? at h
    rw [token_of_form hw hchars, Form.number?_of_isSome hsome] at h
    dsimp only at h
    rw [Option.map_map] at h
    obtain ⟨g, -, rfl⟩ := Option.map_eq_some_iff.mp h
    exact Or.inr ⟨g, rfl⟩
  · unfold readBack? at h
    rw [(token_float hfinite).2] at h
    exact Or.inl (Option.some.inj h).symm

end PhpNames.Json
