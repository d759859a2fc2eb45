/-
  PhpNames.Proofs.Json.Tokens — the written form of a value is scanned as its tokens.

  Numbers and words have no end of their own; they end where a mark follows, that is a bracket, a
  comma or a colon.  Between two of them a written value always has a mark, so what is scanned may
  be joined there (`Reads.join`), and the walk over a value only joins (`reads_tokens`).

    • A text is scanned as itself: each escaped character is one piece, and the pieces stand for
      the characters (`reads_quote`).
    • A number is scanned as the token of its literal, and as null where it has none
      (`reads_number`).
-/
import PhpNames.Proofs.Json.Literals

namespace PhpNames.Json

/-! ## §1. What has been scanned. -/

/-- A scanner that has read the tokens `out`, the last one first.  The last one may be a number or
    a word to which more might still belong. -/
inductive Scanner.Holds : Scanner → List Token → Prop where
  | between (out : List Token) : Holds ⟨.between, out⟩ out
  | number {done : List Char} {t : Token} {out : List Token} (h : numberToken? done = some t) :
    Holds ⟨.number done, out⟩ (t :: out)
  | word {done : List Char} {t : Token} {out : List Token} (h : wordToken? done = some t) :
    Holds ⟨.word done, out⟩ (t :: out)

/-- The end of the text completes what is open. -/
theorem Scanner.Holds.finish {s : Scanner} {out : List Token} (h : s.Holds out) :
    s.finish = some out.reverse := by
  cases h with
  | between => rfl
  | @number done t out h =>
    show (numberToken? done).map (fun t => (t :: out).reverse) = _
    rw [h]
    rfl
  | @word done t out h =>
    show (wordToken? done).map (fun t => (t :: out).reverse) = _
    rw [h]
    rfl

/-- From between two tokens, the characters are scanned as the tokens. -/
def Reads (cs : List Char) (ts : List Token) : Prop :=
  ∀ out, ∃ s, cs.foldlM Scanner.step ⟨.between, out⟩ = some s ∧ s.Holds (ts.reverse ++ out)

/-- The character is a token by itself, and ends a number or a word. -/
structure IsMark (c : Char) (t : Token) : Prop where
  notNumber : isNumberChar c = false
  notLower : c.isLower = false
  start : ∀ out, startToken? out c = some ⟨.between, t :: out⟩

theorem isMark_openSquare : IsMark '[' (.opening .square) := ⟨rfl, rfl, fun _ => rfl⟩
theorem isMark_closeSquare : IsMark ']' (.closing .square) := ⟨rfl, rfl, fun _ => rfl⟩
theorem isMark_openCurly : IsMark '\x7b' (.opening .curly) := ⟨rfl, rfl, fun _ => rfl⟩
theorem isMark_closeCurly : IsMark '\x7d' (.closing .curly) := ⟨rfl, rfl, fun _ => rfl⟩
theorem isMark_comma : IsMark ',' .comma := ⟨rfl, rfl, fun _ => rfl⟩
theorem isMark_colon : IsMark ':' .colon := ⟨rfl, rfl, fun _ => rfl⟩

/-- A mark completes what is open, and is read itself. -/
theorem Scanner.Holds.step_mark {s : Scanner} {out : List Token} (h : s.Holds out) {c : Char}
    {t : Token} (hc : IsMark c t) : s.step c = some ⟨.between, t :: out⟩ := by
  cases h with
  | between => exact hc.start out
  | @number done u out h =>
    show (if isNumberChar c then _ else (numberToken? done).bind fun u => startToken? (u :: out) c) = _
    rw [hc.notNumber, h]
    exact hc.start (u :: out)
  | @word done u out h =>
    show (if c.isLower then _ else (wordToken? done).bind fun u => startToken? (u :: out) c) = _
    rw [hc.notLower, h]
    exact hc.start (u :: out)

theorem reads_nil : Reads [] [] := fun out => ⟨_, rfl, .between out⟩

/-- What is scanned may be joined at a mark. -/
theorem Reads.join {cs ds : List Char} {ts us : List Token} {c : Char} {t : Token}
    (hcs : Reads cs ts) (hc : IsMark c t) (hds : Reads ds us) :
    Reads (cs ++ c :: ds) (ts ++ t :: us) := by
  intro out
  obtain ⟨s, hs, hholds⟩ := hcs out
  obtain ⟨s', hs', hholds'⟩ := hds (t :: (ts.reverse ++ out))
  refine ⟨s', ?_, ?_⟩
  · rw [List.foldlM_append, hs, Option.bind_eq_bind, Option.bind_some, List.foldlM_cons,
      hholds.step_mark hc, Option.bind_eq_bind, Option.bind_some]
    exact hs'
  · have htokens : (ts ++ t :: us).reverse ++ out =
        us.reverse ++ t :: (ts.reverse ++ out) := by simp
    rw [htokens]
    exact hholds'

/-- Characters that are scanned as tokens between others are scanned so by themselves. -/
theorem scan?_of_reads {cs : List Char} {ts : List Token} (h : Reads cs ts) :
    scan? cs = some ts := by
  obtain ⟨s, hs, hholds⟩ := h []
  unfold scan?
  rw [hs, Option.bind_eq_bind, Option.bind_some, hholds.finish, List.append_nil, List.reverse_reverse]

/-! ## §2. Texts. -/

/-- The piece is the character, or its number if that is no number of a surrogate. -/
def Piece.StandsFor : Piece → Char → Prop
  | .char d, c => d = c
  | .unit n, c => n = c.toNat ∧ n < 0x20

/-- A digit of base 16 is read as its value. -/
theorem hexValue?_hexDigit : ∀ n < 16, hexValue? (hexDigit n) = some n := by decide

/-- The four digits of a small number are read as the number. -/
theorem foldlM_hexDigits (n : Nat) (hn : n < 0x20) (done : List Piece) (out : List Token) :
    ['0', '0', hexDigit (n / 16), hexDigit (n % 16)].foldlM Scanner.step ⟨.hex done [], out⟩ =
      some ⟨.quoted (.unit n :: done), out⟩ := by
  have hhigh : hexValue? (hexDigit (n / 16)) = some (n / 16) := hexValue?_hexDigit _ (by omega)
  have hlow : hexValue? (hexDigit (n % 16)) = some (n % 16) := hexValue?_hexDigit _ (by omega)
  have hzero : hexValue? '0' = some 0 := rfl
  have hvalue : ((0 * 16 + 0) * 16 + n / 16) * 16 + n % 16 = n := by omega
  simp only [List.foldlM_cons, List.foldlM_nil, Scanner.step, hzero, hhigh, hlow,
    Option.bind_eq_bind, Option.bind_some, List.nil_append, List.cons_append, Option.pure_def,
    hvalue]

/-- A written character is read as one piece, which stands for it. -/
theorem foldlM_escape (c : Char) (done : List Piece) (out : List Token) :
    ∃ p : Piece, p.StandsFor c ∧
      (escape c).foldlM Scanner.step ⟨.quoted done, out⟩ = some ⟨.quoted (p :: done), out⟩ := by
  unfold escape
  -- the quote, the backslash and five control characters have an escape of two characters
  iterate 7
    split
    · next h =>
      subst h
      exact ⟨.char _, rfl, rfl⟩
  split
  · next hcontrol => exact ⟨.unit c.toNat, ⟨rfl, hcontrol⟩, foldlM_hexDigits c.toNat hcontrol done out⟩
  · next hquote hslash _ _ _ _ _ hprintable =>
    refine ⟨.char c, rfl, ?_⟩
    show (Scanner.step ⟨.quoted done, out⟩ c).bind some = _
    simp only [Scanner.step, if_neg hquote, if_neg hslash, if_neg hprintable, Option.bind_some]

/-- Escaped characters are scanned as pieces that stand for them, behind those that are there
    already. -/
theorem foldlM_flatMap_escape (cs : List Char) (done : List Piece) (out : List Token) :
    ∃ ps : List Piece, List.Forall₂ Piece.StandsFor ps cs ∧
      (cs.flatMap escape).foldlM Scanner.step ⟨.quoted done, out⟩ =
        some ⟨.quoted (ps.reverse ++ done), out⟩ := by
  induction cs generalizing done with
  | nil => exact ⟨[], .nil, rfl⟩
  | cons c cs ih =>
    obtain ⟨p, hp, hstep⟩ := foldlM_escape c done out
    obtain ⟨ps, hps, hrest⟩ := ih (p :: done)
    refine ⟨p :: ps, .cons hp hps, ?_⟩
    rw [List.flatMap_cons, List.foldlM_append, hstep, Option.bind_eq_bind, Option.bind_some, hrest,
      List.reverse_cons, List.append_assoc]
    rfl

/-- A number that is no surrogate is a character by itself, whatever comes after it. -/
theorem decodePieces?_unit (n : Nat) (hn : n < 0x20) (ps : List Piece) :
    decodePieces? (.unit n :: ps) = (decodePieces? ps).map (Char.ofNat n :: ·) := by
  have hhigh : isHighSurrogate n = false := by
    unfold isHighSurrogate
    rw [decide_eq_false (by omega), Bool.false_and]
  have hlow : isLowSurrogate n = false := by
    unfold isLowSurrogate
    rw [decide_eq_false (by omega), Bool.false_and]
  -- a control character is no half of a pair, so what follows is not looked at
  cases ps with
  | nil => simp [decodePieces?, hhigh, hlow]
  | cons p ps =>
    cases p with
    | char c => simp [decodePieces?, hhigh, hlow, Option.map_map, Function.comp_def]
    | unit m => simp [decodePieces?, hhigh, hlow]

/-- Pieces that stand for characters are decoded as these. -/
theorem decodePieces?_of_standsFor {ps : List Piece} {cs : List Char}
    (h : List.Forall₂ Piece.StandsFor ps cs) : decodePieces? ps = some cs := by
  induction h with
  | nil => rfl
  | @cons p c ps cs hp _ ih =>
    cases p with
    | char d =>
      obtain rfl : d = c := hp
      show (decodePieces? ps).map (d :: ·) = _
      rw [ih]
      rfl
    | unit n =>
      obtain ⟨rfl, hn⟩ : n = c.toNat ∧ n < 0x20 := hp
      rw [decodePieces?_unit _ hn, ih, Char.ofNat_toNat]
      rfl

/-- A quoted text is scanned as the text. -/
theorem reads_quote (s : String) : Reads (quote s) [.text (some s)] := by
  intro out
  obtain ⟨ps, hps, hscan⟩ := foldlM_flatMap_escape s.toList [] out
  have htoken : textToken (ps.reverse ++ []) = .text (some s) := by
    unfold textToken
    rw [List.append_nil, List.reverse_reverse, decodePieces?_of_standsFor hps, Option.map_some,
      String.ofList_toList]
  refine ⟨⟨.between, .text (some s) :: out⟩, ?_, .between _⟩
  unfold quote
  rw [List.foldlM_cons]
  show (s.toList.flatMap escape ++ ['"']).foldlM Scanner.step ⟨.quoted [], out⟩ = _
  rw [List.foldlM_append, hscan, Option.bind_eq_bind, Option.bind_some]
  -- the closing mark turns the pieces into one token
  show some (⟨.between, textToken (ps.reverse ++ []) :: out⟩ : Scanner) = _
  rw [htoken]

/-! ## §3. Numbers. -/

/-- The token that the written form of a number is scanned as. -/
def Number.token (n : Number) : Token :=
  match Literal.ofChars? n.chars with
  | some l => .number l.number?
  | none => .null

/-- Characters of a number are gathered as long as no other comes. -/
theorem foldlM_numberChars {cs : List Char} (h : ∀ c ∈ cs, isNumberChar c = true)
    (done : List Char) (out : List Token) :
    cs.foldlM Scanner.step ⟨.number done, out⟩ = some ⟨.number (cs.reverse ++ done), out⟩ := by
  induction cs generalizing done with
  | nil => rfl
  | cons c cs ih =>
    have hc : isNumberChar c = true := h c List.mem_cons_self
    rw [List.foldlM_cons]
    show ((if isNumberChar c then some (⟨.number (c :: done), out⟩ : Scanner) else _) >>= _) = _
    rw [if_pos hc, Option.bind_eq_bind, Option.bind_some,
      ih (fun d hd => h d (List.mem_cons_of_mem c hd)), List.reverse_cons, List.append_assoc]
    rfl

/-- A digit or a minus sign between two tokens starts a number. -/
theorem startToken?_number {c : Char} (h : c.isDigit = true ∨ c = '-') (out : List Token) :
    startToken? out c = some ⟨.number [c], out⟩ := by
  have hne : ∀ d : Char, d.isDigit = false → d ≠ '-' → c ≠ d := by
    rintro d hd hminus rfl
    rcases h with h | h
    · rw [hd] at h
      cases h
    · exact hminus h
  have hstart : (c.isDigit || c == '-') = true := by
    rcases h with h | rfl
    · rw [h, Bool.true_or]
    · rfl
  have hblank : isJsonBlank c = false := by
    unfold isJsonBlank
    simp [hne ' ' rfl (by decide), hne '\t' rfl (by decide), hne '\n' rfl (by decide),
      hne '\r' rfl (by decide)]
  -- so all the tests before the one for numbers fail
  unfold startToken?
  rw [hblank, if_neg (by decide), if_neg (hne '[' rfl (by decide)),
    if_neg (hne ']' rfl (by decide)), if_neg (hne '\x7b' rfl (by decide)),
    if_neg (hne '\x7d' rfl (by decide)), if_neg (hne ',' rfl (by decide)),
    if_neg (hne ':' rfl (by decide)), if_neg (hne '"' rfl (by decide)), if_pos hstart]

/-- The characters of a literal are scanned as its number. -/
theorem Form.reads {w : Form} (h : w.Valid) : Reads w.chars [.number w.literal.number?] := by
  intro out
  obtain ⟨c, cs, hchars, hc⟩ := w.exists_chars_eq_cons h
  have hall : ∀ d ∈ cs, isNumberChar d = true := by
    intro d hd
    exact w.isNumberChar_of_mem_chars h (by rw [hchars]; exact List.mem_cons_of_mem c hd)
  -- the first character opens a number, and no later one ends it
  refine ⟨⟨.number (cs.reverse ++ [c]), out⟩, ?_, .number ?_⟩
  · rw [hchars, List.foldlM_cons]
    show (startToken? out c >>= _) = _
    rw [startToken?_number hc, Option.bind_eq_bind, Option.bind_some]
    exact foldlM_numberChars hall [c] out
  · unfold numberToken?
    rw [List.reverse_append, List.reverse_reverse]
    show (Literal.ofChars? (c :: cs)).map _ = _
    rw [← hchars, w.ofChars?_chars h]
    rfl

/-- A number that is written as a literal has the token of that literal. -/
theorem Number.token_of_form {n : Number} {w : Form} (h : w.Valid) (hchars : w.chars = n.chars) :
    n.token = .number w.literal.number? := by
  unfold token
  rw [← hchars, w.ofChars?_chars h]

/-- A finite double is written as a literal, with a fraction or an exponent. -/
theorem Number.exists_form_float {f : Float} (h : f.isFinite = true) :
    ∃ w : Form, w.Valid ∧ (w.fraction.isSome || w.exponent.isSome) = true ∧
      w.chars = (Number.float f).chars := by
  obtain ⟨w, hw, hsome, hrender⟩ := exists_form_render f
  exact ⟨w, hw, hsome, hrender.trans (if_pos h).symm⟩

/-- A double that is not finite is written as null. -/
theorem Number.token_float {f : Float} (h : ¬ f.isFinite = true) :
    (Number.float f).chars = "null".toList ∧ (Number.float f).token = .null := by
  have hchars : (Number.float f).chars = "null".toList := if_neg h
  refine ⟨hchars, ?_⟩
  unfold token
  rw [hchars]
  rfl

/-- A number is scanned as its token, and has no end of its own. -/
theorem reads_number (n : Number) : Reads n.chars [n.token] := by
  cases n with
  | int i =>
    have hchars : (intForm i).chars = (Number.int i).chars := chars_intForm i
    rw [Number.token_of_form (valid_intForm i) hchars, ← hchars]
    exact Form.reads (valid_intForm i)
  | float f =>
    -- what is no number is written as a word
    by_cases hfinite : f.isFinite = true
    · obtain ⟨w, hw, -, hchars⟩ := Number.exists_form_float hfinite
      rw [Number.token_of_form hw hchars, ← hchars]
      exact w.reads hw
    · obtain ⟨hchars, htoken⟩ := Number.token_float hfinite
      rw [htoken, hchars]
      exact fun out => ⟨⟨.word ['l', 'l', 'u', 'n'], out⟩, rfl, .word rfl⟩

/-! ## §4. Values. -/

/-- The token that the written form of a token is scanned as: only a number may change. -/
def Token.readBack : Token → Token
  | .number (some n) => n.token
  | t => t

mutual

/-- **Values are scanned as their tokens.** -/
theorem reads_tokens (v : Value) :
    Reads (v.tokens.flatMap Token.chars) (v.tokens.map Token.readBack) :=
  match v with
  | .null => fun out => ⟨⟨.word ['l', 'l', 'u', 'n'], out⟩, rfl, .word rfl⟩
  | .bool true => fun out => ⟨⟨.word ['e', 'u', 'r', 't'], out⟩, rfl, .word rfl⟩
  | .bool false => fun out => ⟨⟨.word ['e', 's', 'l', 'a', 'f'], out⟩, rfl, .word rfl⟩
  | .num n => by
    have h := reads_number n
    rw [← List.append_nil n.chars] at h
    exact h
  | .str s => by
    have h := reads_quote s
    rw [← List.append_nil (quote s)] at h
    exact h
  -- between the brackets, marks stand wherever a number or a word might end
  | .arr vs => by
    have h := reads_nil.join isMark_openSquare
      ((reads_itemTokens vs).join isMark_closeSquare reads_nil)
    unfold Value.tokens
    rw [List.flatMap_cons, List.flatMap_append, List.map_cons, List.map_append]
    exact h
  | .obj ms => by
    have h := reads_nil.join isMark_openCurly
      ((reads_memberTokens ms).join isMark_closeCurly reads_nil)
    unfold Value.tokens
    rw [List.flatMap_cons, List.flatMap_append, List.map_cons, List.map_append]
    exact h
termination_by structural v

theorem reads_itemTokens (vs : List Value) :
    Reads ((itemTokens vs).flatMap Token.chars) ((itemTokens vs).map Token.readBack) :=
  match vs with
  | [] => reads_nil
  | [v] => reads_tokens v
  | v :: w :: vs => by
    have h := (reads_tokens v).join isMark_comma (reads_itemTokens (w :: vs))
    unfold itemTokens
    rw [List.flatMap_append, List.flatMap_cons, List.map_append, List.map_cons]
    exact h
termination_by structural vs

theorem reads_memberTokens (ms : List (String × Value)) :
    Reads ((memberTokens ms).flatMap Token.chars) ((memberTokens ms).map Token.readBack) :=
  match ms with
  | [] => reads_nil
  | [(k, v)] => by
    have h := (reads_quote k).join isMark_colon (reads_tokens v)
    unfold memberTokens
    rw [List.flatMap_cons, List.flatMap_cons, List.map_cons, List.map_cons]
    exact h
  | (k, v) :: m :: ms => by
    have h := (reads_quote k).join isMark_colon
      ((reads_tokens v).join isMark_comma (reads_memberTokens (m :: ms)))
    unfold memberTokens
    rw [List.flatMap_cons, List.flatMap_cons, List.flatMap_append, List.flatMap_cons, List.map_cons,
      List.map_cons, List.map_append, List.map_cons]
    exact h
termination_by structural ms

end

/-- The text of a value is scanned as its tokens. -/
theorem scan?_write (v : Value) : scan? v.write.toList = some (v.tokens.map Token.readBack) := by
  unfold Value.write
  rw [String.toList_ofList]
  exact scan?_of_reads (reads_tokens v)

end PhpNames.Json
