/-
  PhpNames.Json.Document — JSON documents: tokens put together.

  Tokens are assembled on a stack of open arrays and objects.  A value inside a container may be
  well formed and still unreadable: because it holds an unpaired surrogate or a number beyond the
  doubles, or because it is nested too deep.  The members of an object at the top of a document
  stay apart, so that a reader who has no use for a member does not mind what it holds.
-/
import PhpNames.Json.Scan

namespace PhpNames.Json

/-- A document.  In an object at the top a member without a readable value is kept as `none`;
    everything else is readable as a whole. -/
inductive Document where
  | fields (members : List (String × Option Value))
  | value (v : Value)
  deriving Repr

/-- A member with its key, if the key is readable. -/
def keyed? (m : Option String × Option Value) : Option (String × Option Value) :=
  m.1.map fun k => (k, m.2)

/-- A member with its value, if the value is readable. -/
def valued? (m : String × Option Value) : Option (String × Value) :=
  m.2.map fun v => (m.1, v)

/-- The document as a value, if all of it is readable. -/
def Document.value? : Document → Option Value
  | .fields ms => (ms.mapM valued?).map .obj
  | .value v => some v

/-- The document with no more of an object's members than the named ones: a reader's view, for
    whom the other members need not be readable. -/
def Document.select? (names : List String) : Document → Option Value
  | .fields ms => Document.value? (.fields (ms.filter fun m => names.contains m.1))
  | .value v => some v

/-- How many arrays and objects may be open at once. -/
def maxNesting : Nat := 127

/-! ## Assembling -/

/-- An open array or object and what it holds so far, the last part first.  A member without a
    value yet holds none. -/
inductive Frame where
  | array (items : List (Option Value))
  | object (members : List (Option String × Option Value))
  deriving Repr

/-- The bracket that closes the container. -/
def Frame.bracket : Frame → Bracket
  | .array _ => .square
  | .object _ => .curly

/-- The container as a document: the keys of an object are needed, its values are not. -/
def Frame.document? : Frame → Option Document
  | .array items => (items.reverse.mapM id).map fun vs => .value (.arr vs)
  | .object members => (members.reverse.mapM keyed?).map .fields

/-- The container as a value, if all of its parts are readable. -/
def Frame.value? (f : Frame) : Option Value :=
  f.document?.bind Document.value?

/-- What may come next: a value or a key, which a closing bracket may stand for when its container
    is still empty; a colon; what follows a part of a container; or nothing. -/
inductive Due where
  | value (mayClose : Bool)
  | key (mayClose : Bool)
  | colon
  | next
  | done (d : Document)
  deriving Repr

/-- The open containers, innermost first, and what is due. -/
structure Assembly where
  frames : List Frame
  due : Due
  deriving Repr

namespace Assembly

/-- Before the first token. -/
def start : Assembly := ⟨[], .value false⟩

/-- Puts a value where it is due. -/
def deliver (frames : List Frame) (v : Option Value) : Option Assembly :=
  match frames with
  | [] => v.map fun v => ⟨[], .done (.value v)⟩
  | .array items :: rest => some ⟨.array (v :: items) :: rest, .next⟩
  | .object ((k, _) :: ms) :: rest => some ⟨.object ((k, v) :: ms) :: rest, .next⟩
  | .object [] :: _ => none

/-- Closes the innermost container.  One that is nested too deep is unreadable. -/
def close (b : Bracket) : List Frame → Option Assembly
  | [] => none
  | f :: rest =>
    if f.bracket ≠ b then none
    else if rest.isEmpty then f.document?.map fun d => ⟨[], .done d⟩
    else deliver rest (if rest.length < maxNesting then f.value? else none)

/-- One token. -/
def step (a : Assembly) (t : Token) : Option Assembly :=
  match t, a.due with
  | .opening .square, .value _ => some ⟨.array [] :: a.frames, .value true⟩
  | .opening .curly, .value _ => some ⟨.object [] :: a.frames, .key true⟩
  | .closing b, .value true => close b a.frames
  | .closing b, .key true => close b a.frames
  | .closing b, .next => close b a.frames
  | .null, .value _ => deliver a.frames (some .null)
  | .bool b, .value _ => deliver a.frames (some (.bool b))
  | .number n, .value _ => deliver a.frames (n.map .num)
  | .text s, .value _ => deliver a.frames (s.map .str)
  | .text k, .key _ =>
    match a.frames with
    | .object ms :: rest => some ⟨.object ((k, none) :: ms) :: rest, .colon⟩
    | _ => none
  | .colon, .colon => some ⟨a.frames, .value false⟩
  | .comma, .next =>
    match a.frames with
    | .array _ :: _ => some ⟨a.frames, .value false⟩
    | .object _ :: _ => some ⟨a.frames, .key false⟩
    | [] => none
  | _, _ => none

/-- The document, once nothing is due any more. -/
def document? (a : Assembly) : Option Document :=
  match a.due with
  | .done d => some d
  | _ => none

end Assembly

/-! ## Reading -/

/-- The document that tokens make up. -/
def Document.ofTokens? (ts : List Token) : Option Document := do
  (← ts.foldlM Assembly.step Assembly.start).document?

/-- Reads a JSON text. -/
def Document.parse? (text : String) : Option Document := do
  Document.ofTokens? (← scan? text.toList)

/-- Reads a JSON text all of which is readable. -/
def Value.parse? (text : String) : Option Value := do
  (← Document.parse? text).value?

/-! ## Instances of the rules -/

/-- Reading a text and writing its value. -/
def reformat? (text : String) : Option String := (Value.parse? text).map Value.write

example : reformat? " [ -3 , \"a\\ud83d\\ude00\" ]" = some "[-3,\"a😀\"]" := by decide +kernel
example : reformat? "[1,]" = none ∧ reformat? "[1 2]" = none := by decide +kernel
example : reformat? "-0" = some "-0.0" := by decide +kernel
example : reformat? "18446744073709551615" = some "18446744073709551615" := by decide +kernel
example : reformat? "18446744073709551616" = some "1.8446744073709552e+19" := by decide +kernel
example : reformat? "1e309" = none ∧ reformat? "1e-400" = some "0.0" := by decide +kernel
example : reformat? "01" = none ∧ reformat? "1." = none ∧ reformat? ".5" = none := by
  decide +kernel

end PhpNames.Json
