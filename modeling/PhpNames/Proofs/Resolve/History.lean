/-
  PhpNames.Proofs.Resolve.History — a session that is asked one thing after another.

  A session runs a computation step by step: what is reported is held at once, behind what is held
  already, and what comes after it goes on with that (`run_bind`, `run_report`).

  A request asks a question, whose diagnostics are held, or it has all that is held handed over.
  Both kinds keep the balance

      handed over ++ held afterwards   =   held before ++ reported      (`removed_append_pending`)

  where what is reported is read off the record of the answer.  So over any number of requests no
  diagnostic is lost, doubled or moved, whenever some are taken away (`history_balance`).  What is
  held decides no answer: an answer is the one that a fresh session gives (`serve_replies`).
-/
import Mathlib.Data.List.Forall2
import PhpNames.Resolve.Session

namespace PhpNames

/-! ## §1. Questions and requests. -/

/-- What a resolver can be asked. -/
inductive Question where
  | typeOfExpression (t : Child)
  | typeOfNode (n : Node)
  | typeOfType (t : Child)
  | variableType (n : Node)
  | qualifiedName (n : Node)
  | qualifiedNames (list : Option Child)
  | variableName (t : Child)
  | variableNameOrEmpty (t : Child)

/-- What a resolver answers. -/
inductive Answer where
  | union (outcome : Except ResolveError UnionType)
  | name (outcome : Except ResolveError String)
  | names (outcome : Except ResolveError (List String))

/-- The answer to a question, with its record. -/
def Resolver.answer (r : Resolver) : Question → Logged Answer
  | .typeOfExpression t => do return .union (← (r.typeOfExpression t).run)
  | .typeOfNode n => do return .union (← (r.typeOfNode n).run)
  | .typeOfType t => do return .union (← (r.context.typeOfType t).run)
  | .variableType n => do return .union (.ok (← r.variableType n))
  | .qualifiedName n => do return .name (← (r.qualifiedName n).run)
  | .qualifiedNames list => do return .names (← (r.qualifiedNames list).run)
  | .variableName t => return .name ((r.variableName t).mapError .nameChain)
  | .variableNameOrEmpty t => do return .name (.ok (← r.variableNameOrEmpty t))

/-- What a session is used for. -/
inductive Request where
  | ask (q : Question)
  /-- Hand the diagnostics over. -/
  | take
  /-- Send the diagnostics to a sink. -/
  | drain (sink : Sink)

/-- What a session gives back. -/
inductive Reply where
  | answered (a : Answer)
  | taken (ds : List Diagnostic)
  | drained (sink : Sink)

/-- One request, with the reply to it and the diagnostics that it took away. -/
structure Turn where
  request : Request
  reply : Reply
  removed : List Diagnostic

namespace Session

/-- A session that holds nothing. -/
def fresh (r : Resolver) : Session := ⟨r, []⟩

/-- Serves a request. -/
def serve (s : Session) : Request → Reply × Session
  | .ask q =>
    let (a, s') := s.run (s.resolver.answer q)
    (.answered a, s')
  | .take =>
    let (ds, s') := s.take
    (.taken ds, s')
  | .drain sink =>
    let (sink', s') := (s.drain sink).value
    (.drained sink', s')

/-- The diagnostics that a request takes away. -/
def removedBy (s : Session) : Request → List Diagnostic
  | .ask _ => []
  | .take | .drain _ => s.pending

/-- The turns of a sequence of requests, and the session afterwards. -/
def history (s : Session) : List Request → List Turn × Session
  | [] => ([], s)
  | q :: qs =>
    let (turns, last) := (s.serve q).2.history qs
    (⟨q, (s.serve q).1, s.removedBy q⟩ :: turns, last)

end Session

/-- The diagnostics that a request reports: those in the record of the answer. -/
def Resolver.reports (r : Resolver) : Request → List Diagnostic
  | .ask q => (r.answer q).diagnostics
  | .take | .drain _ => []

/-- A sink after it has been sent diagnostics. -/
def Sink.after : Sink → List Diagnostic → Sink
  | receiving received, ds => receiving (received ++ ds)
  | gone, _ => gone

/-- The turn belongs to the request.  A question gets its answer and takes nothing away; else the
    reply is what was taken away, or the sink that was sent it. -/
def Turn.Serves (r : Resolver) (q : Request) (turn : Turn) : Prop :=
  turn.request = q ∧
    match q with
    | .ask q => turn.reply = .answered (r.answer q).value ∧ turn.removed = []
    | .take => turn.reply = .taken turn.removed
    | .drain sink => turn.reply = .drained (sink.after turn.removed)

/-! ## §2. One computation. -/

namespace Session

/-- A diagnostic is held behind the others as soon as it is reported. -/
theorem run_report (s : Session) (d : Diagnostic) :
    s.run (Logged.report d) = ((), { s with pending := s.pending ++ [d] }) := rfl

/-- The second of two computations runs in the session that the first one leaves. -/
theorem run_bind (s : Session) {α β : Type} (x : Logged α) (f : α → Logged β) :
    s.run (x >>= f) = (s.run x).2.run (f (s.run x).1) := by
  show ((f x.value).value, { s with pending := s.pending ++ (x >>= f).diagnostics }) =
    ((f x.value).value,
      { s with pending := s.pending ++ x.diagnostics ++ (f x.value).diagnostics })
  rw [Logged.diagnostics_bind, List.append_assoc]

end Session

/-! ## §3. One request. -/

/-- Diagnostics that are sent one by one all arrive, in order, unless the receiver is gone. -/
theorem Sink.value_foldlM_send (ds : List Diagnostic) (sink : Sink) :
    (ds.foldlM Sink.send sink).value = sink.after ds := by
  induction ds generalizing sink with
  | nil =>
    cases sink with
    | receiving received =>
      show receiving received = receiving (received ++ [])
      rw [List.append_nil]
    | gone => rfl
  | cons d ds ih =>
    -- the first diagnostic reaches the sink before the others do
    rw [List.foldlM_cons, Logged.value_bind, ih]
    cases sink with
    | receiving received =>
      show receiving (received ++ [d] ++ ds) = receiving (received ++ d :: ds)
      rw [List.append_assoc]
      rfl
    | gone => rfl

namespace Session

/-- A question is answered without a look at what is held, and its diagnostics are held behind. -/
theorem serve_ask (s : Session) (q : Question) :
    s.serve (.ask q) =
      (.answered (s.resolver.answer q).value,
        { s with pending := s.pending ++ (s.resolver.answer q).diagnostics }) := rfl

/-- Draining a session sends all that is held, and nothing is held afterwards. -/
theorem serve_drain (s : Session) (sink : Sink) :
    s.serve (.drain sink) = (.drained (sink.after s.pending), fresh s.resolver) := by
  rw [← Sink.value_foldlM_send]
  rfl

/-- A request leaves the resolver alone. -/
theorem serve_resolver (s : Session) (q : Request) : (s.serve q).2.resolver = s.resolver := by
  cases q with
  | ask q => rfl
  | take => rfl
  | drain sink => rfl

/-- **The balance of a request**: what it hands over and what is held afterwards are what was held
    before and what it reports. -/
theorem removed_append_pending (s : Session) (q : Request) :
    s.removedBy q ++ (s.serve q).2.pending = s.pending ++ s.resolver.reports q := by
  cases q with
  | ask q =>
    rw [serve_ask]
    rfl
  | take => rfl
  | drain sink => rfl

/-- A fresh session holds what a request reports, and nothing else. -/
theorem serve_fresh (r : Resolver) (q : Request) : ((fresh r).serve q).2 = ⟨r, r.reports q⟩ := by
  have hbalance := (fresh r).removed_append_pending q
  have hremoved : (fresh r).removedBy q = [] := by cases q <;> rfl
  have hresolver : ((fresh r).serve q).2.resolver = r := serve_resolver (fresh r) q
  rw [hremoved] at hbalance
  cases hserved : ((fresh r).serve q).2
  rw [hserved] at hbalance hresolver
  subst hresolver
  exact congrArg _ hbalance

/-- What a session holds decides no answer. -/
theorem serve_replies (s : Session) (q : Request) :
    Turn.Serves s.resolver q ⟨q, (s.serve q).1, s.removedBy q⟩ := by
  refine ⟨rfl, ?_⟩
  cases q with
  | ask q => exact ⟨rfl, rfl⟩
  | take => rfl
  | drain sink => exact congrArg Prod.fst (serve_drain s sink)

/-! ## §4. Any number of requests. -/

/-- **The balance of a history**, from that of its requests. -/
theorem history_balance (qs : List Request) (s : Session) :
    (s.history qs).1.flatMap Turn.removed ++ (s.history qs).2.pending =
      s.pending ++ qs.flatMap s.resolver.reports := by
  induction qs generalizing s with
  | nil => exact (List.append_nil _).symm
  | cons q qs ih =>
    -- the session after `q` starts the rest of the history with the same resolver
    show (s.removedBy q ++ ((s.serve q).2.history qs).1.flatMap Turn.removed)
        ++ ((s.serve q).2.history qs).2.pending =
      s.pending ++ (s.resolver.reports q ++ qs.flatMap s.resolver.reports)
    rw [List.append_assoc, ih, serve_resolver, ← List.append_assoc, removed_append_pending,
      List.append_assoc]

/-- Each turn of a history belongs to its request. -/
theorem history_serves (qs : List Request) (s : Session) :
    List.Forall₂ (Turn.Serves s.resolver) qs (s.history qs).1 := by
  induction qs generalizing s with
  | nil => exact .nil
  | cons q qs ih =>
    refine .cons (serve_replies s q) ?_
    rw [← serve_resolver s q]
    exact ih (s.serve q).2

/-- **No diagnostic is lost**: over any sequence of requests the diagnostics that were handed over,
    followed by those that are still held, are those in the records of the answers, in order; and
    each question gets the answer of its computation.  That is what a fresh session holds after a
    request and what it answers.  On the way a session holds each diagnostic as it is reported, and
    runs what follows with that. -/
theorem history_conserves (r : Resolver) (qs : List Request) :
    ((fresh r).history qs).1.flatMap Turn.removed ++ ((fresh r).history qs).2.pending =
      qs.flatMap r.reports ∧
    List.Forall₂ (Turn.Serves r) qs ((fresh r).history qs).1 ∧
    (∀ q : Request, ((fresh r).serve q).2 = ⟨r, r.reports q⟩) ∧
    (∀ q : Question, ((fresh r).serve (.ask q)).1 = .answered (r.answer q).value) ∧
    (∀ (s : Session) (d : Diagnostic),
      s.run (Logged.report d) = ((), { s with pending := s.pending ++ [d] })) ∧
    ∀ (s : Session) (α β : Type) (x : Logged α) (f : α → Logged β),
      s.run (x >>= f) = (s.run x).2.run (f (s.run x).1) :=
  ⟨history_balance qs (fresh r), history_serves qs (fresh r), serve_fresh r, fun _ => rfl,
    run_report, fun s _ _ => s.run_bind⟩

/-- Two reports, of which the second is from a list that fails half-way, are taken; a third one is
    sent to a sink, and the last one is still held. -/
theorem history_conserves_taken_and_drained :
    ∃ (r : Resolver) (qs : List Request) (x y deep z : Diagnostic),
      (x.message = "Variable $x is undeclared" ∧ y.message = "Variable $y is undeclared" ∧
        deep.message = "Variable name chain exceeds 0 nested nodes" ∧
        z.message = "Variable $z is undeclared") ∧
      ((fresh r).history qs).1.map Turn.removed = [[], [], [x, y], [], [deep], []] ∧
      ((fresh r).history qs).2.pending = [z] ∧
      qs.flatMap r.reports = [x, y, deep, z] := by
  let r : Resolver := ⟨Context.ofFile "a.php", { maxNameChain := 0 }⟩
  let names : Node := ⟨.nameList, 0, 3, [some (.node (.var "y" 3)), some (.node ⟨.name, 0, 4, []⟩)]⟩
  let qs : List Request :=
    [.ask (.typeOfNode (.var "x" 2)), .ask (.qualifiedNames (some (.node names))), .take,
      .ask (.variableNameOrEmpty (.node ⟨.call, 0, 5, []⟩)), .drain (.receiving []),
      .ask (.variableType (.var "z" 6))]
  let x := Diagnostic.undefinedVariable "a.php" 2 "x"
  let y := Diagnostic.undefinedVariable "a.php" 3 "y"
  let deep := Diagnostic.malformedNameChain "a.php" 5 0
  let z := Diagnostic.undefinedVariable "a.php" 6 "z"
  have hmessages : x.message = "Variable $x is undeclared" ∧
      y.message = "Variable $y is undeclared" ∧
      deep.message = "Variable name chain exceeds 0 nested nodes" ∧
      z.message = "Variable $z is undeclared" := by decide +kernel
  have hremoved : ((fresh r).history qs).1.map Turn.removed = [[], [], [x, y], [], [deep], []] := by
    decide +kernel
  have hheld : ((fresh r).history qs).2.pending = [z] := by decide +kernel
  refine ⟨r, qs, x, y, deep, z, hmessages, hremoved, hheld, ?_⟩
  rw [← (history_conserves r qs).1, List.flatMap_def, hremoved, hheld]
  rfl

end Session

end PhpNames
