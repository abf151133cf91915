import LoxSyntax.Proofs.Parse.Recording
import LoxSyntax.Proofs.Parse.Repetition
import LoxSyntax.Proofs.Token.Tiling

namespace LoxSyntax

namespace Parse

/-- The rule stays inside a statement, and what it records without failing can be in a value. -/
abbrev Rule.RecordsInside {α : Type} (rule : Rule α) : Prop :=
  rule.Records (· ≠ .semicolon) (· ∈ foundInValue)

/-- The rule records errors in order, whatever they are. -/
abbrev Rule.RecordsAny {α : Type} (rule : Rule α) : Prop :=
  rule.Records (fun _ => True) (fun _ => True)

open Rule (Records RecordsAt RecordsInside RecordsAny)

theorem Rule.RecordsInside.any {α : Type} {rule : Rule α} (h : RecordsInside rule) :
    RecordsAny rule :=
  Records.mono h (fun _ _ => trivial) fun _ _ => trivial

structure Rules.Ordered (inner : Rules) : Prop where
  assignment : RecordsInside inner.assignment
  unary : RecordsInside inner.unary
  statement : RecordsAny inner.statement
  function : ∀ kind, RecordsAny (inner.function kind)

theorem leftAssociative_records {operators : List TokenKind} {operand : Rule Expr}
    (build : Expr → Token → Expr → Expr) (h : RecordsInside operand)
    (other : ∀ kind ∈ operators, kind ≠ .semicolon) :
    RecordsInside (leftAssociative operators operand build) := by
  refine Records.bind h (Records.iterate fun left => ?_)
  refine (Records.take? other).bind fun found => ?_
  cases found with
  | none => exact .pure none
  | some operator => exact Records.bind h fun right => .pure (some (build left operator right))

theorem expression_records {inner : Rules} (hi : inner.Ordered) :
    RecordsInside (expression inner) := hi.assignment.nested

theorem finishCall_records {inner : Rules} (hi : inner.Ordered) (callee : Expr) :
    RecordsInside (finishCall inner callee) :=
  (Records.before _ (Records.commaSeparated (by decide) (by decide) (expression_records hi))).bind
    fun _ => (Records.expect _ (by decide)).bind fun _ => .pure _

theorem primary_records {inner : Rules} (hi : inner.Ordered) : RecordsInside (primary inner) := by
  refine Records.bind_peek? (.fail _) fun t => ?_
  dsimp only
  cases kind : t.kind with
  | falseKw | trueKw | nilKw | thisKw | identifier | number | string =>
    exact .skip_bind (.pure _) (by simp [kind])
  | superKw =>
    exact .skip_bind ((Records.expect _ (by decide)).bind fun _ =>
      (Records.expect _ (by decide)).bind fun _ => .pure _) (by simp [kind])
  | leftParen =>
    exact .skip_bind ((expression_records hi).bind fun _ =>
      (Records.expect _ (by decide)).bind fun _ => .pure _) (by simp [kind])
  | _ => exact (Records.fail _).anywhere t

theorem call_records {inner : Rules} (hi : inner.Ordered) : RecordsInside (call inner) := by
  refine (primary_records hi).bind (Records.iterate fun left => ?_)
  exact (Records.accept (by decide)).bind fun _ => .ite _ ((finishCall_records hi left).map some)
    (Records.behind (by decide) ((Records.expect _ (by decide)).map (Expr.get left)))

theorem unary_records {inner : Rules} (hi : inner.Ordered) : RecordsInside (unary inner) := by
  refine (Records.take? (by decide)).bind fun found => ?_
  cases found with
  | none => exact call_records hi
  | some operator => exact hi.unary.nested.bind fun right => .pure (Expr.unary operator right)

theorem disjunction_records {inner : Rules} (hi : inner.Ordered) :
    RecordsInside (disjunction inner) := by
  have factor : RecordsInside (factor inner) :=
    leftAssociative_records .binary (unary_records hi) (by decide)
  have term : RecordsInside (term inner) := leftAssociative_records .binary factor (by decide)
  have comparison : RecordsInside (comparison inner) :=
    leftAssociative_records .binary term (by decide)
  have equality : RecordsInside (equality inner) :=
    leftAssociative_records .binary comparison (by decide)
  have conjunction : RecordsInside (conjunction inner) :=
    leftAssociative_records .logical equality (by decide)
  exact leftAssociative_records .logical conjunction (by decide)

/-- The value of an assignment is read before its target is reported. -/
theorem assignment_records {inner : Rules} (hi : inner.Ordered) :
    RecordsInside (assignment inner) := by
  refine (disjunction_records hi).bind fun target => Records.bind_take? (.pure target) fun equal is => ?_
  have allowed : equal.kind ≠ .semicolon := by
    rw [List.mem_singleton.mp is]
    decide
  have value : RecordsAt (· ≠ .semicolon) (· ∈ foundInValue) equal
      (Rule.skip >>= fun _ => Rule.nested inner.assignment) :=
    .skip_bind hi.assignment.nested allowed
  -- The mark of the report is at the `=`, so the value is taken together with the step over it.
  have late := value.report_bind target
  rw [bind_assoc] at late
  cases target with
  | reference name => exact .skip_bind (hi.assignment.nested.bind fun _ => .pure _) allowed
  | get object name => exact .skip_bind (hi.assignment.nested.bind fun _ => .pure _) allowed
  | _ => exact late

theorem expect_any (kind : TokenKind) (problem : Problem) :
    RecordsAny (Rule.expect kind problem) :=
  Records.expect problem trivial

theorem accept_any (kind : TokenKind) : RecordsAny (Rule.accept kind) := Records.accept trivial

theorem expression_any {inner : Rules} (hi : inner.Ordered) :
    RecordsAny (expression inner) := (expression_records hi).any

theorem statement_records {inner : Rules} (hi : inner.Ordered) :
    RecordsAny (statement inner) := hi.statement.nested

theorem function_records {inner : Rules} (hi : inner.Ordered) (kind : FunctionKind) :
    RecordsAny (function inner kind) :=
  (hi.function kind).nested

theorem varDeclaration_records {inner : Rules} (hi : inner.Ordered) :
    RecordsAny (varDeclaration inner) :=
  (expect_any _ _).bind fun _ => (Records.behind trivial (expression_any hi)).bind fun _ =>
    (expect_any _ _).bind fun _ => .pure _

theorem expressionStatement_records {inner : Rules} (hi : inner.Ordered) :
    RecordsAny (expressionStatement inner) :=
  (expression_any hi).bind fun _ => (expect_any _ _).bind fun _ => .pure _

theorem printStatement_records {inner : Rules} (hi : inner.Ordered) :
    RecordsAny (printStatement inner) :=
  (expression_any hi).bind fun _ => (expect_any _ _).bind fun _ => .pure _

theorem returnStatement_records {inner : Rules} (hi : inner.Ordered) (keyword : Token) :
    RecordsAny (returnStatement inner keyword) :=
  (Records.before _ (expression_any hi)).bind fun _ => (expect_any _ _).bind fun _ => .pure _

theorem whileStatement_records {inner : Rules} (hi : inner.Ordered) :
    RecordsAny (whileStatement inner) :=
  (expect_any _ _).bind fun _ => (expression_any hi).bind fun _ => (expect_any _ _).bind fun _ =>
    (statement_records hi).bind fun _ => .pure _

theorem forInitializer_records {inner : Rules} (hi : inner.Ordered) :
    RecordsAny (forInitializer inner) :=
  (accept_any _).bind fun _ => .ite _ (.pure none) <| (accept_any _).bind fun _ =>
    .ite _ ((varDeclaration_records hi).map some) ((expressionStatement_records hi).map some)

theorem forStatement_records {inner : Rules} (hi : inner.Ordered) :
    RecordsAny (forStatement inner) :=
  (expect_any _ _).bind fun _ => (forInitializer_records hi).bind fun _ =>
    (Records.before _ (expression_any hi)).bind fun _ => (expect_any _ _).bind fun _ =>
    (Records.before _ (expression_any hi)).bind fun _ => (expect_any _ _).bind fun _ =>
    (statement_records hi).bind fun _ => .pure _

theorem guarded_records {inner : Rules} (hi : inner.Ordered) : RecordsAny (guarded inner) :=
  (expect_any _ _).bind fun _ => (expression_any hi).bind fun _ => (expect_any _ _).bind fun _ =>
    (statement_records hi).bind fun _ => .pure _

theorem elseLink_records {inner : Rules} (hi : inner.Ordered) (links : Links) :
    RecordsAny (elseLink inner links) :=
  .ite _ (.pure none) <| (accept_any _).bind fun _ => .ite _
    ((accept_any _).bind fun _ => .ite _
      (Records.descend.bind fun _ => (guarded_records hi).bind fun _ => .pure _)
      ((statement_records hi).bind fun _ => .pure _))
    (.pure none)

theorem ifStatement_records {inner : Rules} (hi : inner.Ordered) : RecordsAny (ifStatement inner) :=
  Records.keepingDepth <| (guarded_records hi).bind fun _ =>
    (Records.iterate (elseLink_records hi) _).bind fun _ => .pure _

theorem recovering_records {α : Type} {rule : Rule α} (h : RecordsAny rule) (s : State) :
    s.Records (fun _ => True) (fun _ => True) (recovering rule s).2 :=
  recovering_related (R := State.Records _ _) .trans h.moves (fun run => .recover _ (h.fails run)) s

theorem declarations_records {inner : Rules} (h : RecordsAny (declarationRule inner))
    (closes : TokenKind → Bool) (bound : List Token) (s : State) :
    s.Records (fun _ => True) (fun _ => True) (declarations inner closes bound s).2 :=
  declarations_related State.Records.refl State.Records.trans (recovering_records h) closes bound s

theorem block_records {inner : Rules} (h : RecordsAny (declarationRule inner)) :
    RecordsAny (block inner) := by
  have body : RecordsAny (blockBody inner) :=
    ⟨fun s => declarations_records h _ s.ahead s, fun run => by cases run⟩
  exact body.bind fun body => (expect_any _ _).bind fun _ => .pure body

theorem addMethod_records {inner : Rules} (hi : inner.Ordered) (methods : Array Function) :
    RecordsAny (addMethod inner methods) := by
  refine Records.bind_peek? (.pure none) fun t => Records.anywhere ?_ t
  exact .ite _ (.pure none) ((function_records hi _).bind fun _ => .pure _)

theorem classDeclaration_records {inner : Rules} (hi : inner.Ordered) :
    RecordsAny (classDeclaration inner) :=
  (expect_any _ _).bind fun _ => (Records.behind trivial (expect_any _ _)).bind fun _ =>
    (expect_any _ _).bind fun _ => (Records.iterate (addMethod_records hi) _).bind fun _ =>
    (expect_any _ _).bind fun _ => .pure _

theorem declarationRule_records {inner : Rules} (hi : inner.Ordered) :
    RecordsAny (declarationRule inner) :=
  (accept_any _).bind fun _ => .ite _ (classDeclaration_records hi) <|
    (accept_any _).bind fun _ => .ite _ ((function_records hi _).map Stmt.function) <|
    (accept_any _).bind fun _ => .ite _ (varDeclaration_records hi) (statement_records hi)

theorem functionBody_records {inner : Rules} (hi : inner.Ordered) (kind : FunctionKind) :
    RecordsAny (functionBody inner kind) :=
  (expect_any _ _).bind fun _ => (expect_any _ _).bind fun _ =>
    (Records.before _ (Records.commaSeparated trivial trivial (expect_any _ _))).bind fun _ =>
    (expect_any _ _).bind fun _ => (expect_any _ _).bind fun _ =>
    (block_records (declarationRule_records hi)).bind fun _ => .pure _

theorem statementBody_records {inner : Rules} (hi : inner.Ordered) :
    RecordsAny (statementBody inner) := by
  refine Records.bind_peek? (expressionStatement_records hi) fun t => ?_
  dsimp only
  split
  case h_1 => exact .skip_bind (forStatement_records hi) trivial
  case h_2 => exact .skip_bind (ifStatement_records hi) trivial
  case h_3 => exact .skip_bind (printStatement_records hi) trivial
  case h_4 => exact .skip_bind (returnStatement_records hi t) trivial
  case h_5 => exact .skip_bind (whileStatement_records hi) trivial
  case h_6 =>
    exact .skip_bind ((block_records (declarationRule_records hi)).map Stmt.block) trivial
  case h_7 => exact (expressionStatement_records hi).anywhere t

theorem rules_ordered (level : Nat) : (rules level).Ordered := by
  induction level with
  | zero => exact ⟨.fail _, .fail _, .fail _, fun _ => .fail _⟩
  | succ level ih =>
    exact ⟨assignment_records ih, unary_records ih, statementBody_records ih,
      functionBody_records ih⟩

/-- An error, and the place among the tokens of a program of the one at which it was found. -/
structure Located where
  place : Nat
  error : ParseError

/-- The second error is at the same place or further on; or it is a target, and the first one is
inside its value, without the end of a statement between them. -/
def Located.Before (tokens : List Token) (a b : Located) : Prop :=
  a.place ≤ b.place ∨
    (b.place < a.place ∧ b.error.problem = .invalidTarget ∧ a.error.problem ∈ foundInValue ∧
      ∀ i, b.place ≤ i → i < a.place → ∀ t ∈ tokens[i]?, t.kind ≠ .semicolon)

/-- The place of a mark in the tokens of which it is over the last. -/
def Mark.located (tokens : List Token) (m : Mark) : Located :=
  ⟨tokens.length - m.rest.length, m.error⟩

theorem getElem?_located {tokens : List Token} {stop : Token} {m : Mark}
    (within : m.rest <:+ tokens) :
    (tokens ++ [stop])[(m.located tokens).place]? = some (m.rest.headD stop) := by
  obtain ⟨rest, e⟩ := m
  obtain ⟨front, rfl⟩ := within
  have place : ((⟨rest, e⟩ : Mark).located (front ++ rest)).place = front.length := by
    simp [Mark.located]
  rw [place, List.append_assoc, List.getElem?_append_right (Nat.le_refl _), Nat.sub_self]
  cases rest <;> rfl

theorem Mark.Before.located {tokens : List Token} {stop : Token} {a b : Mark} (h : a.Before b)
    (within : b.rest <:+ tokens) :
    (a.located tokens).Before (tokens ++ [stop]) (b.located tokens) := by
  obtain behind | ⟨target, found, between, split, inside⟩ := h
  · have shorter := behind.length_le
    left
    simp only [Mark.located]
    omega
  · obtain ⟨front, rfl⟩ := within
    have second : (b.located (front ++ b.rest)).place = front.length := by simp [Mark.located]
    have first : (a.located (front ++ b.rest)).place = front.length + between.length := by
      simp [Mark.located, split]
      omega
    by_cases here : between = []
    · left
      simp [first, second, here]
    · refine .inr ⟨?_, target, found, fun i low high t at_i => inside t ?_⟩
      · have := List.length_pos_iff.mpr here
        omega
      · rw [second] at low
        rw [first] at high
        rw [split, List.append_assoc, List.append_assoc, List.getElem?_append_right low,
          List.getElem?_append_left (by omega)] at at_i
        exact List.mem_of_getElem? at_i

end Parse

open Parse

/-- The errors of a parse of closed tokens, at their places. -/
theorem parse_locates {ts : List Token} {stop : Token} (inside : ∀ t ∈ ts, t.kind ≠ .eof)
    (closing : stop.kind = .eof) :
    ∃ found : List Located, found.map Located.error = (parse (ts ++ [stop])).errors ∧
      (∀ m ∈ found, (ts ++ [stop])[m.place]? = some m.error.token) ∧
      found.Pairwise (Located.Before (ts ++ [stop])) := by
  have start := State.start_closed inside closing []
  obtain ⟨marks, errors, order, within⟩ :=
    (declarations_records (declarationRule_records (rules_ordered maxDepth)) (fun _ => false)
      (State.start (ts ++ [stop])).ahead (State.start (ts ++ [stop]))).marks
  rw [start] at within
  refine ⟨marks.map (Mark.located ts), ?_, ?_, ?_⟩
  · rw [List.map_map]
    exact errors.symm
  · refine List.forall_mem_map.mpr fun m is => ?_
    obtain ⟨front, -, token, -⟩ := within m is
    rw [getElem?_located front, ← token]
    rfl
  · refine List.pairwise_map.mpr (order.imp_of_mem fun _ second before => ?_)
    exact before.located (within _ second).1

/-- The errors of a parse are in the order of the tokens at which they were found, and so of lines,
but for targets of assignments: one that is reported comes behind the errors in its value. -/
theorem parse_errors_order (source : String) :
    let tokens := (scan source).tokens
    let errors := (parse tokens).errors
    (∃ found : List Located, found.map Located.error = errors ∧
      (∀ m ∈ found, tokens[m.place]? = some m.error.token) ∧
      found.Pairwise (Located.Before tokens)) ∧
    errors.Pairwise fun e e' => e.token.line ≤ e'.token.line ∨
      (e'.problem = .invalidTarget ∧ e.problem ∈ foundInValue) := by
  intro tokens errors
  obtain ⟨ts, line, closed, inside⟩ := scan_closed source
  have closing : (Token.eof line).kind = .eof := rfl
  obtain ⟨found, are, tokenAt, order⟩ := parse_locates inside closing
  rw [← closed] at are tokenAt order
  refine ⟨⟨found, are, tokenAt, order⟩, ?_⟩
  have lines : tokens.Pairwise (·.line ≤ ·.line) := scan_lines source
  change (parse tokens).errors.Pairwise _
  rw [← are]
  refine List.pairwise_map.mpr (order.imp_of_mem fun {a b} first second before => ?_)
  obtain later | ⟨-, target, early, -⟩ := before
  · obtain ⟨low, here⟩ := List.getElem?_eq_some_iff.mp (tokenAt a first)
    obtain ⟨high, there⟩ := List.getElem?_eq_some_iff.mp (tokenAt b second)
    left
    rw [← here, ← there]
    obtain less | same := Nat.lt_or_eq_of_le later
    · exact List.pairwise_iff_getElem.mp lines _ _ low high less
    · simp [same]
  · exact .inr ⟨target, early⟩

/-- An invalid target inside the value of another one is reported first. -/
theorem parse_errors_order_target :
    (parse (scan "1 =\n2 = 3;").tokens).errors =
        [⟨⟨.equal, "=", none, 2⟩, .invalidTarget⟩, ⟨⟨.equal, "=", none, 1⟩, .invalidTarget⟩] ∧
      ¬ (parse (scan "1 =\n2 = 3;").tokens).errors.Pairwise fun e e' =>
        e.token.line ≤ e'.token.line := by
  decide +kernel

end LoxSyntax
