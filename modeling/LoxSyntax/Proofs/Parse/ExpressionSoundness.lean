import LoxSyntax.Parse.Statement
import LoxSyntax.Proofs.Grammar.Derivation
import LoxSyntax.Proofs.Parse.Repetition

namespace LoxSyntax

open Grammar

namespace Parse

/-- A derivation tells what was read between two states: its tokens, at a depth that leaves room for
its levels. What could take an `else` is not followed by one. -/
structure ReadBy {n : Symbol} (D : Derivation n) (s s' : State) : Prop where
  ahead : s.ahead = D.tokens ++ s'.ahead
  depth : s'.depth = s.depth
  levels : s.depth ≤ maxDepth → s.depth + D.nesting ≤ maxDepth
  proper : D.Proper
  closed : D.endsOpen = true → ∀ t ∈ s'.ahead.head?, t.kind ≠ .elseKw

/-- A phrase was read, and denotes what was returned. -/
def Phrase (n : Symbol) (s : State) (a : n.Meaning) (s' : State) : Prop :=
  ∃ D : Derivation n, D.tree = a ∧ ReadBy D s s'

/-- The rule that reads the expressions of a grade. -/
def Rules.expr (inner : Rules) : Grade → Rule Expr
  | .expression => Parse.expression inner
  | .assignment => Parse.assignment inner
  | .binary .disjunction => Parse.disjunction inner
  | .binary .conjunction => Parse.conjunction inner
  | .binary .equality => Parse.equality inner
  | .binary .comparison => Parse.comparison inner
  | .binary .term => Parse.term inner
  | .binary .factor => Parse.factor inner
  | .unary => Parse.unary inner
  | .call => Parse.call inner
  | .primary => Parse.primary inner

/-- The deeper rules read the phrases they stand for. -/
structure Rules.Sound (inner : Rules) : Prop where
  assignment : inner.assignment.Yields (Phrase (.expr .assignment))
  unary : inner.unary.Yields (Phrase (.expr .unary))
  statement : inner.statement.Yields (Phrase .form)
  function kind : (inner.function kind).Yields (Phrase .definition)
  consumes kind : (inner.function kind).Consumes

theorem ReadBy.expr {grade : Grade} {D : Derivation (.expr grade)} {s s' : State}
    (hahead : s.ahead = D.tokens ++ s'.ahead) (hdepth : s'.depth = s.depth)
    (hlevels : s.depth ≤ maxDepth → s.depth + D.nesting ≤ maxDepth) (hproper : D.Proper) :
    ReadBy D s s' :=
  ⟨hahead, hdepth, hlevels, hproper, by simp [D.endsOpen_eq_false rfl]⟩

/-- A phrase that is read one level deeper. -/
theorem ReadBy.nested {n m : Symbol} {D : Derivation n} {E : Derivation m} {s t : State}
    (h : ReadBy D { s with depth := s.depth + 1 } t) (room : s.depth < maxDepth)
    (htokens : E.tokens = D.tokens) (hnesting : E.nesting = D.nesting + 1)
    (hproper : E.Proper ↔ D.Proper) (hopen : E.endsOpen = true → D.endsOpen = true) :
    ReadBy E s { t with depth := s.depth } where
  ahead := htokens ▸ h.ahead
  depth := rfl
  levels := by
    have levels := h.levels room
    simp only at levels
    omega
  proper := hproper.mpr h.proper
  closed stays := h.closed (hopen stays)

/-- A token that is an expression by itself. -/
theorem alone_reads (t : Token) (D : Derivation (.expr .primary)) (htokens : D.tokens = [t])
    (hnesting : D.nesting = 0) (hproper : D.Proper) :
    (Rule.skip >>= fun _ => pure D.tree).Yields (fun s e s' =>
      s.ahead.head? = some t → Phrase (.expr .primary) s e s') := by
  apply (Rule.Yields.skip.bind fun _ => Rule.Yields.pure D.tree).imp
  intro s e s' h next
  obtain ⟨_, t, ⟨ahead, depth⟩, rfl, rfl⟩ := h
  refine ⟨D, rfl, .expr ?_ depth (by omega) hproper⟩
  rw [htokens, ahead, List.singleton_append]
  obtain ⟨rest, whole⟩ := List.head?_eq_some_iff.mp next
  rw [whole, List.tail_cons]

/-- What stands behind a `super` that is the next token. -/
theorem superMethod_reads (t : Token) (is : t.kind = .superKw) :
    (do
      Rule.skip
      let _ ← Rule.mark .dot .afterSuper
      return Expr.super t (← Rule.name .ofSuperclassMethod) : Rule Expr).Yields
      (fun s e s' => s.ahead.head? = some t → Phrase (.expr .primary) s e s') := by
  apply (Rule.Yields.skip.bind fun _ => (Rule.Yields.expect .dot _).bind fun _ =>
    (Rule.Yields.expect .identifier _).bind fun method =>
    Rule.Yields.pure (Expr.super t method)).imp
  intro s e s' h next
  obtain ⟨_, u, ⟨ahead, depth⟩, dot, v, ⟨isDot, ahead', depth'⟩, method, _, ⟨isName, ahead'',
    depth''⟩, rfl, rfl⟩ := h
  obtain ⟨rest, whole⟩ := List.head?_eq_some_iff.mp next
  rw [whole, List.tail_cons] at ahead
  refine ⟨.superMethod ⟨t, is⟩ ⟨dot, isDot⟩ ⟨method, isName⟩, rfl,
    .expr ?_ (depth''.trans (depth'.trans depth)) id trivial⟩
  change s.ahead = [t, dot, method] ++ s'.ahead
  simp [whole, ← ahead, ahead', ahead'']

theorem expression_reads {inner : Rules} (hi : inner.Sound) :
    (expression inner).Yields (Phrase (.expr .expression)) := by
  apply hi.assignment.nested.imp
  intro s a s' h
  obtain ⟨room, t, ⟨D, rfl, read⟩, rfl⟩ := h
  exact ⟨.expression D, rfl, read.nested room rfl rfl Iff.rfl nofun⟩

/-- What was read of a list of arguments, which is never too long. -/
theorem arguments_reads {inner : Rules} (hi : inner.Sound) :
    (Rule.before .rightParen
      (Rule.commaSeparated (expression inner) .tooManyArguments)).Yields
      (fun s found s' => Phrase .arguments s (found.getD []) s' ∧
        (found.getD []).length ≤ maxArguments) := by
  apply (Rule.Yields.before .rightParen
    (Rule.Yields.commaSeparated .tooManyArguments (expression_reads hi))).imp
  intro s found s' read
  cases found with
  | none =>
    subst read
    exact ⟨⟨.noArguments, rfl, rfl, rfl, id, trivial, nofun⟩,
      Nat.zero_le _⟩
  | some all =>
    have one : ∀ a t, Phrase (.expr .expression) s a t → Phrase .argumentList s [a] t := by
      intro a t h
      obtain ⟨D, rfl, read⟩ := h
      exact ⟨.oneArgument D, rfl, read.ahead, read.depth, read.levels, read.proper,
        nofun⟩
    have more : ∀ items t comma between a t', Phrase .argumentList s items t →
        comma.kind = .comma → t.ahead = comma :: between.ahead → between.depth = t.depth →
        Phrase (.expr .expression) between a t' → Phrase .argumentList s (items ++ [a]) t' := by
      intro items t comma between a t' h' is ahead depth reading
      obtain ⟨D, rfl, list⟩ := h'
      obtain ⟨E, rfl, item⟩ := reading
      have same : between.depth = s.depth := depth.trans list.depth
      refine ⟨.anotherArgument D ⟨comma, is⟩ E, rfl, ?_, item.depth.trans same, fun room => ?_,
        ⟨list.proper, item.proper⟩, nofun⟩
      · change s.ahead = (D.tokens ++ comma :: E.tokens) ++ t'.ahead
        simp [list.ahead, ahead, item.ahead]
      · change s.depth + max D.nesting E.nesting ≤ maxDepth
        have first := list.levels room
        have second := item.levels (same ▸ room)
        omega
    obtain ⟨⟨D, rfl, list⟩, few⟩ := read (Phrase .argumentList s) one more
    exact ⟨⟨.someArguments D, rfl, list.ahead, list.depth, list.levels, list.proper,
      nofun⟩, few⟩

/-- What a call adds to its callee. -/
theorem finishCall_reads {inner : Rules} (hi : inner.Sound) (callee : Expr) :
    (finishCall inner callee).Yields (fun s e s' => ∃ (args : Derivation .arguments)
      (closing : Terminal .rightParen) (t : State), e = .call callee closing.1 args.tree ∧
      ReadBy args s t ∧ args.tree.length ≤ maxArguments ∧ t.ahead = closing.1 :: s'.ahead ∧
      s'.depth = t.depth) := by
  apply ((arguments_reads hi).bind fun found =>
    (Rule.Yields.expect .rightParen (.noMark .rightParen .afterArguments)).bind fun paren =>
    Rule.Yields.pure (Expr.call callee paren (found.getD []))).imp
  intro s e s'' h
  obtain ⟨found, t, ⟨⟨args, tree, read⟩, few⟩, paren, _, ⟨is, ahead, depth⟩, rfl, rfl⟩ := h
  rw [← tree] at few
  exact ⟨args, ⟨paren, is⟩, t, by rw [tree], read, few, ahead, depth⟩

theorem group_reads {inner : Rules} (hi : inner.Sound) (t : Token) (is : t.kind = .leftParen) :
    (do
      Rule.skip
      let e ← expression inner
      let _ ← Rule.mark .rightParen .afterExpression
      return Expr.grouping e : Rule Expr).Yields
      (fun s e s' => s.ahead.head? = some t → Phrase (.expr .primary) s e s') := by
  apply (Rule.Yields.skip.bind fun _ => (expression_reads hi).bind fun e =>
    (Rule.Yields.expect .rightParen _).bind fun _ => Rule.Yields.pure (Expr.grouping e)).imp
  intro s e s' h next
  obtain ⟨_, u, ⟨ahead, depth⟩, e, v, ⟨D, rfl, read⟩, closing, _, ⟨isClosing, ahead', depth'⟩, rfl,
    rfl⟩ := h
  obtain ⟨rest, whole⟩ := List.head?_eq_some_iff.mp next
  rw [whole, List.tail_cons] at ahead
  refine ⟨.group ⟨t, is⟩ D ⟨closing, isClosing⟩, rfl,
    .expr ?_ (depth'.trans (read.depth.trans depth)) (depth ▸ read.levels) read.proper⟩
  change s.ahead = t :: (D.tokens ++ [closing]) ++ s'.ahead
  simp [whole, ← ahead, read.ahead, ahead']

theorem primary_reads {inner : Rules} (hi : inner.Sound) :
    (primary inner).Yields (Phrase (.expr .primary)) := by
  refine (Rule.Yields.peek?.bind (Q := fun found s e s' => s.ahead.head? = found →
    Phrase (.expr .primary) s e s') fun found => ?_).imp ?_
  · cases found with
    | none => exact Rule.Yields.fail .noExpression
    | some t =>
      dsimp only
      split
      case h_1 is => exact alone_reads t (.falsehood ⟨t, is⟩) rfl rfl trivial
      case h_2 is => exact alone_reads t (.truth ⟨t, is⟩) rfl rfl trivial
      case h_3 is => exact alone_reads t (.nothing ⟨t, is⟩) rfl rfl trivial
      case h_4 is => exact alone_reads t (.number ⟨t, is⟩) rfl rfl trivial
      case h_5 is => exact alone_reads t (.string ⟨t, is⟩) rfl rfl trivial
      case h_6 is => exact superMethod_reads t is
      case h_7 is => exact alone_reads t (.this ⟨t, is⟩) rfl rfl trivial
      case h_8 is => exact alone_reads t (.reference ⟨t, is⟩) rfl rfl trivial
      case h_9 is => exact group_reads hi t is
      case h_10 => exact Rule.Yields.fail .noExpression
  · intro s e s' h
    obtain ⟨found, t, ⟨rfl, rfl⟩, reads⟩ := h
    exact reads rfl

/-- A call or a property access makes a longer phrase of the one on its left. -/
theorem callOrGet_reads {inner : Rules} (hi : inner.Sound) (left : Expr) :
    (callOrGet inner left).Yields (fun s found s' => match found with
      | some e => ∀ s₀, Phrase (.expr .call) s₀ left s → Phrase (.expr .call) s₀ e s'
      | none => s' = s) := by
  apply ((Rule.Yields.accept .leftParen).bind fun called =>
    Rule.Yields.ite (called = true) ((finishCall_reads hi left).map some)
    (Rule.Yields.behind .dot ((Rule.Yields.expect .identifier (.noName .ofProperty)).map
      (Expr.get left)))).imp
  intro s found s' h
  obtain ⟨called, t, opened, reads⟩ := h
  cases called with
  | true =>
    obtain ⟨opening, isOpening, ahead, depth⟩ := opened
    obtain ⟨_, ⟨args, closing, u, rfl, read, few, ahead', depth'⟩, rfl⟩ := reads
    intro s₀ h'
    obtain ⟨D, rfl, callee⟩ := h'
    have same : t.depth = s₀.depth := depth.trans callee.depth
    refine ⟨.apply D ⟨opening, isOpening⟩ args closing, rfl,
      .expr ?_ (depth'.trans (read.depth.trans same)) (fun room => ?_)
      ⟨callee.proper, read.proper, few⟩⟩
    · change s₀.ahead = D.tokens ++ opening :: (args.tokens ++ [closing.1]) ++ s'.ahead
      simp [callee.ahead, ahead, read.ahead, ahead']
    · change s₀.depth + max D.nesting args.nesting ≤ maxDepth
      have first := callee.levels room
      have second := read.levels (same ▸ room)
      omega
  | false =>
    obtain ⟨rfl, -⟩ := opened
    cases found with
    | none => exact reads.1
    | some e =>
      obtain ⟨dot, u, isDot, ahead, depth, name, ⟨isName, ahead', depth'⟩, rfl⟩ := reads
      intro s₀ reading
      obtain ⟨D, rfl, object⟩ := reading
      refine ⟨.property D ⟨dot, isDot⟩ ⟨name, isName⟩, rfl,
        .expr ?_ (depth'.trans (depth.trans object.depth)) object.levels object.proper⟩
      change s₀.ahead = D.tokens ++ [dot, name] ++ s'.ahead
      simp [object.ahead, ahead, ahead']

theorem callOrGet_advances {inner : Rules} (hi : inner.Sound) (left : Expr) :
    (callOrGet inner left).Advances :=
  Rule.Advances.bind_accept ((finishCall_reads hi left).map some).moves
    (Rule.Advances.behind .dot ((Rule.Yields.expect .identifier (.noName .ofProperty)).map
      (Expr.get left)))

theorem call_reads {inner : Rules} (hi : inner.Sound) :
    (call inner).Yields (Phrase (.expr .call)) := by
  apply ((primary_reads hi).bind fun e => Rule.Yields.iterate e (callOrGet_reads hi)
    (callOrGet_advances hi)).imp
  intro s e s' h
  obtain ⟨first, t, ⟨D, rfl, read⟩, rounds⟩ := h
  have start : Phrase (.expr .call) s D.tree t :=
    ⟨.ofPrimary D, rfl, .expr read.ahead read.depth read.levels read.proper⟩
  obtain ⟨t', phrase, rfl⟩ := rounds (Phrase (.expr .call) s) start
    (fun left t e t' phrase extended => extended s phrase)
  exact phrase

theorem unary_reads {inner : Rules} (hi : inner.Sound) :
    (unary inner).Yields (Phrase (.expr .unary)) := by
  refine ((Rule.Yields.take? [.bang, .minus]).bind (Q := fun found s e s' =>
    found.elim (Phrase (.expr .call) s e s') fun operator =>
      ∃ right t, e = .unary operator right ∧ s.depth < maxDepth ∧
        Phrase (.expr .unary) { s with depth := s.depth + 1 } right t ∧
        s' = { t with depth := s.depth }) fun found => ?_).imp ?_
  · cases found with
    | none => exact call_reads hi
    | some operator =>
      apply (hi.unary.nested.bind fun right => Rule.Yields.pure (Expr.unary operator right)).imp
      intro s e s' h
      obtain ⟨right, _, ⟨room, t, read, rfl⟩, rfl, rfl⟩ := h
      exact ⟨right, t, rfl, room, read, rfl⟩
  · intro s e s' h'
    obtain ⟨found, t, first, reads⟩ := h'
    cases found with
    | none =>
      obtain ⟨rfl, -⟩ := first
      obtain ⟨D, rfl, read⟩ := reads
      exact ⟨.ofCall D, rfl, .expr read.ahead read.depth read.levels read.proper⟩
    | some operator =>
      obtain ⟨isOperator, ahead, depth⟩ := first
      obtain ⟨_, u, rfl, room, ⟨D, rfl, read⟩, rfl⟩ := reads
      refine ⟨.operate ⟨operator, isOperator⟩ D, rfl, .expr ?_ depth (fun _ => ?_) read.proper⟩
      · change s.ahead = operator :: D.tokens ++ u.ahead
        rw [ahead, List.cons_append, ← read.ahead]
      · change s.depth + (D.nesting + 1) ≤ maxDepth
        have levels := read.levels room
        simp only at levels
        omega

/-- An operator and its right operand make a longer phrase of the one on their left. -/
theorem foldOperand_reads (level : Precedence) {operand : Rule Expr}
    (h : operand.Yields (Phrase (.expr level.tighter))) (left : Expr) :
    (foldOperand level.operators operand level.node left).Yields (fun s found s' =>
      match found with
      | some e => ∀ s₀, Phrase (.expr (.binary level)) s₀ left s →
          Phrase (.expr (.binary level)) s₀ e s'
      | none => s' = s) := by
  refine ((Rule.Yields.take? level.operators).bind (Q := fun found s e s' =>
    found.elim (e = none ∧ s' = s) fun operator =>
      ∃ right, e = some (level.node left operator right) ∧
        Phrase (.expr level.tighter) s right s') fun found => ?_).imp ?_
  · cases found with
    | none => exact Rule.Yields.pure none
    | some operator =>
      apply (h.bind fun right => Rule.Yields.pure (some (level.node left operator right))).imp
      intro s e s' h'
      obtain ⟨right, _, read, rfl, rfl⟩ := h'
      exact ⟨right, rfl, read⟩
  · intro s found s' reading
    obtain ⟨taken, t, first, reads⟩ := reading
    cases taken with
    | none =>
      obtain ⟨rfl, rfl⟩ := reads
      exact first.1
    | some operator =>
      obtain ⟨isOperator, ahead, depth⟩ := first
      obtain ⟨_, rfl, E, rfl, right⟩ := reads
      intro s₀ hs
      obtain ⟨D, rfl, left⟩ := hs
      have same : t.depth = s₀.depth := depth.trans left.depth
      refine ⟨.fold D ⟨operator, isOperator⟩ E, rfl, .expr ?_ (right.depth.trans same)
        (fun room => ?_) ⟨left.proper, right.proper⟩⟩
      · change s₀.ahead = D.tokens ++ operator :: E.tokens ++ s'.ahead
        simp [left.ahead, ahead, right.ahead]
      · change s₀.depth + max D.nesting E.nesting ≤ maxDepth
        have first := left.levels room
        have second := right.levels (same ▸ room)
        omega

theorem foldOperand_advances (operators : List TokenKind) {operand : Rule Expr}
    {P : State → Expr → State → Prop} (h : operand.Yields P) (node : Expr → Token → Expr → Expr)
    (left : Expr) : (foldOperand operators operand node left).Advances :=
  Rule.Advances.bind_take?
    (fun operator => (h.bind fun right =>
      Rule.Yields.pure (some (node left operator right))).moves)
    Rule.Advances.pure_none

theorem leftAssociative_reads (level : Precedence) {operand : Rule Expr}
    (h : operand.Yields (Phrase (.expr level.tighter))) :
    (leftAssociative level.operators operand level.node).Yields
      (Phrase (.expr (.binary level))) := by
  apply (h.bind fun e => Rule.Yields.iterate e (foldOperand_reads level h)
    (foldOperand_advances level.operators h level.node)).imp
  intro s e s' h'
  obtain ⟨first, t, ⟨D, rfl, read⟩, rounds⟩ := h'
  have start : Phrase (.expr (.binary level)) s D.tree t :=
    ⟨.ofTighter D, rfl, .expr read.ahead read.depth read.levels read.proper⟩
  obtain ⟨t', phrase, rfl⟩ := rounds (Phrase (.expr (.binary level)) s) start
    (fun left t e t' phrase extended => extended s phrase)
  exact phrase

/-- The operands of every level are read. -/
theorem operand_reads {inner : Rules} (hi : inner.Sound) (level : Precedence) :
    (inner.expr level.tighter).Yields (Phrase (.expr level.tighter)) := by
  have ofFactor := unary_reads hi
  have ofTerm := leftAssociative_reads .factor ofFactor
  have ofComparison := leftAssociative_reads .term ofTerm
  have ofEquality := leftAssociative_reads .comparison ofComparison
  have ofConjunction := leftAssociative_reads .equality ofEquality
  have ofDisjunction := leftAssociative_reads .conjunction ofConjunction
  cases level with
  | disjunction => exact ofDisjunction
  | conjunction => exact ofConjunction
  | equality => exact ofEquality
  | comparison => exact ofComparison
  | term => exact ofTerm
  | factor => exact ofFactor

theorem disjunction_reads {inner : Rules} (hi : inner.Sound) :
    (disjunction inner).Yields (Phrase (.expr (.binary .disjunction))) :=
  leftAssociative_reads .disjunction (operand_reads hi .disjunction)

/-- A name, or a property of something, is the target of an assignment. -/
theorem target_reads {target e value : Expr} {equal : Token} {s t u v : State}
    (isEqual : equal.kind = .equal) (hs : Phrase (.expr (.binary .disjunction)) s target t)
    (ahead : t.ahead = equal :: u.ahead) (depth : u.depth = t.depth) (room : u.depth < maxDepth)
    (hvalue : Phrase (.expr .assignment) { u with depth := u.depth + 1 } value v)
    (he : (∃ name, target = .reference name ∧ e = .assign name value) ∨
      ∃ object name, target = .get object name ∧ e = .set object name value) :
    Phrase (.expr .assignment) s e { v with depth := u.depth } := by
  obtain ⟨D, tree, read⟩ := hs
  obtain ⟨V, rfl, value⟩ := hvalue
  have same : u.depth = s.depth := depth.trans read.depth
  have levels : u.depth + 1 + V.nesting ≤ maxDepth := value.levels room
  have behind : u.ahead = V.tokens ++ v.ahead := value.ahead
  have notOperation : isOperation D.tree = false := by
    rcases he with ⟨name, rfl, -⟩ | ⟨object, name, rfl, -⟩ <;> rw [tree] <;> rfl
  obtain ⟨C, alike⟩ := D.alike_call notOperation
  have whole : s.ahead = C.tokens ++ equal :: (V.tokens ++ v.ahead) := by
    rw [read.ahead, ahead, behind, alike.tokens]
  rw [alike.tree] at tree
  rcases he with ⟨name, rfl, rfl⟩ | ⟨object, name, rfl, rfl⟩
  · cases C with
    | ofPrimary P =>
      cases P with
      | reference t =>
        cases tree
        refine ⟨.assign t ⟨equal, isEqual⟩ V, rfl, .expr ?_ same (fun _ => ?_) value.proper⟩
        · change s.ahead = t.1 :: equal :: V.tokens ++ v.ahead
          exact whole
        · change s.depth + (V.nesting + 1) ≤ maxDepth
          omega
      | _ => cases tree
    | _ => cases tree
  · cases C with
    | ofPrimary P => cases P <;> cases tree
    | apply callee opening args closing => cases tree
    | property O dot t =>
      cases tree
      have proper : O.Proper := alike.proper.mp read.proper
      have nesting : D.nesting = O.nesting := alike.nesting
      refine ⟨.assignProperty O dot t ⟨equal, isEqual⟩ V, rfl, .expr ?_ same (fun ok => ?_)
        ⟨proper, value.proper⟩⟩
      · change s.ahead = O.tokens ++ dot.1 :: t.1 :: equal :: V.tokens ++ v.ahead
        rw [whole]
        change O.tokens ++ [dot.1, t.1] ++ _ = _
        simp
      · change s.depth + max O.nesting (V.nesting + 1) ≤ maxDepth
        have first := read.levels ok
        omega

/-- The value of an assignment, and the node made of it and the target; a target that cannot be
assigned to is reported. -/
theorem assignmentValue_reads {inner : Rules} (hi : inner.Sound) (target : Expr) (equal : Token) :
    (do
      let value ← Rule.nested inner.assignment
      match target with
      | .reference name => return .assign name value
      | .get object name => return .set object name value
      | target =>
        Rule.report ⟨equal, .invalidTarget⟩
        return target : Rule Expr).Yields (fun s e s' => ∃ value v, s.depth < maxDepth ∧
      Phrase (.expr .assignment) { s with depth := s.depth + 1 } value v ∧
      s' = { v with depth := s.depth } ∧
      ((∃ name, target = .reference name ∧ e = .assign name value) ∨
        ∃ object name, target = .get object name ∧ e = .set object name value)) := by
  refine (hi.assignment.nested.bind (Q := fun value s e s' => s' = s ∧
    ((∃ name, target = .reference name ∧ e = .assign name value) ∨
      ∃ object name, target = .get object name ∧ e = .set object name value)) fun value => ?_).imp ?_
  · split
    · exact (Rule.Yields.pure _).imp fun s e s' h => ⟨h.2, .inl ⟨_, rfl, h.1⟩⟩
    · exact (Rule.Yields.pure _).imp fun s e s' h => ⟨h.2, .inr ⟨_, _, rfl, h.1⟩⟩
    · apply ((Rule.Yields.report _).bind fun _ => Rule.Yields.pure _).imp
      intro s e s' h'
      obtain ⟨_, _, ⟨⟩, -⟩ := h'
  · intro s e s' reading
    obtain ⟨value, _, ⟨room, v, read, rfl⟩, rfl, node⟩ := reading
    exact ⟨value, v, room, read, rfl, node⟩

theorem assignment_reads {inner : Rules} (hi : inner.Sound) :
    (assignment inner).Yields (Phrase (.expr .assignment)) := by
  refine ((disjunction_reads hi).bind fun target => (Rule.Yields.take? [.equal]).bind
    (Q := fun found s e s' => found.elim (e = target ∧ s' = s) fun _ =>
      ∃ value v, s.depth < maxDepth ∧
        Phrase (.expr .assignment) { s with depth := s.depth + 1 } value v ∧
        s' = { v with depth := s.depth } ∧
        ((∃ name, target = .reference name ∧ e = .assign name value) ∨
          ∃ object name, target = .get object name ∧ e = .set object name value))
    fun found => ?_).imp ?_
  · cases found with
    | none => exact Rule.Yields.pure target
    | some equal => exact assignmentValue_reads hi target equal
  · intro s e s' h
    obtain ⟨target, t, phrase, found, u, taken, reads⟩ := h
    cases found with
    | none =>
      obtain ⟨rfl, rfl⟩ := reads
      obtain ⟨rfl, -⟩ := taken
      obtain ⟨D, rfl, read⟩ := phrase
      exact ⟨.ofDisjunction D, rfl, .expr read.ahead read.depth read.levels read.proper⟩
    | some equal =>
      obtain ⟨isEqual, ahead, depth⟩ := taken
      obtain ⟨value, v, room, read, rfl, node⟩ := reads
      exact target_reads (by simpa using isEqual) phrase ahead depth room read node

end Parse

end LoxSyntax
