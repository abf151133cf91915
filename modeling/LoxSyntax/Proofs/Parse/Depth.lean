import LoxSyntax.Proofs.Parse.Height
import LoxSyntax.Proofs.Parse.Visits

namespace LoxSyntax.Parse

open Rule (Composed Congruence Gives Level Visits)

/-- The rules of the grammar, on the rules that may go a level further in. -/
inductive GrammarRule (inner : Rules) : {α : Type} → Rule α → Prop where
  | declaration : GrammarRule inner (Rule.attempt (declarationRule inner))
  | classDeclaration : GrammarRule inner (classDeclaration inner)
  | varDeclaration : GrammarRule inner (varDeclaration inner)
  | function (kind : FunctionKind) : GrammarRule inner (function inner kind)
  | functionBody (kind : FunctionKind) : GrammarRule inner (functionBody inner kind)
  | statement : GrammarRule inner (statement inner)
  | statementBody : GrammarRule inner (statementBody inner)
  | forStatement : GrammarRule inner (forStatement inner)
  | forInitializer : GrammarRule inner (forInitializer inner)
  | ifStatement : GrammarRule inner (ifStatement inner)
  | guarded : GrammarRule inner (guarded inner)
  | printStatement : GrammarRule inner (printStatement inner)
  | returnStatement (keyword : Token) : GrammarRule inner (returnStatement inner keyword)
  | whileStatement : GrammarRule inner (whileStatement inner)
  | block : GrammarRule inner (block inner)
  | expressionStatement : GrammarRule inner (expressionStatement inner)
  | expression : GrammarRule inner (expression inner)
  | assignment : GrammarRule inner (assignment inner)
  | disjunction : GrammarRule inner (disjunction inner)
  | conjunction : GrammarRule inner (conjunction inner)
  | equality : GrammarRule inner (equality inner)
  | comparison : GrammarRule inner (comparison inner)
  | term : GrammarRule inner (term inner)
  | factor : GrammarRule inner (factor inner)
  | unary : GrammarRule inner (unary inner)
  | call : GrammarRule inner (call inner)
  | finishCall (callee : Expr) : GrammarRule inner (finishCall inner callee)
  | primary : GrammarRule inner (primary inner)

theorem leftAssociative_composed (operators : List TokenKind) (build : Expr → Token → Expr → Expr)
    {operand : Rule Expr} (h : operand.Composed) :
    (leftAssociative operators operand build).Composed :=
  @Congruence.leftAssociative _ Rule.composed_congruence operators build operand operand h

theorem leftAssociative_level (operators : List TokenKind) (build : Expr → Token → Expr → Expr)
    {operand : Rule Expr} (h : Level operand) :
    Level (leftAssociative operators operand build) := by
  have round (left : Expr) : Level (foldOperand operators operand build left) := by
    refine (Gives.take? operators).bind fun found => ?_
    cases found with
    | none => exact .pure fun _ _ => trivial
    | some operator => exact h.bind fun _ => .pure fun _ _ _ => trivial
  have rounds (left : Expr) :=
    Gives.iterate (P := fun _ _ => True) (fun a => (round a).imp fun _ _ _ _ _ _ => trivial) left
  exact h.bind fun left => (rounds left).imp fun _ _ _ _ => trivial

namespace GrammarRule

theorem composed {α : Type} {level : Nat} {rule : Rule α} (h : GrammarRule (rules level) rule) :
    rule.Composed := by
  have laws := Rule.composed_congruence
  have inside := rules_composed level
  have factor := leftAssociative_composed [.slash, .star] .binary (laws.unaryRule inside)
  have term := leftAssociative_composed [.minus, .plus] .binary factor
  have comparison :=
    leftAssociative_composed [.greater, .greaterEqual, .less, .lessEqual] .binary term
  have equality := leftAssociative_composed [.bangEqual, .equalEqual] .binary comparison
  have conjunction := leftAssociative_composed [.andKw] .logical equality
  cases h with
  | declaration =>
    obtain ⟨visited, within⟩ := laws.declarationRule inside
    exact ⟨_, .attempt within⟩
  | classDeclaration => exact laws.classDeclaration inside
  | varDeclaration => exact laws.varDeclaration inside
  | function kind => exact inside.function kind
  | functionBody kind => exact laws.functionBody inside kind
  | statement => exact inside.statement
  | statementBody => exact laws.statementBody inside
  | forStatement => exact laws.forStatement inside
  | forInitializer => exact laws.forInitializer inside
  | ifStatement => exact laws.ifStatement inside
  | guarded => exact laws.guarded inside
  | printStatement => exact laws.printStatement inside
  | returnStatement keyword => exact laws.returnStatement inside keyword
  | whileStatement => exact laws.whileStatement inside
  | block => exact laws.block (rules level) (rules level) (laws.declarationRule inside)
  | expressionStatement => exact laws.expressionStatement inside
  | expression => exact inside.assignment
  | assignment => exact laws.assignmentRule inside
  | disjunction => exact laws.disjunction inside
  | conjunction => exact conjunction
  | equality => exact equality
  | comparison => exact comparison
  | term => exact term
  | factor => exact factor
  | unary => exact laws.unaryRule inside
  | call => exact laws.call inside
  | finishCall callee => exact laws.finishCall inside callee
  | primary => exact laws.primary inside

/-- Every rule ends at the depth it started at. -/
theorem depth {α : Type} {level : Nat} {rule : Rule α} (h : GrammarRule (rules level) rule)
    (s : State) : (rule.after s).depth = s.depth := by
  have inside := rules_bounded level
  have unary : Level (Parse.unary (rules level)) := (unary_within inside).imp fun _ _ _ => trivial
  have factor := leftAssociative_level [.slash, .star] .binary unary
  have term := leftAssociative_level [.minus, .plus] .binary factor
  have comparison :=
    leftAssociative_level [.greater, .greaterEqual, .less, .lessEqual] .binary term
  have equality := leftAssociative_level [.bangEqual, .equalEqual] .binary comparison
  have conjunction := leftAssociative_level [.andKw] .logical equality
  cases h with
  | declaration => exact (declaration_gives (declarationRule_within inside) s).1
  | classDeclaration => exact (classDeclaration_within inside).depth s
  | varDeclaration => exact (varDeclaration_within inside).depth s
  | function kind => exact (function_within inside kind).depth s
  | functionBody kind => exact (functionBody_within inside kind).depth s
  | statement => exact (statement_within inside).depth s
  | statementBody => exact (statementBody_within inside).depth s
  | forStatement => exact (forStatement_within inside).depth s
  | forInitializer => exact (forInitializer_within inside).depth s
  | ifStatement => exact (ifStatement_within inside).depth s
  | guarded => exact (guarded_within inside).depth s
  | printStatement => exact (printStatement_within inside).depth s
  | returnStatement keyword => exact (returnStatement_within inside keyword).depth s
  | whileStatement => exact (whileStatement_within inside).depth s
  | block => exact (block_gives (declarationRule_within inside)).depth s
  | expressionStatement => exact (expressionStatement_within inside).depth s
  | expression => exact (expression_within inside).depth s
  | assignment => exact (assignment_within inside).depth s
  | disjunction => exact (disjunction_within inside).depth s
  | conjunction => exact conjunction.depth s
  | equality => exact equality.depth s
  | comparison => exact comparison.depth s
  | term => exact term.depth s
  | factor => exact factor.depth s
  | unary => exact unary.depth s
  | call => exact (call_within inside).depth s
  | finishCall callee => exact (finishCall_within inside callee).depth s
  | primary => exact (primary_within inside).depth s

end GrammarRule

/-- A rule of the grammar has its states from where it starts to where it ends, whatever comes of
it. None of them is deeper than the limit, and the last one is as deep as the first. No state stands
in front of one before it or lacks an error that was recorded by then. -/
theorem rule_keeps_depth {α : Type} {level : Nat} {rule : Rule α}
    (h : GrammarRule (rules level) rule) {s : State} (shallow : s.depth ≤ maxDepth) :
    (∃ visited, Visits rule visited) ∧ ∀ visited, Visits rule visited →
      (visited s).head? = some s ∧ (visited s).getLast? = some (rule.after s) ∧
      (∀ t ∈ visited s, t.depth ≤ maxDepth) ∧ (rule.after s).depth = s.depth ∧
      (visited s).Pairwise fun t u =>
        u.ahead <:+ t.ahead ∧ u.stop = t.stop ∧ t.errors.toList <+: u.errors.toList := by
  refine ⟨h.composed, fun visited within => ?_⟩
  have course := within.course s
  exact ⟨course.first, course.last, course.level shallow, h.depth s,
    course.pairwise.imp fun moved => ⟨moved.ahead, moved.stop, moved.errors⟩⟩

/-- One level below the limit the second of two parentheses is too deep, and the expression is left
at the depth it was entered at. -/
theorem rule_keeps_depth_limit :
    let s : State := ⟨[⟨.leftParen, "(", none, 1⟩, ⟨.leftParen, "(", none, 1⟩], .eof 1, 255, false, #[]⟩
    GrammarRule (rules 3) (expression (rules 3)) ∧ s.depth ≤ maxDepth ∧
      (expression (rules 3)).after s = { s with ahead := [⟨.leftParen, "(", none, 1⟩] } ∧
      ∃ visited, Visits (expression (rules 3)) visited ∧
        (visited s).head? = some s ∧ (visited s).getLast? = some ((expression (rules 3)).after s) ∧
        (∀ t ∈ visited s, t.depth ≤ maxDepth) ∧
        ((expression (rules 3)).after s).depth = s.depth ∧
        (visited s).Pairwise fun t u =>
          u.ahead <:+ t.ahead ∧ u.stop = t.stop ∧ t.errors.toList <+: u.errors.toList := by
  intro s
  have shallow : s.depth ≤ maxDepth := by decide
  obtain ⟨⟨visited, within⟩, all⟩ := rule_keeps_depth (.expression : GrammarRule (rules 3) _) shallow
  exact ⟨.expression, shallow, by decide +kernel, visited, within, all visited within⟩

end LoxSyntax.Parse
