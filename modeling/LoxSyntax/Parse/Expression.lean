import LoxSyntax.Parse.Rule
import LoxSyntax.Tree.Stmt

namespace LoxSyntax.Parse

/-- The rules that other rules run one level deeper. Every cycle of the grammar goes through one
of them, so the grammar is built up level by level. -/
structure Rules where
  assignment : Rule Expr
  unary : Rule Expr
  statement : Rule Stmt
  function : FunctionKind → Rule Function

def expression (inner : Rules) : Rule Expr := Rule.nested inner.assignment

/-- Takes an operator and the operand on its right to what is on its left. -/
def foldOperand (operators : List TokenKind) (operand : Rule Expr)
    (build : Expr → Token → Expr → Expr) (left : Expr) : Rule (Option Expr) := do
  let some operator ← Rule.take? operators | return none
  return some (build left operator (← operand))

/-- Reads `operand (operator operand)*` and folds it to the left. -/
def leftAssociative (operators : List TokenKind) (operand : Rule Expr)
    (build : Expr → Token → Expr → Expr) : Rule Expr := do
  Rule.iterate (foldOperand operators operand build) (← operand)

/-- The argument list and the closing parenthesis of a call. -/
def finishCall (inner : Rules) (callee : Expr) : Rule Expr := do
  let arguments ← Rule.before .rightParen
    (Rule.commaSeparated (expression inner) .tooManyArguments)
  let paren ← Rule.mark .rightParen .afterArguments
  return .call callee paren (arguments.getD [])

def primary (inner : Rules) : Rule Expr := do
  let some t ← Rule.peek? | Rule.fail .noExpression
  match t.kind with
  | .falseKw => Rule.skip; return .constant (.bool false)
  | .trueKw => Rule.skip; return .constant (.bool true)
  | .nilKw => Rule.skip; return .constant .nil
  | .number | .string => Rule.skip; return .constant (t.literal.elim .nil .literal)
  | .superKw =>
    Rule.skip
    let _ ← Rule.mark .dot .afterSuper
    return .super t (← Rule.name .ofSuperclassMethod)
  | .thisKw => Rule.skip; return .this t
  | .identifier => Rule.skip; return .reference t
  | .leftParen =>
    Rule.skip
    let e ← expression inner
    let _ ← Rule.mark .rightParen .afterExpression
    return .grouping e
  | _ => Rule.fail .noExpression

/-- Takes a call or a property access to what is on its left. -/
def callOrGet (inner : Rules) (left : Expr) : Rule (Option Expr) := do
  if ← Rule.accept .leftParen then some <$> finishCall inner left
  else Rule.behind .dot (.get left <$> Rule.name .ofProperty)

/-- A primary expression and the calls and property accesses that follow it. -/
def call (inner : Rules) : Rule Expr := do Rule.iterate (callOrGet inner) (← primary inner)

def unary (inner : Rules) : Rule Expr := do
  let some operator ← Rule.take? [.bang, .minus] | call inner
  return .unary operator (← Rule.nested inner.unary)

def factor (inner : Rules) : Rule Expr := leftAssociative [.slash, .star] (unary inner) .binary

def term (inner : Rules) : Rule Expr := leftAssociative [.minus, .plus] (factor inner) .binary

def comparison (inner : Rules) : Rule Expr :=
  leftAssociative [.greater, .greaterEqual, .less, .lessEqual] (term inner) .binary

def equality (inner : Rules) :
    Rule Expr := leftAssociative [.bangEqual, .equalEqual] (comparison inner) .binary

def conjunction (inner : Rules) : Rule Expr := leftAssociative [.andKw] (equality inner) .logical

def disjunction (inner : Rules) : Rule Expr := leftAssociative [.orKw] (conjunction inner) .logical

/-- The target of an assignment is read as an expression, and taken for a target when an `=`
follows. One that cannot be assigned to is reported, and stands without the value. -/
def assignment (inner : Rules) : Rule Expr := do
  let target ← disjunction inner
  let some equal ← Rule.take? [.equal] | return target
  let value ← Rule.nested inner.assignment
  match target with
  | .reference name => return .assign name value
  | .get object name => return .set object name value
  | target =>
    Rule.report ⟨equal, .invalidTarget⟩
    return target

end LoxSyntax.Parse
