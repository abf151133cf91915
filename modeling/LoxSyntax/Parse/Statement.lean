import LoxSyntax.Parse.Expression

namespace LoxSyntax.Parse

def statement (inner : Rules) : Rule Stmt := Rule.nested inner.statement

def function (inner : Rules) (kind : FunctionKind) :
    Rule Function := Rule.nested (inner.function kind)

def varDeclaration (inner : Rules) : Rule Stmt := do
  let name ← Rule.name .ofVariable
  let initializer ← Rule.behind .equal (expression inner)
  let _ ← Rule.mark .semicolon .afterVariableDeclaration
  return .varDecl name initializer

/-- Reads one more method, unless the class body or the program ends. -/
def addMethod (inner : Rules) (methods : Array Function) : Rule (Option (Array Function)) := do
  let some t ← Rule.peek? | return none
  if t.kind = .rightBrace then return none
  else return some (methods.push (← function inner .method))

def classDeclaration (inner : Rules) : Rule Stmt := do
  let name ← Rule.name .ofClass
  let superclass ← Rule.behind .less (Rule.name .ofSuperclass)
  let _ ← Rule.mark .leftBrace .beforeClassBody
  let methods ← Rule.iterate (addMethod inner) #[]
  let _ ← Rule.mark .rightBrace .afterClassBody
  return .classDecl name superclass methods.toList

def declarationRule (inner : Rules) : Rule Stmt := do
  if ← Rule.accept .classKw then classDeclaration inner
  else if ← Rule.accept .funKw then .function <$> function inner .function
  else if ← Rule.accept .varKw then varDeclaration inner
  else statement inner

/-- A declaration or a statement. One that fails is left out, and its error recorded. -/
def declaration (inner : Rules) : State → Option Stmt × State := recovering (declarationRule inner)

/-- Declarations up to a token of a kind that closes them, or to the end of the program. Each
uses up a token, so a list as long as the tokens ahead bounds their number. -/
def declarations (inner : Rules) (closes : TokenKind → Bool) :
    List Token → State → List Stmt × State
  | [], s => ([], s)
  | _ :: bound, s =>
    match s.ahead with
    | [] => ([], s)
    | t :: _ =>
      if closes t.kind then ([], s)
      else
        let (first, s) := declaration inner s
        let (more, s) := declarations inner closes bound s
        (first.toList ++ more, s)

/-- The declarations of a block; this rule never fails. -/
def blockBody (inner : Rules) : Rule (List Stmt) := fun s =>
  let (body, s) := declarations inner (· == .rightBrace) s.ahead s
  .ok body s

/-- The declarations of a block and its closing brace. Only a missing brace fails the block. -/
def block (inner : Rules) : Rule (List Stmt) := do
  let body ← blockBody inner
  let _ ← Rule.mark .rightBrace .afterBlock
  return body

def functionBody (inner : Rules) (kind : FunctionKind) : Rule Function := do
  let name ← Rule.name (.ofFunction kind)
  let _ ← Rule.mark .leftParen (.afterFunctionName kind)
  let params ← Rule.before .rightParen
    (Rule.commaSeparated (Rule.name .ofParameter) .tooManyParameters)
  let _ ← Rule.mark .rightParen .afterParameters
  let _ ← Rule.mark .leftBrace (.beforeFunctionBody kind)
  return ⟨name, params.getD [], ← block inner⟩

def expressionStatement (inner : Rules) : Rule Stmt := do
  let value ← expression inner
  let _ ← Rule.mark .semicolon .afterExpression
  return .expression value

def printStatement (inner : Rules) : Rule Stmt := do
  let value ← expression inner
  let _ ← Rule.mark .semicolon .afterValue
  return .print value

def returnStatement (inner : Rules) (keyword : Token) : Rule Stmt := do
  let value ← Rule.before .semicolon (expression inner)
  let _ ← Rule.mark .semicolon .afterReturnValue
  return .ret keyword value

def whileStatement (inner : Rules) : Rule Stmt := do
  let _ ← Rule.mark .leftParen .afterWhile
  let condition ← expression inner
  let _ ← Rule.mark .rightParen .afterCondition
  return .whileLoop condition (← statement inner)

/-- What a `for` loop stands for: the loop, with the increment behind its body, in a block behind
the initializer. A condition left out is true; a block is left out with its reason. -/
def forLoop (initializer : Option Stmt) (condition increment : Option Expr) (body : Stmt) : Stmt :=
  let body := match increment with
    | some increment => .block [body, .expression increment]
    | none => body
  let loop := .whileLoop (condition.getD (.constant (.bool true))) body
  match initializer with
  | some initializer => .block [initializer, loop]
  | none => loop

/-- The first clause of a `for` loop, with the semicolon that ends it. -/
def forInitializer (inner : Rules) : Rule (Option Stmt) := do
  if ← Rule.accept .semicolon then return none
  else if ← Rule.accept .varKw then some <$> varDeclaration inner
  else some <$> expressionStatement inner

def forStatement (inner : Rules) : Rule Stmt := do
  let _ ← Rule.mark .leftParen .afterFor
  let initializer ← forInitializer inner
  let condition ← Rule.before .semicolon (expression inner)
  let _ ← Rule.mark .semicolon .afterLoopCondition
  let increment ← Rule.before .rightParen (expression inner)
  let _ ← Rule.mark .rightParen .afterForClauses
  return forLoop initializer condition increment (← statement inner)

/-- The condition in parentheses and the statement it guards. -/
def guarded (inner : Rules) : Rule (Expr × Stmt) := do
  let _ ← Rule.mark .leftParen .afterIf
  let condition ← expression inner
  let _ ← Rule.mark .rightParen .afterIfCondition
  return (condition, ← statement inner)

/-- The links `else if …` behind a guarded statement, and the last `else` if there is one. Each
link is a level deeper than the one before it. -/
structure Links where
  guards : Array (Expr × Stmt)
  last : Option Stmt

def elseLink (inner : Rules) (links : Links) : Rule (Option Links) := do
  if links.last.isSome then return none
  else if ← Rule.accept .elseKw then
    if ← Rule.accept .ifKw then
      Rule.descend
      return some { links with guards := links.guards.push (← guarded inner) }
    else return some { links with last := some (← statement inner) }
  else return none

def Links.toElse (links : Links) : Option Stmt :=
  links.guards.foldr (fun (condition, body) rest => some (.ifElse condition body rest)) links.last

/-- An `if` and all its links. They are read in a loop, and at the end the depth is that of the
first. -/
def ifStatement (inner : Rules) : Rule Stmt := Rule.keepingDepth do
  let (condition, body) ← guarded inner
  let links ← Rule.iterate (elseLink inner) ⟨#[], none⟩
  return .ifElse condition body links.toElse

def statementBody (inner : Rules) : Rule Stmt := do
  let some t ← Rule.peek? | expressionStatement inner
  match t.kind with
  | .forKw => Rule.skip; forStatement inner
  | .ifKw => Rule.skip; ifStatement inner
  | .printKw => Rule.skip; printStatement inner
  | .returnKw => Rule.skip; returnStatement inner t
  | .whileKw => Rule.skip; whileStatement inner
  | .leftBrace => Rule.skip; .block <$> block inner
  | _ => expressionStatement inner

/-- The rules that may go this many levels further in. At level zero the depth is at its limit,
and no deeper rule is ever entered. -/
def rules : Nat → Rules
  | 0 => ⟨Rule.fail .tooDeep, Rule.fail .tooDeep, Rule.fail .tooDeep, fun _ => Rule.fail .tooDeep⟩
  | level + 1 =>
    let inner := rules level
    ⟨assignment inner, unary inner, statementBody inner, functionBody inner⟩

end LoxSyntax.Parse

namespace LoxSyntax

/-- The statements of the top level that could be read, and the errors in the others. -/
structure Parsed where
  statements : List Stmt
  errors : List ParseError

namespace Parsed

def equals (a b : Parsed) : Bool :=
  Stmt.equalsAll a.statements b.statements && a.errors.isEqv b.errors ParseError.equals

end Parsed

/-- Parses a list of tokens as a program. -/
def parse (tokens : List Token) : Parsed :=
  let start := Parse.State.start tokens
  let (statements, s) :=
    Parse.declarations (Parse.rules Parse.maxDepth) (fun _ => false) start.ahead start
  ⟨statements, s.errors.toList⟩

end LoxSyntax
