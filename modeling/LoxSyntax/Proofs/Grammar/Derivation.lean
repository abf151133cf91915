import LoxSyntax.Parse.Rule
import LoxSyntax.Tree.Stmt

namespace LoxSyntax.Grammar

/-- A token of one kind. -/
abbrev Terminal (kind : TokenKind) := { t : Token // t.kind = kind }

/-- A token of one of these kinds. -/
abbrev Operator (kinds : List TokenKind) := { t : Token // t.kind ∈ kinds }

/-- The levels of operators with two operands, from the loosest to the tightest. -/
inductive Precedence where
  | disjunction | conjunction | equality | comparison | term | factor
  deriving DecidableEq, Repr

/-- What an expression is derived from, from the loosest to the tightest. -/
inductive Grade where
  | expression | assignment | binary (level : Precedence) | unary | call | primary
  deriving DecidableEq, Repr

namespace Precedence

def operators : Precedence → List TokenKind
  | disjunction => [.orKw]
  | conjunction => [.andKw]
  | equality => [.bangEqual, .equalEqual]
  | comparison => [.greater, .greaterEqual, .less, .lessEqual]
  | term => [.minus, .plus]
  | factor => [.slash, .star]

/-- What the operands of this level are derived from. -/
def tighter : Precedence → Grade
  | disjunction => .binary conjunction
  | conjunction => .binary equality
  | equality => .binary comparison
  | comparison => .binary term
  | term => .binary factor
  | factor => .unary

/-- The node of an operator; `and` and `or` have nodes of their own. -/
def node : Precedence → Expr → Token → Expr → Expr
  | disjunction | conjunction => .logical
  | equality | comparison | term | factor => .binary

end Precedence

/-- The symbols of the grammar that stand for phrases. -/
inductive Symbol where
  | expr (grade : Grade)
  | arguments | argumentList | parameters | parameterList
  | optional | initializer | binding
  | function | definition | methods | block | declarations | declaration
  | statement | form | exprStmt | forInit | elseTail
  deriving DecidableEq, Repr

/-- The symbols whose phrases may end in a statement that has no end of its own. -/
def Symbol.mayEndOpen : Symbol → Bool
  | .declaration | .statement | .form | .elseTail => true
  | _ => false

/-- What a phrase denotes. -/
abbrev Symbol.Meaning : Symbol → Type
  | .expr _ => Expr
  | .arguments | .argumentList => List Expr
  | .parameters | .parameterList => List Token
  | .optional | .initializer => Option Expr
  | .function | .definition => Function
  | .methods => List Function
  | .block | .declarations => List Stmt
  | .binding | .declaration | .statement | .form | .exprStmt => Stmt
  | .forInit | .elseTail => Option Stmt

/-- Derivations of phrases; a constructor is a production of the grammar:

    program      → declaration*
    declaration  → "class" IDENTIFIER ( "<" IDENTIFIER )? "\x7b" function* "\x7d"
                 | "fun" function | "var" binding | statement
    function     → definition
    definition   → IDENTIFIER "(" parameters? ")" block
    parameters   → IDENTIFIER ( "," IDENTIFIER )*
    binding      → IDENTIFIER ( "=" expression )? ";"
    block        → "\x7b" declaration* "\x7d"
    statement    → exprStmt | "print" expression ";" | "return" expression? ";"
                 | "while" "(" expression ")" statement
                 | "for" "(" forInit expression? ";" expression? ")" statement
                 | "if" "(" expression ")" statement ( "else" statement )? | block
    exprStmt     → expression ";"
    forInit      → ";" | "var" binding | exprStmt
    expression   → assignment
    assignment   → ( call "." )? IDENTIFIER "=" assignment | logic_or
    logic_or, …, factor → tighter ( operator tighter )*
    unary        → ( "!" | "-" ) unary | call
    call         → primary ( "(" arguments? ")" | "." IDENTIFIER )*
    arguments    → expression ( "," expression )*
    primary      → NUMBER | STRING | "true" | "false" | "nil" | "this" | "(" expression ")"
                 | IDENTIFIER | "super" "." IDENTIFIER

A repetition that builds on what is to its left is derived from its last item: `a ( b )*` is an `a`,
or such a repetition and one more `b`. A derivation spells its tokens and denotes its tree. -/
inductive Derivation : Symbol → Type where
  | falsehood (t : Terminal .falseKw) : Derivation (.expr .primary)
  | truth (t : Terminal .trueKw) : Derivation (.expr .primary)
  | nothing (t : Terminal .nilKw) : Derivation (.expr .primary)
  | number (t : Terminal .number) : Derivation (.expr .primary)
  | string (t : Terminal .string) : Derivation (.expr .primary)
  | superMethod (keyword : Terminal .superKw) (dot : Terminal .dot)
      (method : Terminal .identifier) : Derivation (.expr .primary)
  | this (t : Terminal .thisKw) : Derivation (.expr .primary)
  | reference (t : Terminal .identifier) : Derivation (.expr .primary)
  | group (opening : Terminal .leftParen) (inner : Derivation (.expr .expression))
      (closing : Terminal .rightParen) : Derivation (.expr .primary)
  | ofPrimary (inner : Derivation (.expr .primary)) : Derivation (.expr .call)
  | apply (callee : Derivation (.expr .call)) (opening : Terminal .leftParen)
      (args : Derivation .arguments) (closing : Terminal .rightParen) : Derivation (.expr .call)
  | property (object : Derivation (.expr .call)) (dot : Terminal .dot)
      (name : Terminal .identifier) : Derivation (.expr .call)
  | ofCall (inner : Derivation (.expr .call)) : Derivation (.expr .unary)
  | operate (operator : Operator [.bang, .minus]) (operand : Derivation (.expr .unary)) :
      Derivation (.expr .unary)
  | ofTighter {level : Precedence} (inner : Derivation (.expr level.tighter)) :
      Derivation (.expr (.binary level))
  | fold {level : Precedence} (left : Derivation (.expr (.binary level)))
      (operator : Operator level.operators) (right : Derivation (.expr level.tighter)) :
      Derivation (.expr (.binary level))
  | ofDisjunction (inner : Derivation (.expr (.binary .disjunction))) :
      Derivation (.expr .assignment)
  | assign (name : Terminal .identifier) (equal : Terminal .equal)
      (value : Derivation (.expr .assignment)) : Derivation (.expr .assignment)
  | assignProperty (object : Derivation (.expr .call)) (dot : Terminal .dot)
      (name : Terminal .identifier) (equal : Terminal .equal)
      (value : Derivation (.expr .assignment)) : Derivation (.expr .assignment)
  | expression (inner : Derivation (.expr .assignment)) : Derivation (.expr .expression)
  | noArguments : Derivation .arguments
  | someArguments (list : Derivation .argumentList) : Derivation .arguments
  | oneArgument (value : Derivation (.expr .expression)) : Derivation .argumentList
  | anotherArgument (list : Derivation .argumentList) (comma : Terminal .comma)
      (value : Derivation (.expr .expression)) : Derivation .argumentList
  | noParameters : Derivation .parameters
  | someParameters (list : Derivation .parameterList) : Derivation .parameters
  | oneParameter (name : Terminal .identifier) : Derivation .parameterList
  | anotherParameter (list : Derivation .parameterList) (comma : Terminal .comma)
      (name : Terminal .identifier) : Derivation .parameterList
  | absent : Derivation .optional
  | present (value : Derivation (.expr .expression)) : Derivation .optional
  | noInitializer : Derivation .initializer
  | initializer (equal : Terminal .equal) (value : Derivation (.expr .expression)) :
      Derivation .initializer
  | binding (name : Terminal .identifier) (value : Derivation .initializer)
      (semicolon : Terminal .semicolon) : Derivation .binding
  | function (inner : Derivation .definition) : Derivation .function
  | definition (name : Terminal .identifier) (opening : Terminal .leftParen)
      (params : Derivation .parameters) (closing : Terminal .rightParen)
      (body : Derivation .block) : Derivation .definition
  | noMethods : Derivation .methods
  | anotherMethod (methods : Derivation .methods) (method : Derivation .function) :
      Derivation .methods
  | block (opening : Terminal .leftBrace) (body : Derivation .declarations)
      (closing : Terminal .rightBrace) : Derivation .block
  | noDeclarations : Derivation .declarations
  | moreDeclarations (first : Derivation .declaration) (more : Derivation .declarations) :
      Derivation .declarations
  | classDecl (keyword : Terminal .classKw) (name : Terminal .identifier)
      (superclass : Option (Terminal .less × Terminal .identifier))
      (opening : Terminal .leftBrace) (methods : Derivation .methods)
      (closing : Terminal .rightBrace) : Derivation .declaration
  | funDecl (keyword : Terminal .funKw) (decl : Derivation .function) : Derivation .declaration
  | varDecl (keyword : Terminal .varKw) (decl : Derivation .binding) : Derivation .declaration
  | ofStatement (inner : Derivation .statement) : Derivation .declaration
  | statement (inner : Derivation .form) : Derivation .statement
  | ofExprStmt (inner : Derivation .exprStmt) : Derivation .form
  | print (keyword : Terminal .printKw) (value : Derivation (.expr .expression))
      (semicolon : Terminal .semicolon) : Derivation .form
  | ret (keyword : Terminal .returnKw) (value : Derivation .optional)
      (semicolon : Terminal .semicolon) : Derivation .form
  | whileLoop (keyword : Terminal .whileKw) (opening : Terminal .leftParen)
      (condition : Derivation (.expr .expression)) (closing : Terminal .rightParen)
      (body : Derivation .statement) : Derivation .form
  | forLoop (keyword : Terminal .forKw) (opening : Terminal .leftParen)
      (init : Derivation .forInit) (condition : Derivation .optional)
      (semicolon : Terminal .semicolon) (increment : Derivation .optional)
      (closing : Terminal .rightParen) (body : Derivation .statement) : Derivation .form
  | ifElse (keyword : Terminal .ifKw) (opening : Terminal .leftParen)
      (condition : Derivation (.expr .expression)) (closing : Terminal .rightParen)
      (thenBranch : Derivation .statement) (tail : Derivation .elseTail) : Derivation .form
  | ofBlock (inner : Derivation .block) : Derivation .form
  | exprStmt (value : Derivation (.expr .expression)) (semicolon : Terminal .semicolon) :
      Derivation .exprStmt
  | noInit (semicolon : Terminal .semicolon) : Derivation .forInit
  | varInit (keyword : Terminal .varKw) (decl : Derivation .binding) : Derivation .forInit
  | exprInit (inner : Derivation .exprStmt) : Derivation .forInit
  | noElse : Derivation .elseTail
  | elseBranch (keyword : Terminal .elseKw) (branch : Derivation .statement) :
      Derivation .elseTail

/-- A program is a sequence of declarations; the token that closes it is no part of the phrase. -/
abbrev Program := Derivation .declarations

/-- Statements in a block of their own, unless there is just one. -/
def enclosed : List Stmt → Stmt
  | [s] => s
  | body => .block body

/-- What a `for` loop stands for. A clause that is left out leaves nothing behind, and a condition
that is left out is true. -/
def loop (init : Option Stmt) (condition increment : Option Expr) (body : Stmt) : Stmt :=
  enclosed (init.toList ++
    [.whileLoop (condition.getD (.constant (.bool true)))
      (enclosed (body :: increment.toList.map .expression))])

/-- Whether a tree is an operator with its operands. -/
def isOperation : Expr → Bool
  | .binary .. | .logical .. | .unary .. => true
  | _ => false

namespace Derivation

/-- The tokens that are derived, in order. -/
def tokens : {n : Symbol} → Derivation n → List Token
  | _, falsehood t | _, truth t | _, nothing t | _, number t | _, string t | _, this t
  | _, reference t => [t.1]
  | _, superMethod keyword dot method => [keyword.1, dot.1, method.1]
  | _, group o e c => o.1 :: (e.tokens ++ [c.1])
  | _, ofPrimary d | _, ofCall d | _, ofTighter d | _, ofDisjunction d | _, expression d
  | _, someArguments d | _, oneArgument d | _, someParameters d | _, present d | _, ofStatement d
  | _, statement d | _, ofExprStmt d | _, ofBlock d | _, exprInit d | _, function d => d.tokens
  | _, apply callee o args c => callee.tokens ++ o.1 :: (args.tokens ++ [c.1])
  | _, property object dot name => object.tokens ++ [dot.1, name.1]
  | _, operate operator operand => operator.1 :: operand.tokens
  | _, fold left operator right => left.tokens ++ operator.1 :: right.tokens
  | _, assign name equal value => name.1 :: equal.1 :: value.tokens
  | _, assignProperty object dot name equal value =>
    object.tokens ++ dot.1 :: name.1 :: equal.1 :: value.tokens
  | _, noArguments | _, noParameters | _, absent | _, noInitializer | _, noMethods
  | _, noDeclarations | _, noElse => []
  | _, anotherArgument list comma value => list.tokens ++ comma.1 :: value.tokens
  | _, oneParameter name => [name.1]
  | _, anotherParameter list comma name => list.tokens ++ [comma.1, name.1]
  | _, initializer equal value => equal.1 :: value.tokens
  | _, binding name value semicolon => name.1 :: (value.tokens ++ [semicolon.1])
  | _, definition name o params c body => name.1 :: o.1 :: (params.tokens ++ c.1 :: body.tokens)
  | _, anotherMethod methods method => methods.tokens ++ method.tokens
  | _, block o body c => o.1 :: (body.tokens ++ [c.1])
  | _, moreDeclarations first more => first.tokens ++ more.tokens
  | _, classDecl keyword name superclass o methods c =>
    keyword.1 :: name.1 :: (superclass.elim [] (fun s => [s.1.1, s.2.1]) ++
      o.1 :: (methods.tokens ++ [c.1]))
  | _, funDecl keyword d => keyword.1 :: d.tokens
  | _, varDecl keyword d | _, varInit keyword d => keyword.1 :: d.tokens
  | _, print keyword value semicolon => keyword.1 :: (value.tokens ++ [semicolon.1])
  | _, ret keyword value semicolon => keyword.1 :: (value.tokens ++ [semicolon.1])
  | _, whileLoop keyword o condition c body =>
    keyword.1 :: o.1 :: (condition.tokens ++ c.1 :: body.tokens)
  | _, forLoop keyword o init condition semicolon increment c body =>
    keyword.1 :: o.1 :: (init.tokens ++ (condition.tokens ++ semicolon.1 ::
      (increment.tokens ++ c.1 :: body.tokens)))
  | _, ifElse keyword o condition c thenBranch tail =>
    keyword.1 :: o.1 :: (condition.tokens ++ c.1 :: (thenBranch.tokens ++ tail.tokens))
  | _, exprStmt value semicolon => value.tokens ++ [semicolon.1]
  | _, noInit semicolon => [semicolon.1]
  | _, elseBranch keyword branch => keyword.1 :: branch.tokens

/-- The tree that is derived. A number or a string stands for the value it carries. -/
def tree : {n : Symbol} → Derivation n → n.Meaning
  | _, falsehood _ => Expr.constant (.bool false)
  | _, truth _ => Expr.constant (.bool true)
  | _, nothing _ => Expr.constant .nil
  | _, number t | _, string t => Expr.constant (t.1.literal.elim .nil .literal)
  | _, superMethod keyword _ method => Expr.super keyword.1 method.1
  | _, this t => Expr.this t.1
  | _, reference t => Expr.reference t.1
  | _, group _ e _ => Expr.grouping e.tree
  | _, ofPrimary d | _, ofCall d | _, ofTighter d | _, ofDisjunction d | _, expression d => d.tree
  | _, apply callee _ args c => Expr.call callee.tree c.1 args.tree
  | _, property object _ name => Expr.get object.tree name.1
  | _, operate operator operand => Expr.unary operator.1 operand.tree
  | _, @fold level left operator right => level.node left.tree operator.1 right.tree
  | _, assign name _ value => Expr.assign name.1 value.tree
  | _, assignProperty object _ name _ value => Expr.set object.tree name.1 value.tree
  | _, noArguments => []
  | _, someArguments list => list.tree
  | _, oneArgument value => [value.tree]
  | _, anotherArgument list _ value => list.tree ++ [value.tree]
  | _, noParameters => []
  | _, someParameters list => list.tree
  | _, oneParameter name => [name.1]
  | _, anotherParameter list _ name => list.tree ++ [name.1]
  | _, absent | _, noInitializer => none
  | _, present value => some value.tree
  | _, initializer _ value => some value.tree
  | _, binding name value _ => Stmt.varDecl name.1 value.tree
  | _, function d => d.tree
  | _, definition name _ params _ body => ⟨name.1, params.tree, body.tree⟩
  | _, noMethods => []
  | _, anotherMethod methods method => methods.tree ++ [method.tree]
  | _, block _ body _ => body.tree
  | _, noDeclarations => []
  | _, moreDeclarations first more => first.tree :: more.tree
  | _, classDecl _ name superclass _ methods _ =>
    Stmt.classDecl name.1 (superclass.map (·.2.1)) methods.tree
  | _, funDecl _ d => Stmt.function d.tree
  | _, varDecl _ d | _, ofStatement d | _, statement d | _, ofExprStmt d => d.tree
  | _, ofBlock d => Stmt.block d.tree
  | _, print _ value _ => Stmt.print value.tree
  | _, ret keyword value _ => Stmt.ret keyword.1 value.tree
  | _, whileLoop _ _ condition _ body => Stmt.whileLoop condition.tree body.tree
  | _, forLoop _ _ init condition _ increment _ body =>
    loop init.tree condition.tree increment.tree body.tree
  | _, ifElse _ _ condition _ thenBranch tail =>
    Stmt.ifElse condition.tree thenBranch.tree tail.tree
  | _, exprStmt value _ => Stmt.expression value.tree
  | _, noInit _ | _, noElse => none
  | _, varInit _ d => some d.tree
  | _, exprInit d => some d.tree
  | _, elseBranch _ branch => some branch.tree

/-- How many levels are nested: one for each use of `statement` and of `expression`, for each
function or method, for each value of an assignment and each operand of `!` and `-`. The `if` of
an `else if` is a use of `statement` like any other. -/
def nesting : {n : Symbol} → Derivation n → Nat
  | _, falsehood _ | _, truth _ | _, nothing _ | _, number _ | _, string _ | _, superMethod ..
  | _, this _ | _, reference _ | _, noArguments | _, noParameters | _, someParameters _
  | _, oneParameter _ | _, anotherParameter .. | _, absent | _, noInitializer | _, noMethods
  | _, noDeclarations | _, noInit _ | _, noElse => 0
  | _, group _ d _ | _, ofPrimary d | _, property d .. | _, ofCall d | _, ofTighter d
  | _, ofDisjunction d | _, someArguments d | _, oneArgument d | _, present d | _, initializer _ d
  | _, binding _ d _ | _, block _ d _ | _, classDecl _ _ _ _ d _ | _, funDecl _ d | _, varDecl _ d
  | _, ofStatement d | _, ofExprStmt d | _, print _ d _ | _, ret _ d _ | _, ofBlock d
  | _, exprStmt d _ | _, varInit _ d | _, exprInit d | _, elseBranch _ d
  | _, definition _ _ _ _ d => d.nesting
  | _, operate _ d | _, assign _ _ d | _, expression d | _, statement d
  | _, function d => d.nesting + 1
  | _, apply callee _ args _ => max callee.nesting args.nesting
  | _, fold left _ right => max left.nesting right.nesting
  | _, assignProperty object _ _ _ value => max object.nesting (value.nesting + 1)
  | _, anotherArgument list _ value => max list.nesting value.nesting
  | _, anotherMethod methods method => max methods.nesting method.nesting
  | _, moreDeclarations first more => max first.nesting more.nesting
  | _, whileLoop _ _ condition _ body => max condition.nesting body.nesting
  | _, forLoop _ _ init condition _ increment _ body =>
    max init.nesting (max condition.nesting (max increment.nesting body.nesting))
  | _, ifElse _ _ condition _ thenBranch tail =>
    max condition.nesting (max thenBranch.nesting tail.nesting)

/-- Whether a phrase ends in an `if` without an `else`, which an `else` behind it would join. -/
def endsOpen : {n : Symbol} → Derivation n → Bool
  | _, noElse => true
  | _, ofStatement d | _, statement d | _, whileLoop _ _ _ _ d | _, forLoop _ _ _ _ _ _ _ d
  | _, ifElse _ _ _ _ _ d | _, elseBranch _ d => d.endsOpen
  | _, _ => false

/-- No other phrase ends in an `if`. -/
theorem endsOpen_eq_false {n : Symbol} (d : Derivation n) (h : n.mayEndOpen = false) :
    d.endsOpen = false := by
  cases d with
  | ofStatement d | statement d | ofExprStmt d | print _ d _ | ret _ d _ | whileLoop _ _ _ _ d
  | forLoop _ _ _ _ _ _ _ d | ifElse _ _ _ _ _ d | ofBlock d | noElse | elseBranch _ d
  | classDecl | funDecl | varDecl => cases h
  | _ => rfl

/-- Whether an `else` follows. -/
def hasElse : Derivation .elseTail → Bool
  | noElse => false
  | elseBranch .. => true

/-- Every `else` belongs to the nearest `if`, as no branch in front of an `else` ends in an `if`
that could take it, and no call and no function has too long a list. -/
def Proper : {n : Symbol} → Derivation n → Prop
  | _, falsehood _ | _, truth _ | _, nothing _ | _, number _ | _, string _ | _, superMethod ..
  | _, this _ | _, reference _ | _, noArguments | _, noParameters | _, someParameters _
  | _, oneParameter _ | _, anotherParameter .. | _, absent | _, noInitializer | _, noMethods
  | _, noDeclarations | _, noInit _ | _, noElse => True
  | _, group _ d _ | _, ofPrimary d | _, property d .. | _, ofCall d | _, ofTighter d
  | _, ofDisjunction d | _, someArguments d | _, oneArgument d | _, present d | _, initializer _ d
  | _, binding _ d _ | _, block _ d _ | _, classDecl _ _ _ _ d _ | _, funDecl _ d | _, varDecl _ d
  | _, ofStatement d | _, ofExprStmt d | _, print _ d _ | _, ret _ d _ | _, ofBlock d
  | _, exprStmt d _ | _, varInit _ d | _, exprInit d | _, elseBranch _ d | _, operate _ d
  | _, assign _ _ d | _, expression d | _, statement d | _, function d => d.Proper
  | _, definition _ _ params _ body => params.tree.length ≤ Parse.maxArguments ∧ body.Proper
  | _, apply callee _ args _ =>
    callee.Proper ∧ args.Proper ∧ args.tree.length ≤ Parse.maxArguments
  | _, fold left _ right => left.Proper ∧ right.Proper
  | _, assignProperty object _ _ _ value => object.Proper ∧ value.Proper
  | _, anotherArgument list _ value => list.Proper ∧ value.Proper
  | _, anotherMethod methods method => methods.Proper ∧ method.Proper
  | _, moreDeclarations first more => first.Proper ∧ more.Proper
  | _, whileLoop _ _ condition _ body => condition.Proper ∧ body.Proper
  | _, forLoop _ _ init condition _ increment _ body =>
    init.Proper ∧ condition.Proper ∧ increment.Proper ∧ body.Proper
  | _, ifElse _ _ condition _ thenBranch tail =>
    condition.Proper ∧ thenBranch.Proper ∧ tail.Proper ∧
      (tail.hasElse = true → thenBranch.endsOpen = false)

/-- Parameters are counted where they are used. -/
theorem proper_parameterList (d : Derivation .parameterList) : d.Proper := by
  cases d <;> trivial

theorem proper_parameters (d : Derivation .parameters) : d.Proper := by
  cases d <;> trivial

/-- Two derivations of expressions that differ in how many productions of one symbol they go
through, and in nothing that counts. -/
structure Alike {g g' : Grade} (d : Derivation (.expr g)) (d' : Derivation (.expr g')) : Prop where
  tree : d.tree = d'.tree
  tokens : d.tokens = d'.tokens
  nesting : d.nesting = d'.nesting
  proper : d.Proper ↔ d'.Proper

namespace Alike

theorem refl {g : Grade} (d : Derivation (.expr g)) : d.Alike d := ⟨rfl, rfl, rfl, Iff.rfl⟩

theorem trans {g g' g'' : Grade} {d : Derivation (.expr g)} {d' : Derivation (.expr g')}
    {d'' : Derivation (.expr g'')} (h : d.Alike d') (h' : d'.Alike d'') : d.Alike d'' :=
  ⟨h.tree.trans h'.tree, h.tokens.trans h'.tokens, h.nesting.trans h'.nesting,
    h.proper.trans h'.proper⟩

end Alike

/-- What is no operation is derived from something tighter. -/
theorem alike_tighter {level : Precedence} (d : Derivation (.expr (.binary level)))
    (h : isOperation d.tree = false) : ∃ d' : Derivation (.expr level.tighter), d.Alike d' := by
  cases d with
  | ofTighter d' => exact ⟨d', rfl, rfl, rfl, Iff.rfl⟩
  | fold left operator right => cases level <;> cases h

theorem alike_call_of_unary (d : Derivation (.expr .unary)) (h : isOperation d.tree = false) :
    ∃ d' : Derivation (.expr .call), d.Alike d' := by
  cases d with
  | ofCall d' => exact ⟨d', rfl, rfl, rfl, Iff.rfl⟩
  | operate operator operand => cases h

theorem alike_call (d : Derivation (.expr (.binary .disjunction)))
    (h : isOperation d.tree = false) : ∃ d' : Derivation (.expr .call), d.Alike d' := by
  obtain ⟨d₁, h₁⟩ := d.alike_tighter h
  obtain ⟨d₂, h₂⟩ := d₁.alike_tighter (h₁.tree ▸ h)
  have same₂ := h₁.trans h₂
  obtain ⟨d₃, h₃⟩ := d₂.alike_tighter (same₂.tree ▸ h)
  have same₃ := same₂.trans h₃
  obtain ⟨d₄, h₄⟩ := d₃.alike_tighter (same₃.tree ▸ h)
  have same₄ := same₃.trans h₄
  obtain ⟨d₅, h₅⟩ := d₄.alike_tighter (same₄.tree ▸ h)
  have same₅ := same₄.trans h₅
  obtain ⟨d₆, h₆⟩ := d₅.alike_tighter (same₅.tree ▸ h)
  have same₆ := same₅.trans h₆
  obtain ⟨d₇, h₇⟩ := d₆.alike_call_of_unary (same₆.tree ▸ h)
  exact ⟨d₇, same₆.trans h₇⟩

theorem alike_ofTighter {level : Precedence} (d : Derivation (.expr level.tighter)) :
    d.Alike (.ofTighter d : Derivation (.expr (.binary level))) :=
  ⟨rfl, rfl, rfl, Iff.rfl⟩

/-- An operand of `!` and `-` may stand as an operand of any level. -/
theorem alike_operand (d : Derivation (.expr .unary)) (level : Precedence) :
    ∃ d' : Derivation (.expr level.tighter), d.Alike d' := by
  have factor := @alike_ofTighter .factor d
  have term := factor.trans (@alike_ofTighter .term _)
  have comparison := term.trans (@alike_ofTighter .comparison _)
  have equality := comparison.trans (@alike_ofTighter .equality _)
  have conjunction := equality.trans (@alike_ofTighter .conjunction _)
  cases level with
  | disjunction => exact ⟨_, conjunction⟩
  | conjunction => exact ⟨_, equality⟩
  | equality => exact ⟨_, comparison⟩
  | comparison => exact ⟨_, term⟩
  | term => exact ⟨_, factor⟩
  | factor => exact ⟨_, .refl d⟩

/-- An operation of any level may stand where any expression may. -/
theorem alike_assignment {level : Precedence} (d : Derivation (.expr (.binary level))) :
    ∃ d' : Derivation (.expr .assignment), d.Alike d' := by
  have disjunction (d : Derivation (.expr (.binary .disjunction))) :
      d.Alike (.ofDisjunction d : Derivation (.expr .assignment)) :=
    ⟨rfl, rfl, rfl, Iff.rfl⟩
  have conjunction (d : Derivation (.expr (.binary .conjunction))) :=
    (@alike_ofTighter .disjunction d).trans (disjunction _)
  have equality (d : Derivation (.expr (.binary .equality))) :=
    (@alike_ofTighter .conjunction d).trans (conjunction _)
  have comparison (d : Derivation (.expr (.binary .comparison))) :=
    (@alike_ofTighter .equality d).trans (equality _)
  have term (d : Derivation (.expr (.binary .term))) :=
    (@alike_ofTighter .comparison d).trans (comparison _)
  have factor (d : Derivation (.expr (.binary .factor))) :=
    (@alike_ofTighter .term d).trans (term _)
  cases level with
  | disjunction => exact ⟨_, disjunction d⟩
  | conjunction => exact ⟨_, conjunction d⟩
  | equality => exact ⟨_, equality d⟩
  | comparison => exact ⟨_, comparison d⟩
  | term => exact ⟨_, term d⟩
  | factor => exact ⟨_, factor d⟩

end Derivation

end LoxSyntax.Grammar
