import LoxSyntax.Proofs.Grammar.Lookahead

namespace LoxSyntax

open Grammar

/-- The token is one of these, and of one of these kinds. -/
structure Token.Among (tokens : List Token) (kinds : List TokenKind) (t : Token) : Prop where
  stored : t ∈ tokens
  kind : t.kind ∈ kinds

theorem Token.Among.mono {tokens : List Token} {kinds kinds' : List TokenKind} {t : Token}
    (h : t.Among tokens kinds) (sub : kinds ⊆ kinds') : t.Among tokens kinds' :=
  ⟨h.stored, sub h.kind⟩

/-- How tightly an expression holds together: assignments least, then operators with two operands as
they pull, then those with one. Calls, properties and primary expressions hold most. -/
def Expr.level : Expr → Nat
  | assign .. | set .. => strength .equal
  | binary _ operator _ | logical _ operator _ => strength operator.kind
  | unary .. => 8
  | call .. | get .. | grouping _ | constant _ | super .. | this _ | reference _ => 9

/-- An expression over these tokens, in all its nodes. -/
inductive Expr.WellFormed (tokens : List Token) : Expr → Prop where
  | assign {name : Token} {value : Expr} (named : name.Among tokens [.identifier])
      (inside : value.WellFormed tokens) : WellFormed tokens (.assign name value)
  | binary {left right : Expr} {operator : Token}
      (between : operator.Among tokens [.bangEqual, .equalEqual, .greater, .greaterEqual, .less,
        .lessEqual, .minus, .plus, .slash, .star])
      (first : left.WellFormed tokens) (second : right.WellFormed tokens)
      (loose : strength operator.kind ≤ left.level)
      (tight : strength operator.kind < right.level) :
      WellFormed tokens (.binary left operator right)
  | call {callee : Expr} {paren : Token} {arguments : List Expr}
      (closing : paren.Among tokens [.rightParen]) (called : callee.WellFormed tokens)
      (each : ∀ e ∈ arguments, e.WellFormed tokens) (tight : callee.level = 9) :
      WellFormed tokens (.call callee paren arguments)
  | get {object : Expr} {name : Token} (named : name.Among tokens [.identifier])
      (inside : object.WellFormed tokens) (tight : object.level = 9) :
      WellFormed tokens (.get object name)
  | grouping {inner : Expr} (inside : inner.WellFormed tokens) : WellFormed tokens (.grouping inner)
  | constant (value : Constant) : WellFormed tokens (.constant value)
  | logical {left right : Expr} {operator : Token} (between : operator.Among tokens [.andKw, .orKw])
      (first : left.WellFormed tokens) (second : right.WellFormed tokens)
      (loose : strength operator.kind ≤ left.level)
      (tight : strength operator.kind < right.level) :
      WellFormed tokens (.logical left operator right)
  | set {object value : Expr} {name : Token} (named : name.Among tokens [.identifier])
      (first : object.WellFormed tokens) (second : value.WellFormed tokens)
      (tight : object.level = 9) : WellFormed tokens (.set object name value)
  | super {keyword method : Token} (opening : keyword.Among tokens [.superKw])
      (named : method.Among tokens [.identifier]) : WellFormed tokens (.super keyword method)
  | this {keyword : Token} (only : keyword.Among tokens [.thisKw]) :
      WellFormed tokens (.this keyword)
  | unary {operator : Token} {right : Expr} (opening : operator.Among tokens [.bang, .minus])
      (inside : right.WellFormed tokens) (tight : 8 ≤ right.level) :
      WellFormed tokens (.unary operator right)
  | reference {name : Token} (named : name.Among tokens [.identifier]) :
      WellFormed tokens (.reference name)

mutual

/-- A statement or a declaration over these tokens, in all its nodes. -/
inductive Stmt.WellFormed (tokens : List Token) : Stmt → Prop where
  | block {body : List Stmt} (each : ∀ s ∈ body, s.WellFormed tokens) :
      Stmt.WellFormed tokens (.block body)
  | classDecl {name : Token} {superclass : Option Token} {methods : List Function}
      (named : name.Among tokens [.identifier])
      (parent : ∀ t ∈ superclass, t.Among tokens [.identifier])
      (each : ∀ m ∈ methods, m.WellFormed tokens) :
      Stmt.WellFormed tokens (.classDecl name superclass methods)
  | expression {value : Expr} (inside : value.WellFormed tokens) :
      Stmt.WellFormed tokens (.expression value)
  | function {decl : Function} (inside : decl.WellFormed tokens) :
      Stmt.WellFormed tokens (.function decl)
  | ifElse {condition : Expr} {thenBranch : Stmt} {elseBranch : Option Stmt}
      (tested : condition.WellFormed tokens) (first : thenBranch.WellFormed tokens)
      (second : ∀ s ∈ elseBranch, s.WellFormed tokens) :
      Stmt.WellFormed tokens (.ifElse condition thenBranch elseBranch)
  | print {value : Expr} (inside : value.WellFormed tokens) : Stmt.WellFormed tokens (.print value)
  | ret {keyword : Token} {value : Option Expr} (opening : keyword.Among tokens [.returnKw])
      (inside : ∀ e ∈ value, e.WellFormed tokens) : Stmt.WellFormed tokens (.ret keyword value)
  | varDecl {name : Token} {initializer : Option Expr} (named : name.Among tokens [.identifier])
      (inside : ∀ e ∈ initializer, e.WellFormed tokens) :
      Stmt.WellFormed tokens (.varDecl name initializer)
  | whileLoop {condition : Expr} {body : Stmt} (tested : condition.WellFormed tokens)
      (inside : body.WellFormed tokens) : Stmt.WellFormed tokens (.whileLoop condition body)

/-- A function or a method over these tokens, in all its nodes. -/
inductive Function.WellFormed (tokens : List Token) : Function → Prop where
  | mk {name : Token} {params : List Token} {body : List Stmt}
      (named : name.Among tokens [.identifier])
      (taken : ∀ t ∈ params, t.Among tokens [.identifier])
      (each : ∀ s ∈ body, s.WellFormed tokens) :
      Function.WellFormed tokens ⟨name, params, body⟩

end

/-- An operand that holds together at least as tightly as this. -/
structure Expr.Operand (tokens : List Token) (level : Nat) (e : Expr) : Prop where
  formed : e.WellFormed tokens
  tight : level ≤ e.level

/-- The operators of a level make an expression that holds together as they pull. -/
theorem Expr.Operand.node {tokens : List Token} {level : Precedence} {left right : Expr}
    {operator : Token} (first : left.Operand tokens (Grade.binary level).rank)
    (between : operator.Among tokens level.operators)
    (second : right.Operand tokens level.tighter.rank) :
    (level.node left operator right).Operand tokens (Grade.binary level).rank := by
  have strong := Grade.strength_of_mem between.kind
  have loose : strength operator.kind ≤ left.level := strong ▸ first.tight
  have tight : strength operator.kind < right.level := by
    have tighter := second.tight
    rw [Grade.rank_tighter] at tighter
    omega
  cases level with
  | disjunction | conjunction =>
    exact ⟨.logical (between.mono (by decide)) first.formed second.formed loose tight,
      Nat.le_of_eq strong.symm⟩
  | equality | comparison | term | factor =>
    exact ⟨.binary (between.mono (by decide)) first.formed second.formed loose tight,
      Nat.le_of_eq strong.symm⟩

end LoxSyntax
