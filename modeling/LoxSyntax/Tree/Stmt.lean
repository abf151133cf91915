import LoxSyntax.Tree.Expr

namespace LoxSyntax

mutual

/-- There is no node for a `for` loop, which is a `while` loop in a block. -/
inductive Stmt where
  | block (body : List Stmt)
  | classDecl (name : Token) (superclass : Option Token) (methods : List Function)
  | expression (value : Expr)
  | function (decl : Function)
  | ifElse (condition : Expr) (thenBranch : Stmt) (elseBranch : Option Stmt)
  | print (value : Expr)
  /-- `return value;`; the keyword is kept to point at. -/
  | ret (keyword : Token) (value : Option Expr)
  | varDecl (name : Token) (initializer : Option Expr)
  | whileLoop (condition : Expr) (body : Stmt)

/-- What a function and a method declare. -/
structure Function where
  name : Token
  params : List Token
  body : List Stmt

end

namespace Stmt

mutual

/-- Equality of trees, down to the lines of their tokens, that compares numbers as numbers. -/
def equals : Stmt → Stmt → Bool
  | block b, block b' => equalsAll b b'
  | classDecl n s ms, classDecl n' s' ms' =>
    n.equals n' && s.toList.isEqv s'.toList Token.equals && equalsMethods ms ms'
  | expression e, expression e' => e.equals e'
  | function f, function f' => equalsFunction f f'
  | ifElse c t none, ifElse c' t' none => c.equals c' && t.equals t'
  | ifElse c t (some e), ifElse c' t' (some e') => c.equals c' && t.equals t' && e.equals e'
  | print e, print e' => e.equals e'
  | ret k v, ret k' v' => k.equals k' && v.toList.isEqv v'.toList Expr.equals
  | varDecl n v, varDecl n' v' => n.equals n' && v.toList.isEqv v'.toList Expr.equals
  | whileLoop c b, whileLoop c' b' => c.equals c' && b.equals b'
  | _, _ => false

def equalsAll : List Stmt → List Stmt → Bool
  | [], [] => true
  | s :: ss, s' :: ss' => s.equals s' && equalsAll ss ss'
  | _, _ => false

def equalsFunction : Function → Function → Bool
  | ⟨n, ps, b⟩, ⟨n', ps', b'⟩ =>
    n.equals n' && ps.isEqv ps' Token.equals && equalsAll b b'

def equalsMethods : List Function → List Function → Bool
  | [], [] => true
  | f :: fs, f' :: fs' => equalsFunction f f' && equalsMethods fs fs'
  | _, _ => false

end

end Stmt

end LoxSyntax
