import LoxSyntax.Token

namespace LoxSyntax

/-- The value that a literal expression stands for. -/
inductive Constant where
  | nil
  | bool (value : Bool)
  | literal (value : Literal)
  deriving DecidableEq, Repr

namespace Constant

def equals : Constant → Constant → Bool
  | nil, nil => true
  | bool a, bool b => a == b
  | literal a, literal b => a.equals b
  | _, _ => false

end Constant

/-- A node keeps the tokens that later passes need to point at. -/
inductive Expr where
  /-- `name = value` -/
  | assign (name : Token) (value : Expr)
  | binary (left : Expr) (operator : Token) (right : Expr)
  /-- `callee(arguments)`; the token is the closing parenthesis. -/
  | call (callee : Expr) (paren : Token) (arguments : List Expr)
  /-- `object.name` -/
  | get (object : Expr) (name : Token)
  /-- `(inner)` -/
  | grouping (inner : Expr)
  | constant (value : Constant)
  /-- `left and right`, `left or right` -/
  | logical (left : Expr) (operator : Token) (right : Expr)
  /-- `object.name = value` -/
  | set (object : Expr) (name : Token) (value : Expr)
  /-- `super.method` -/
  | super (keyword method : Token)
  | this (keyword : Token)
  | unary (operator : Token) (right : Expr)
  | reference (name : Token)
  deriving Repr

namespace Expr

mutual

/-- Equality of trees, down to the lines of their tokens, that compares numbers as numbers. -/
def equals : Expr → Expr → Bool
  | assign n v, assign n' v' => n.equals n' && v.equals v'
  | binary l o r, binary l' o' r' => l.equals l' && o.equals o' && r.equals r'
  | call c p as, call c' p' as' => c.equals c' && p.equals p' && equalsAll as as'
  | get o n, get o' n' => o.equals o' && n.equals n'
  | grouping e, grouping e' => e.equals e'
  | constant v, constant v' => v.equals v'
  | logical l o r, logical l' o' r' => l.equals l' && o.equals o' && r.equals r'
  | set o n v, set o' n' v' => o.equals o' && n.equals n' && v.equals v'
  | super k m, super k' m' => k.equals k' && m.equals m'
  | this k, this k' => k.equals k'
  | unary o r, unary o' r' => o.equals o' && r.equals r'
  | reference n, reference n' => n.equals n'
  | _, _ => false

def equalsAll : List Expr → List Expr → Bool
  | [], [] => true
  | e :: es, e' :: es' => e.equals e' && equalsAll es es'
  | _, _ => false

end

end Expr

end LoxSyntax
