import LoxSyntax.Print

namespace LoxSyntax

/-- The token, wherever it stands. -/
def Token.unplaced (t : Token) : Token := { t with line := 0 }

namespace Expr

mutual

/-- The tree without its groupings, and without the lines of its tokens. -/
def bare : Expr → Expr
  | assign name value => assign name.unplaced value.bare
  | binary left operator right => binary left.bare operator.unplaced right.bare
  | call callee paren arguments => call callee.bare paren.unplaced (bareAll arguments)
  | get object name => get object.bare name.unplaced
  | grouping inner => inner.bare
  | constant value => constant value
  | logical left operator right => logical left.bare operator.unplaced right.bare
  | set object name value => set object.bare name.unplaced value.bare
  | super keyword method => super keyword.unplaced method.unplaced
  | this keyword => this keyword.unplaced
  | unary operator right => unary operator.unplaced right.bare
  | reference name => reference name.unplaced

def bareAll : List Expr → List Expr
  | [] => []
  | e :: es => e.bare :: bareAll es

end

mutual

/-- How many levels the text of the tree nests. The parentheses that are written around an operator
or an assignment count as a level, like any others. -/
def levels : Expr → Nat
  | assign _ value => value.levels + 2
  | binary left _ right | logical left _ right => max left.levels right.levels + 1
  | call callee _ arguments => max callee.levels (argumentLevels arguments)
  | get object _ => object.levels
  | grouping inner => if inner.isParenthesized then inner.levels else inner.levels + 1
  | constant _ | super .. | this _ | reference _ => 0
  | set object _ value => max object.levels (value.levels + 1) + 1
  | unary _ right => right.levels + 1

def argumentLevels : List Expr → Nat
  | [] => 0
  | e :: es => max (e.levels + 1) (argumentLevels es)

end

theorem bareAll_eq_map (es : List Expr) : bareAll es = es.map bare := by
  induction es with
  | nil => rfl
  | cons e es ih => rw [bareAll, ih, List.map_cons]

theorem texts_eq_map (es : List Expr) : texts es = es.map text := by
  induction es with
  | nil => rfl
  | cons e es ih => rw [texts, ih, List.map_cons]

end Expr

namespace Stmt

mutual

/-- The tree without its groupings, and without the lines of its tokens. -/
def bare : Stmt → Stmt
  | block body => block (bareAll body)
  | classDecl name superclass methods =>
    classDecl name.unplaced (superclass.map Token.unplaced) (bareMethods methods)
  | expression value => expression value.bare
  | function decl => function (bareFunction decl)
  | ifElse condition thenBranch none => ifElse condition.bare thenBranch.bare none
  | ifElse condition thenBranch (some elseBranch) =>
    ifElse condition.bare thenBranch.bare (some elseBranch.bare)
  | print value => print value.bare
  | ret keyword value => ret keyword.unplaced (value.map Expr.bare)
  | varDecl name value => varDecl name.unplaced (value.map Expr.bare)
  | whileLoop condition body => whileLoop condition.bare body.bare

def bareAll : List Stmt → List Stmt
  | [] => []
  | s :: ss => s.bare :: bareAll ss

def bareFunction : Function → Function
  | ⟨name, params, body⟩ => ⟨name.unplaced, params.map Token.unplaced, bareAll body⟩

def bareMethods : List Function → List Function
  | [] => []
  | f :: fs => bareFunction f :: bareMethods fs

end

mutual

/-- How many levels the text of the tree nests. -/
def levels : Stmt → Nat
  | block body => levelsAll body + 1
  | classDecl _ _ methods => methodLevels methods
  | expression value | print value => value.levels + 2
  | function decl => functionLevels decl
  | ifElse condition thenBranch none => max (condition.levels + 1) thenBranch.levels + 1
  | ifElse condition thenBranch (some elseBranch) =>
    max (condition.levels + 1) (max thenBranch.levels elseBranch.levels) + 1
  | ret _ none => 1
  | ret _ (some value) => value.levels + 2
  | varDecl _ none => 0
  | varDecl _ (some value) => value.levels + 1
  | whileLoop condition body => max (condition.levels + 1) body.levels + 1

def levelsAll : List Stmt → Nat
  | [] => 0
  | s :: ss => max s.levels (levelsAll ss)

def functionLevels : Function → Nat
  | ⟨_, _, body⟩ => levelsAll body + 1

def methodLevels : List Function → Nat
  | [] => 0
  | f :: fs => max (functionLevels f) (methodLevels fs)

end

theorem bareAll_eq_map (ss : List Stmt) : bareAll ss = ss.map bare := by
  induction ss with
  | nil => rfl
  | cons s ss ih => rw [bareAll, ih, List.map_cons]

theorem texts_eq_map (ss : List Stmt) : texts ss = ss.map text := by
  induction ss with
  | nil => rfl
  | cons s ss ih => rw [texts, ih, List.map_cons]

theorem bareMethods_eq_map (fs : List Function) : bareMethods fs = fs.map bareFunction := by
  induction fs with
  | nil => rfl
  | cons f fs ih => rw [bareMethods, ih, List.map_cons]

theorem methodTexts_eq_map (fs : List Function) : methodTexts fs = fs.map functionText := by
  induction fs with
  | nil => rfl
  | cons f fs ih => rw [methodTexts, ih, List.map_cons]

end Stmt

end LoxSyntax
