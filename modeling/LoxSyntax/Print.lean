import LoxSyntax.Tree.Stmt

namespace LoxSyntax

namespace Constant

/-- A string is written between the quotes it was read from. -/
def text : Constant → String
  | nil => "nil"
  | bool value => if value then "true" else "false"
  | literal (.string value) => "\"" ++ value ++ "\""
  | literal (.number value) => value.text

end Constant

namespace Expr

/-- The nodes that are written in parentheses of their own; a grouping around one adds none. -/
def isParenthesized : Expr → Bool
  | assign .. | binary .. | logical .. | set .. => true
  | _ => false

mutual

/-- Every assignment and every operator with two operands gets parentheses of its own, so the text
shows how the source was grouped. -/
def text : Expr → String
  | assign name value => "(" ++ name.lexeme ++ " = " ++ value.text ++ ")"
  | binary left operator right | logical left operator right =>
    "(" ++ left.text ++ " " ++ operator.lexeme ++ " " ++ right.text ++ ")"
  | call callee _ arguments => callee.text ++ "(" ++ ", ".intercalate (texts arguments) ++ ")"
  | get object name => object.text ++ "." ++ name.lexeme
  | grouping inner => if inner.isParenthesized then inner.text else "(" ++ inner.text ++ ")"
  | constant value => value.text
  | set object name value =>
    "(" ++ object.text ++ "." ++ name.lexeme ++ " = " ++ value.text ++ ")"
  | super _ method => "super." ++ method.lexeme
  | this _ => "this"
  | unary operator right => operator.lexeme ++ right.text
  | reference name => name.lexeme

def texts : List Expr → List String
  | [] => []
  | e :: es => e.text :: texts es

end

end Expr

/-- Parts in braces, one blank around each; nothing in braces is one blank. -/
def braced (parts : List String) : String :=
  if parts.isEmpty then "\x7b \x7d" else "\x7b " ++ " ".intercalate parts ++ " \x7d"

namespace Stmt

mutual

def text : Stmt → String
  | block body => braced (texts body)
  | classDecl name superclass methods =>
    let parent := match superclass with
      | some token => " < " ++ token.lexeme
      | none => ""
    "class " ++ name.lexeme ++ parent ++ " " ++ braced (methodTexts methods)
  | expression value => value.text ++ ";"
  | function decl => "fun " ++ functionText decl
  | ifElse condition thenBranch none =>
    "if (" ++ condition.text ++ ") " ++ thenBranch.text
  | ifElse condition thenBranch (some elseBranch) =>
    "if (" ++ condition.text ++ ") " ++ thenBranch.text ++ " else " ++ elseBranch.text
  | print value => "print " ++ value.text ++ ";"
  | ret _ none => "return;"
  | ret _ (some value) => "return " ++ value.text ++ ";"
  | varDecl name none => "var " ++ name.lexeme ++ ";"
  | varDecl name (some value) => "var " ++ name.lexeme ++ " = " ++ value.text ++ ";"
  | whileLoop condition body => "while (" ++ condition.text ++ ") " ++ body.text

def texts : List Stmt → List String
  | [] => []
  | s :: ss => s.text :: texts ss

def functionText : Function → String
  | ⟨name, params, body⟩ =>
    name.lexeme ++ "(" ++ ", ".intercalate (params.map (·.lexeme)) ++ ") " ++ braced (texts body)

def methodTexts : List Function → List String
  | [] => []
  | f :: fs => functionText f :: methodTexts fs

end

end Stmt

/-- A program, one statement of the top level on each line. -/
def programText (program : List Stmt) : String := "\n".intercalate (Stmt.texts program)

end LoxSyntax
