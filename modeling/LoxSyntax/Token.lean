import LoxSyntax.Number.Decimal

namespace LoxSyntax

inductive TokenKind where
  | leftParen | rightParen | leftBrace | rightBrace | comma | dot | minus | plus | semicolon
  | slash | star
  | bang | bangEqual | equal | equalEqual | greater | greaterEqual | less | lessEqual
  | identifier | string | number
  | andKw | classKw | elseKw | falseKw | funKw | forKw | ifKw | nilKw | orKw | printKw | returnKw
  | superKw | thisKw | trueKw | varKw | whileKw
  | eof
  deriving DecidableEq, Repr

namespace TokenKind

/-- The name of a kind in a dump. -/
def name : TokenKind → String
  | leftParen => "LeftParen" | rightParen => "RightParen" | leftBrace => "LeftBrace"
  | rightBrace => "RightBrace" | comma => "Comma" | dot => "Dot" | minus => "Minus"
  | plus => "Plus" | semicolon => "Semicolon" | slash => "Slash" | star => "Star"
  | bang => "Bang" | bangEqual => "BangEqual" | equal => "Equal" | equalEqual => "EqualEqual"
  | greater => "Greater" | greaterEqual => "GreaterEqual" | less => "Less"
  | lessEqual => "LessEqual" | identifier => "Identifier" | string => "String"
  | number => "Number" | andKw => "And" | classKw => "Class" | elseKw => "Else"
  | falseKw => "False" | funKw => "Fun" | forKw => "For" | ifKw => "If" | nilKw => "Nil"
  | orKw => "Or" | printKw => "Print" | returnKw => "Return" | superKw => "Super"
  | thisKw => "This" | trueKw => "True" | varKw => "Var" | whileKw => "While" | eof => "Eof"

/-- The keyword spelled exactly so. -/
def keyword? : String → Option TokenKind
  | "and" => some andKw
  | "class" => some classKw
  | "else" => some elseKw
  | "false" => some falseKw
  | "for" => some forKw
  | "fun" => some funKw
  | "if" => some ifKw
  | "nil" => some nilKw
  | "or" => some orKw
  | "print" => some printKw
  | "return" => some returnKw
  | "super" => some superKw
  | "this" => some thisKw
  | "true" => some trueKw
  | "var" => some varKw
  | "while" => some whileKw
  | _ => none

/-- The text of the kinds that have only one. -/
def spelling? : TokenKind → Option String
  | leftParen => some "(" | rightParen => some ")" | leftBrace => some "\x7b"
  | rightBrace => some "\x7d" | comma => some "," | dot => some "." | minus => some "-"
  | plus => some "+" | semicolon => some ";" | slash => some "/" | star => some "*"
  | bang => some "!" | bangEqual => some "!=" | equal => some "=" | equalEqual => some "=="
  | greater => some ">" | greaterEqual => some ">=" | less => some "<" | lessEqual => some "<="
  | andKw => some "and" | classKw => some "class" | elseKw => some "else"
  | falseKw => some "false" | funKw => some "fun" | forKw => some "for" | ifKw => some "if"
  | nilKw => some "nil" | orKw => some "or" | printKw => some "print"
  | returnKw => some "return" | superKw => some "super" | thisKw => some "this"
  | trueKw => some "true" | varKw => some "var" | whileKw => some "while"
  | identifier | string | number | eof => none

/-- A keyword is found under its spelling. -/
theorem spelling?_of_keyword? {text : String} {kind : TokenKind} (h : keyword? text = some kind) :
    kind.spelling? = some text := by
  unfold keyword? at h
  split at h <;> cases h <;> rfl

/-- The kinds that open a declaration or a statement; parsing resumes at them after an error. -/
def beginsStatement : TokenKind → Bool
  | classKw | funKw | varKw | forKw | ifKw | whileKw | printKw | returnKw => true
  | _ => false

end TokenKind

/-- The value carried by a string or a number. -/
inductive Literal where
  | string (value : String)
  | number (value : Binary64)
  deriving DecidableEq, Repr

namespace Literal

def text : Literal → String
  | string value => value
  | number value => value.text

/-- Equality that compares numbers as numbers. -/
def equals : Literal → Literal → Bool
  | string a, string b => a == b
  | number a, number b => a.equals b
  | _, _ => false

end Literal

/-- A token: its kind, the text that spells it, its value if it has one, and the line, counted
from one, on which it starts. -/
structure Token where
  kind : TokenKind
  lexeme : String
  literal : Option Literal
  line : Nat
  deriving DecidableEq, Repr

namespace Token

/-- The token that closes a program. -/
def eof (line : Nat) : Token := ⟨.eof, "", none, line⟩

/-- Kind, text and value with a blank between each two. -/
def text (t : Token) : String :=
  t.kind.name ++ " " ++ t.lexeme ++ " " ++ (t.literal.map Literal.text).getD "nil"

/-- Equality that compares numbers as numbers, so that a token may differ from itself. -/
def equals (a b : Token) : Bool :=
  a.kind == b.kind && a.lexeme == b.lexeme && a.line == b.line &&
    a.literal.toList.isEqv b.literal.toList Literal.equals

end Token

end LoxSyntax
