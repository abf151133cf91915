import LoxSyntax.Token

namespace LoxSyntax

/-- Why a stretch of text is no token. -/
inductive ScanFault where
  | unexpected (c : Char)
  | unterminatedString
  | numberTooLarge
  deriving DecidableEq, Repr

namespace ScanFault

def message : ScanFault → String
  | unexpected c => "Unexpected character '" ++ c.toString ++ "'."
  | unterminatedString => "Unterminated string."
  | numberTooLarge => "Number literal too large."

end ScanFault

structure ScanError where
  line : Nat
  fault : ScanFault
  deriving DecidableEq, Repr

namespace ScanError

def text (e : ScanError) : String :=
  "[line " ++ toString e.line ++ "] Error: " ++ e.fault.message

end ScanError

/-- Functions and methods share one rule and differ in what the messages call them. -/
inductive FunctionKind where
  | function
  | method
  deriving DecidableEq, Repr

def FunctionKind.name : FunctionKind → String
  | function => "function"
  | method => "method"

/-- What a name that is missing would have named. -/
inductive NameRole where
  | ofClass | ofSuperclass | ofFunction (kind : FunctionKind) | ofParameter | ofVariable
  | ofProperty | ofSuperclassMethod
  deriving DecidableEq, Repr

def NameRole.phrase : NameRole → String
  | ofClass => "class name"
  | ofSuperclass => "superclass name"
  | ofFunction kind => kind.name ++ " name"
  | ofParameter => "parameter name"
  | ofVariable => "variable name"
  | ofProperty => "property name after '.'"
  | ofSuperclassMethod => "superclass method name"

/-- The place in the grammar where a mark is due. -/
inductive Place where
  | beforeClassBody | afterClassBody
  | afterFunctionName (kind : FunctionKind) | afterParameters
  | beforeFunctionBody (kind : FunctionKind)
  | afterVariableDeclaration
  | afterFor | afterLoopCondition | afterForClauses
  | afterIf | afterIfCondition | afterWhile | afterCondition
  | afterValue | afterReturnValue | afterBlock | afterExpression
  | afterArguments | afterSuper
  deriving DecidableEq, Repr

def Place.phrase : Place → String
  | beforeClassBody => "before class body"
  | afterClassBody => "after class body"
  | afterFunctionName kind => "after " ++ kind.name ++ " name"
  | afterParameters => "after parameters"
  | beforeFunctionBody kind => "before " ++ kind.name ++ " body"
  | afterVariableDeclaration => "after variable declaration"
  | afterFor => "after 'for'"
  | afterLoopCondition => "after loop condition"
  | afterForClauses => "after for clauses"
  | afterIf => "after 'if'"
  | afterIfCondition => "after if condition"
  | afterWhile => "after 'while'"
  | afterCondition => "after condition"
  | afterValue => "after value"
  | afterReturnValue => "after return value"
  | afterBlock => "after block"
  | afterExpression => "after expression"
  | afterArguments => "after arguments"
  | afterSuper => "after 'super'"

/-- Why a token does not fit the grammar or its limits. -/
inductive Problem where
  | noExpression
  | noName (role : NameRole)
  | noMark (mark : TokenKind) (place : Place)
  | tooManyArguments
  | tooManyParameters
  | invalidTarget
  | tooDeep
  /-- A finding of a later pass, in its own words. -/
  | finding (message : String)
  deriving DecidableEq, Repr

namespace Problem

def message : Problem → String
  | noExpression => "Expect expression."
  | noName role => "Expect " ++ role.phrase ++ "."
  | noMark mark place => "Expect '" ++ mark.spelling?.getD "" ++ "' " ++ place.phrase ++ "."
  | tooManyArguments => "Can't have more than 255 arguments."
  | tooManyParameters => "Can't have more than 255 parameters."
  | invalidTarget => "Invalid assignment target."
  | tooDeep => "Too much nesting."
  | finding message => message

end Problem

/-- A problem, located at the token that shows it. -/
structure ParseError where
  token : Token
  problem : Problem
  deriving DecidableEq, Repr

namespace ParseError

/-- The closing token has no text to quote. -/
def location (t : Token) : String :=
  if t.kind = .eof then " at end" else " at '" ++ t.lexeme ++ "'"

def text (e : ParseError) : String :=
  "[line " ++ toString e.token.line ++ "] Error" ++ location e.token ++ ": " ++ e.problem.message

def equals (a b : ParseError) : Bool :=
  a.token.equals b.token && a.problem.message == b.problem.message

end ParseError

/-- Everything found wrong with one source. -/
structure Diagnostics where
  scan : List ScanError
  parse : List ParseError
  deriving DecidableEq, Repr

namespace Diagnostics

def isEmpty (d : Diagnostics) : Bool := d.scan.isEmpty && d.parse.isEmpty

def size (d : Diagnostics) : Nat := d.scan.length + d.parse.length

/-- The sentences of a report, those on the text first. -/
def sentences (d : Diagnostics) : List String :=
  d.scan.map ScanError.text ++ d.parse.map ParseError.text

def text (d : Diagnostics) : String := "\n".intercalate d.sentences

end Diagnostics

end LoxSyntax
