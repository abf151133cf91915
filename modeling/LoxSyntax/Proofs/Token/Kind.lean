import LoxSyntax.Token

namespace LoxSyntax.TokenKind

def all : List TokenKind :=
  [leftParen, rightParen, leftBrace, rightBrace, comma, dot, minus, plus, semicolon, slash, star,
    bang, bangEqual, equal, equalEqual, greater, greaterEqual, less, lessEqual, identifier, string,
    number, andKw, classKw, elseKw, falseKw, funKw, forKw, ifKw, nilKw, orKw, printKw, returnKw,
    superKw, thisKw, trueKw, varKw, whileKw, eof]

theorem mem_all (kind : TokenKind) : kind ∈ all := by
  cases kind <;> decide

/-- What is said of every kind can be checked kind by kind. -/
instance (p : TokenKind → Prop) [DecidablePred p] : Decidable (∀ kind, p kind) :=
  decidable_of_iff (∀ kind ∈ all, p kind)
    ⟨fun h kind => h kind kind.mem_all, fun h kind _ => h kind⟩

/-- So can what is said of every token that may be next, and of the end. -/
instance (p : Option TokenKind → Prop) [DecidablePred p] : Decidable (∀ next, p next) :=
  decidable_of_iff (p none ∧ ∀ kind, p (some kind))
    ⟨fun h next => next.rec h.1 h.2, fun h => ⟨h none, fun kind => h (some kind)⟩⟩

theorem newline_not_mem_name : ∀ kind : TokenKind, '\n' ∉ kind.name.toList := by
  decide +kernel

theorem newline_not_mem_spelling :
    ∀ kind : TokenKind, ∀ lexeme ∈ kind.spelling?, '\n' ∉ lexeme.toList := by
  decide +kernel

end LoxSyntax.TokenKind
