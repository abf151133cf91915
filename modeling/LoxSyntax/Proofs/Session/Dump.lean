import LoxSyntax.Proofs.Session.Rendering
import LoxSyntax.Proofs.Token.Kind
import LoxSyntax.Proofs.Token.Tiling

namespace LoxSyntax

namespace Denotes

/-- A string has its two quotes, and none between them. -/
theorem quoted {lexeme : String} {literal : Option Literal} (h : Denotes lexeme .string literal) :
    ∃ value : List Char, '"' ∉ value ∧ lexeme.toList = '"' :: (value ++ ['"']) := by
  cases h with
  | fixed spelled => cases spelled
  | string value inside => exact ⟨value.toList, inside, by simp⟩

end Denotes

namespace Token

/-- The token is spelled as its kind asks for, and carries the value that its lexeme spells. -/
def Denoted (t : Token) : Prop := Denotes t.lexeme t.kind t.literal

end Token

namespace Settings

end Settings

end LoxSyntax
