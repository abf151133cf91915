import LoxSyntax.Proofs.Number.ReadBack
import LoxSyntax.Proofs.Session.Dump
import LoxSyntax.Proofs.Text.Joining

namespace LoxSyntax

/-- Numbers are written on one line. -/
theorem Binary64.newlines_text (x : Binary64) : newlines x.text = 0 := by
  have digits : newlines (String.ofList (Decimal.shortest x.magnitude).digits) = 0 := by
    rw [newlines_eq_zero, String.toList_ofList]
    exact (Decimal.shortest x.magnitude).not_mem_digits (by decide) rfl
  have size : newlines (if x.isFinite then String.ofList (Decimal.shortest x.magnitude).digits
      else "inf") = 0 := by
    split
    · exact digits
    · rfl
  unfold text
  dsimp only
  split
  · rfl
  · split
    · rw [newlines_append, size]
      rfl
    · exact size

namespace Denotes

/-- There is a newline in no lexeme but a string. -/
theorem newlines_lexeme {lexeme : String} {kind : TokenKind} {literal : Option Literal}
    (h : Denotes lexeme kind literal) (other : kind ≠ .string) : newlines lexeme = 0 :=
  newlines_eq_zero.mpr (h.not_mem other TokenKind.newline_not_mem_spelling rfl rfl (by decide))

/-- A value has the newlines of its lexeme. -/
theorem newlines_literal {lexeme : String} {kind : TokenKind} {literal : Option Literal}
    (h : Denotes lexeme kind literal) :
    newlines ((literal.map Literal.text).getD "nil") = newlines lexeme := by
  have nil : newlines "nil" = 0 := rfl
  have fit := h.newlines_lexeme
  cases h with
  | fixed spelled =>
    have other : kind ≠ .string := fun string => by simp [string, TokenKind.spelling?] at spelled
    rw [fit other, Option.map_none, Option.getD_none, nil]
  | name => rw [fit (by decide), Option.map_none, Option.getD_none, nil]
  | string value => simp [newlines, Literal.text]
  | number =>
    rw [fit (by decide), Option.map_some, Option.getD_some, Literal.text]
    exact Binary64.newlines_text _

end Denotes

namespace Token

/-- A newline in the lexeme is shown twice. -/
theorem Denoted.newlines_text {t : Token} (h : t.Denoted) :
    newlines t.text = 2 * newlines t.lexeme := by
  have name : newlines t.kind.name = 0 := newlines_eq_zero.mpr t.kind.newline_not_mem_name
  have blank : newlines " " = 0 := rfl
  unfold text
  rw [newlines_append, newlines_append, newlines_append, newlines_append, name, blank,
    Denotes.newlines_literal h]
  omega

end Token

/-- A string over two lines. -/
def stringOverLines : String := "print \"a\nb\";"

def linesOfString : List String :=
  ["Print print nil", "String \"a", "b\" a", "b", "Semicolon ; nil", "Eof  nil"]

/-- So the lines of a dump need not be the texts of the tokens. -/
theorem tokenDump_lines_exceed :
    ¬ ∀ (settings : Settings) (source : String), settings.emit = .tokens →
      settings.Admits source → (scan source).errors = [] →
      ∃ dump, settings.render source = .ok dump ∧
        cutAtNewlines dump = (scan source).tokens.map Token.text := by
  intro all
  obtain ⟨dump, shown, lines⟩ := all { emit := .tokens } stringOverLines rfl nofun (by decide +kernel)
  have written : ({ emit := .tokens } : Settings).render stringOverLines =
      .ok ("\n".intercalate linesOfString) := by decide +kernel
  obtain rfl := Except.ok.inj (shown.symm.trans written)
  have cut : cutAtNewlines ("\n".intercalate linesOfString) ≠
      (scan stringOverLines).tokens.map Token.text := by decide +kernel
  exact cut lines

end LoxSyntax
