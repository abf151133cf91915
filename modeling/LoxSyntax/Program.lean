import LoxSyntax.Token.Scan
import LoxSyntax.Parse.Statement
import LoxSyntax.Print

namespace LoxSyntax

/-- The program in a source. The tokens are parsed even when some of the text is no token, so
that all errors come at once, and any error at all withholds the program. -/
def readProgram (source : String) : Except Diagnostics (List Stmt) :=
  let scanned := scan source
  let parsed := parse scanned.tokens
  let diagnostics : Diagnostics := ⟨scanned.errors, parsed.errors⟩
  if diagnostics.isEmpty then .ok parsed.statements else .error diagnostics

/-- A program is had from a source that has no errors. -/
theorem readProgram_ok {source : String} {program : List Stmt}
    (h : readProgram source = .ok program) :
    (scan source).errors = [] ∧ (parse (scan source).tokens).errors = [] ∧
      (parse (scan source).tokens).statements = program := by
  unfold readProgram at h
  dsimp only at h
  split at h
  next none =>
    simp only [Diagnostics.isEmpty, Bool.and_eq_true, List.isEmpty_iff] at none
    exact ⟨none.1, none.2, Except.ok.inj h⟩
  · cases h

theorem readProgram_of_errors {source : String} (scanned : (scan source).errors = [])
    (parsed : (parse (scan source).tokens).errors = []) :
    readProgram source = .ok (parse (scan source).tokens).statements :=
  if_pos (by simp only [Diagnostics.isEmpty, scanned, parsed, List.isEmpty_nil, Bool.and_self])

end LoxSyntax
