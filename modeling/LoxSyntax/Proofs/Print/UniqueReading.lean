import LoxSyntax.Proofs.Grammar.Unambiguity
import LoxSyntax.Proofs.Print.Program

namespace LoxSyntax

open Grammar

/-- Statements written with the same text are the same but for groupings and lines. -/
theorem bareAll_eq_of_programText_eq {program program' : List Stmt}
    (h : ∀ s ∈ program, RereadsDeclaration s) (h' : ∀ s ∈ program', RereadsDeclaration s)
    (same : programText program = programText program') :
    Stmt.bareAll program = Stmt.bareAll program' := by
  obtain ⟨line, D, scanned, written⟩ := programText_written program h
  obtain ⟨line', D', scanned', written'⟩ := programText_written program' h'
  have tokens : D.tokens ++ [Token.eof line] = D'.tokens ++ [Token.eof line'] :=
    congrArg Scanned.tokens (scanned.symm.trans (same ▸ scanned'))
  have tree : D.tree = D'.tree :=
    Derivation.tree_unique written.proper written'.proper (List.append_inj_left' tokens rfl)
  calc Stmt.bareAll program = D.tree.map Stmt.bare :=
        (Stmt.bareAll_eq_map program).trans written.bare.symm
    _ = Stmt.bareAll program' := by rw [tree, written'.bare, Stmt.bareAll_eq_map]

/-- The text of a program determines the program: two sources that are read as programs with the
same text are read as the same program, but for groupings and lines. -/
theorem programText_determines {source source' : String} {program program' : List Stmt}
    (h : readProgram source = .ok program) (h' : readProgram source' = .ok program')
    (same : programText program = programText program') :
    Stmt.bareAll program = Stmt.bareAll program' :=
  bareAll_eq_of_programText_eq (readProgram_rereads h) (readProgram_rereads h') same

/-- An `else` behind two `if`s, on one line. -/
def nestedIf : String := "if (a) if (b) print 1 + 2; else c();"

/-- The same over several lines, with a grouping that is written anyway. -/
def nestedIfLines : String := "if (a)\n  if (b) print (1 + 2);\n  else c();"

def nestedIfTree : List Stmt := (parse (scan nestedIf).tokens).statements

def nestedIfLinesTree : List Stmt := (parse (scan nestedIfLines).tokens).statements

example : programText nestedIfTree = "if (a) if (b) print (1 + 2); else c();" := by decide +kernel

theorem programText_determines_nestedIf :
    readProgram nestedIf = .ok nestedIfTree ∧ readProgram nestedIfLines = .ok nestedIfLinesTree ∧
      programText nestedIfTree = programText nestedIfLinesTree ∧
      Stmt.bareAll nestedIfTree = Stmt.bareAll nestedIfLinesTree :=
  have none : Diagnostics.isEmpty ⟨(scan nestedIf).errors,
      (parse (scan nestedIf).tokens).errors⟩ = true := by decide +kernel
  have none' : Diagnostics.isEmpty ⟨(scan nestedIfLines).errors,
      (parse (scan nestedIfLines).tokens).errors⟩ = true := by decide +kernel
  have same : programText nestedIfTree = programText nestedIfLinesTree := by decide +kernel
  have read : readProgram nestedIf = .ok nestedIfTree := if_pos none
  have read' : readProgram nestedIfLines = .ok nestedIfLinesTree := if_pos none'
  ⟨read, read', same, programText_determines read read' same⟩

end LoxSyntax
