import LoxSyntax.Proofs.Parse.Concatenation

namespace LoxSyntax

/-- The same statements and errors, with another token in the place of each. -/
def Parsed.relabel (f : Token → Token) (parsed : Parsed) : Parsed :=
  ⟨parsed.statements.map (Stmt.relabel f), parsed.errors.map (ParseError.relabel f)⟩

theorem Parsed.relabel_messages (f : Token → Token) (parsed : Parsed) :
    (parsed.relabel f).errors.map (·.problem.message) =
      parsed.errors.map (·.problem.message) := by
  rw [relabel, List.map_map]
  rfl

namespace Parse

/-- Other tokens of the same kinds start a parse in the same state, but for the tokens. -/
theorem start_map {f : Token → Token} (hf : Alike f) {ts : List Token}
    (closed : ∃ t ∈ ts, t.kind = .eof) :
    State.start (ts.map f) = (State.start ts).relabel #[] f :=
  @start_append f hf [] ts nofun closed

/-- They are then parsed alike, step by step. -/
theorem parse_map {f : Token → Token} (hf : Alike f) {ts : List Token}
    (closed : ∃ t ∈ ts, t.kind = .eof) : parse (ts.map f) = (parse ts).relabel f := by
  have all := declarations_carries hf (declarationRule_carries hf (rules_carry hf maxDepth))
    (fun _ => false) (State.start ts).ahead #[] (State.start ts)
  rw [parse_of_declarations (start_map hf closed) all]
  simp [parse, Parsed.relabel, State.relabel]

end Parse

/-- Parsing looks at the kinds of tokens only. Whatever else is made of the texts and the lines of
the tokens of a program, the same statements and errors come of it, with the tokens that are at the
same places; so the errors are as many and have the same messages. -/
theorem parse_relabel {f : Token → Token} (kind : ∀ t, (f t).kind = t.kind)
    (literal : ∀ t, (f t).literal = t.literal) {ts : List Token}
    (closed : ∃ t ∈ ts, t.kind = .eof) :
    (parse (ts.map f)).statements = (parse ts).statements.map (Stmt.relabel f) ∧
      (parse (ts.map f)).errors = (parse ts).errors.map (ParseError.relabel f) ∧
      (parse (ts.map f)).errors.length = (parse ts).errors.length ∧
      (parse (ts.map f)).errors.map (·.problem.message) =
        (parse ts).errors.map (·.problem.message) := by
  have alike : Parse.Alike f := ⟨kind, fun t _ => literal t⟩
  rw [Parse.parse_map alike closed]
  exact ⟨rfl, rfl, List.length_map _, Parsed.relabel_messages f _⟩

/-- `print; -a;`, in which the first statement has no value. -/
def valuelessPrint : List Token :=
  [⟨.printKw, "print", none, 1⟩, ⟨.semicolon, ";", none, 1⟩, ⟨.minus, "-", none, 1⟩,
    ⟨.identifier, "a", none, 1⟩, ⟨.semicolon, ";", none, 1⟩, .eof 1]

/-- Every token longer by a mark, and on the line that its length gives. -/
def Token.blurred (t : Token) : Token :=
  { t with lexeme := t.lexeme ++ "?", line := t.line + t.lexeme.length }

theorem parse_relabel_valuelessPrint :
    (∃ t ∈ valuelessPrint, t.kind = .eof) ∧
      (parse valuelessPrint).statements.length = 1 ∧
      (parse valuelessPrint).errors = [⟨⟨.semicolon, ";", none, 1⟩, .noExpression⟩] ∧
      (parse (valuelessPrint.map Token.blurred)).statements =
        (parse valuelessPrint).statements.map (Stmt.relabel Token.blurred) ∧
      (parse (valuelessPrint.map Token.blurred)).errors =
        (parse valuelessPrint).errors.map (ParseError.relabel Token.blurred) ∧
      (parse (valuelessPrint.map Token.blurred)).errors.length =
        (parse valuelessPrint).errors.length ∧
      (parse (valuelessPrint.map Token.blurred)).errors.map (·.problem.message) =
        (parse valuelessPrint).errors.map (·.problem.message) := by
  have closed : ∃ t ∈ valuelessPrint, t.kind = .eof := ⟨.eof 1, by decide, rfl⟩
  have kept : (parse valuelessPrint).statements.length = 1 := by decide +kernel
  have reported : (parse valuelessPrint).errors =
      [⟨⟨.semicolon, ";", none, 1⟩, .noExpression⟩] := by decide +kernel
  exact ⟨closed, kept, reported,
    @parse_relabel Token.blurred (fun _ => rfl) (fun _ => rfl) valuelessPrint closed⟩

end LoxSyntax
