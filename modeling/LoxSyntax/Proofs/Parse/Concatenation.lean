import LoxSyntax.Program
import LoxSyntax.Proofs.Parse.ProgramCompleteness
import LoxSyntax.Proofs.Parse.Progress
import LoxSyntax.Proofs.Parse.Relabelling
import LoxSyntax.Proofs.Token.Newline

namespace LoxSyntax

open Grammar

namespace Parse

/-- A program is read in front of anything but an `else`, and what follows is parsed behind it. -/
theorem declarations_append (D : Program) (proper : D.Proper) (rest bound : List Token) (s : State)
    (room : s.depth + D.nesting ≤ maxDepth) (other : ∀ t ∈ rest.head?, t.kind ≠ .elseKw)
    (covers : (D.tokens ++ rest).length ≤ bound.length) :
    declarations (rules maxDepth) (fun _ => false) bound (s.facing (D.tokens ++ rest)) =
      (D.tree ++ (declarations (rules maxDepth) (fun _ => false) rest (s.facing rest)).1,
        (declarations (rules maxDepth) (fun _ => false) rest (s.facing rest)).2) := by
  match D with
  | .noDeclarations =>
    rw [declarations_bound maxDepth _ bound rest _ covers (Nat.le_refl _)]
    rfl
  | .moreDeclarations F M =>
    have whole : (Derivation.moreDeclarations F M).tokens ++ rest = F.tokens ++ (M.tokens ++ rest) :=
      List.append_assoc ..
    change s.depth + max F.nesting M.nesting ≤ maxDepth at room
    rw [whole] at covers ⊢
    have behind := declarations_head_ne_else M other
    have first := recovering_fits (complete F proper.1 maxDepth s (M.tokens ++ rest)
      (Nat.le_add_left _ _) fun _ => behind) (by omega)
    obtain ⟨t, us, tokens, -⟩ := F.begins.exists_cons rfl
    rw [tokens] at first covers ⊢
    cases bound with
    | nil => simp at covers
    | cons b bound =>
      have more := declarations_append M proper.2 rest bound s (by omega) other (by
        simp only [List.cons_append, List.length_cons, List.length_append] at covers ⊢
        omega)
      rw [List.cons_append] at first ⊢
      rw [declarations_cons _ _ _ rfl rfl, declaration, first, more]
      rfl

/-- Tokens in front of others that are relabelled: the parse of those starts behind them. -/
theorem start_append {f : Token → Token} (hf : Alike f) {ts us : List Token}
    (inside : ∀ t ∈ ts, t.kind ≠ .eof) (closed : ∃ t ∈ us, t.kind = .eof) :
    State.start (ts ++ us.map f) = ((State.start us).relabel #[] f).facing
      (ts ++ ((State.start us).relabel #[] f).ahead) := by
  have stays : ∀ t ∈ ts, (t.kind != .eof) = true := by simpa using inside
  have found : us.find? (·.kind == .eof) ≠ none := by simpa using closed
  obtain ⟨stop, first⟩ := Option.ne_none_iff_exists'.mp found
  have none : ts.find? (·.kind == .eof) = none := by simpa using inside
  have same : (fun t : Token => (f t).kind == .eof) = fun t => t.kind == .eof := by simp [hf.kind]
  have differs : (fun t : Token => (f t).kind != .eof) = fun t => t.kind != .eof := by
    simp [hf.kind]
  simp [State.start, State.relabel, State.facing, List.takeWhile_append_of_pos stays,
    List.find?_append, none, List.find?_map, List.takeWhile_map, Function.comp_def, same, differs,
    first]

end Parse

theorem Token.lowered_alike (lines : Nat) : Parse.Alike (Token.lowered lines) :=
  ⟨fun _ => rfl, fun _ _ => rfl⟩

namespace Parse

theorem parse_of_declarations {tokens : List Token} {s : State} {outcome : List Stmt × State}
    (starts : State.start tokens = s)
    (h : declarations (rules maxDepth) (fun _ => false) s.ahead s = outcome) :
    parse tokens = ⟨outcome.1, outcome.2.errors.toList⟩ := by
  subst starts h
  rfl

/-- A program, and relabelled tokens behind it: both are parsed by themselves. -/
theorem parse_append {f : Token → Token} (hf : Alike f) {ts us : List Token} {closing : Token}
    (accepted : (parse (ts ++ [closing])).errors = []) (isClosing : closing.kind = .eof)
    (inside : ∀ t ∈ ts, t.kind ≠ .eof) (closed : ∃ t ∈ us, t.kind = .eof)
    (other : ∀ t ∈ us.head?, t.kind ≠ .elseKw) :
    parse (ts ++ us.map f) =
      ⟨(parse (ts ++ [closing])).statements ++ (parse us).statements.map (Stmt.relabel f),
        (parse us).errors.map (ParseError.relabel f)⟩ := by
  obtain ⟨final, ⟨D, tree, read⟩, done⟩ := program_reads _ accepted
  have levels : 0 + D.nesting ≤ maxDepth := read.levels (Nat.zero_le _)
  have tokens : D.tokens = ts := by
    have ahead : (State.start (ts ++ [closing])).ahead = D.tokens ++ final.ahead := read.ahead
    rw [State.start_closed inside isClosing [], done, List.append_nil] at ahead
    exact ahead.symm
  let start := State.start us
  have next : ∀ t ∈ (start.ahead.map f).head?, t.kind ≠ .elseKw := by
    change ∀ t ∈ ((us.takeWhile (·.kind != .eof)).map f).head?, t.kind ≠ .elseKw
    cases us with
    | nil => nofun
    | cons u us =>
      by_cases stays : u.kind = .eof
      · simp [stays]
      · simpa [stays, hf.kind] using other
  have first := declarations_append D read.proper (start.ahead.map f) (D.tokens ++ start.ahead.map f)
    (start.relabel #[] f) levels next (Nat.le_refl _)
  have second := declarations_carries hf (declarationRule_carries hf (rules_carry hf maxDepth))
    (fun _ => false) start.ahead #[] start
  have here : (start.relabel #[] f).facing (start.ahead.map f) = start.relabel #[] f := rfl
  rw [here, second, tokens, tree] at first
  rw [parse_of_declarations (start_append hf inside closed) first]
  simp [parse, State.relabel, start]

end Parse

/-- Behind a program and a newline, the scan starts anew, further down. -/
theorem scan_below {a : String} {program : List Stmt} (ha : readProgram a = .ok program)
    (b : String) : scan (a ++ "\n" ++ b) =
    (scan a).followedBy ((scan b).lowered (a.toList.count '\n' + 1)) :=
  scan_followedBy (closed_of_errors_eq_nil (readProgram_ok ha).1) b

theorem scan_errors_below {a : String} {program : List Stmt} (ha : readProgram a = .ok program)
    (b : String) : (scan (a ++ "\n" ++ b)).errors =
    (scan b).errors.map (ScanError.lowered (a.toList.count '\n' + 1)) := by
  simp [scan_below ha b, Scanned.followedBy, Scanned.lowered, (readProgram_ok ha).1]

/-- So does the parse, unless what is there goes on with an `else`. -/
theorem parse_below {a : String} {program : List Stmt} (ha : readProgram a = .ok program)
    {b : String} (hb : ∀ t ∈ (scan b).tokens.head?, t.kind ≠ .elseKw) :
    parse (scan (a ++ "\n" ++ b)).tokens =
      ⟨program ++ (parse (scan b).tokens).statements.map
          (Stmt.relabel (Token.lowered (a.toList.count '\n' + 1))),
        (parse (scan b).tokens).errors.map
          (ParseError.relabel (Token.lowered (a.toList.count '\n' + 1)))⟩ := by
  obtain ⟨-, accepted, statements⟩ := readProgram_ok ha
  obtain ⟨ts, line, tokens, inside⟩ := scan_closed a
  obtain ⟨us, line', tokens', -⟩ := scan_closed b
  have closed : ∃ t ∈ (scan b).tokens, t.kind = .eof := ⟨.eof line', by simp [tokens'], rfl⟩
  have together : (scan (a ++ "\n" ++ b)).tokens =
      ts ++ (scan b).tokens.map (Token.lowered (a.toList.count '\n' + 1)) := by
    simp [scan_below ha b, Scanned.followedBy, Scanned.lowered, tokens]
  rw [tokens] at accepted statements
  rw [together, ← statements]
  exact Parse.parse_append (Token.lowered_alike _) accepted rfl inside closed hb

/-- Behind a program and a newline, any source that does not start with an `else` comes to what it
comes to by itself, that many lines further down. -/
theorem parse_newline {a b : String} {program : List Stmt} (ha : readProgram a = .ok program)
    (hb : ∀ t ∈ (scan b).tokens.head?, t.kind ≠ .elseKw) :
    let lines := a.toList.count '\n' + 1
    let whole := scan (a ++ "\n" ++ b)
    whole.errors = (scan b).errors.map (ScanError.lowered lines) ∧
      (parse whole.tokens).statements =
        program ++ (parse (scan b).tokens).statements.map (Stmt.relabel (Token.lowered lines)) ∧
      (parse whole.tokens).errors =
        (parse (scan b).tokens).errors.map (ParseError.relabel (Token.lowered lines)) := by
  intro lines whole
  have parsed := parse_below ha hb
  exact ⟨scan_errors_below ha b, by rw [parsed], by rw [parsed]⟩

/-- An `if` that an `else` could follow, and a comment without an end. -/
def openIf : String := "if (a)\n  b; // no else"

def openIfTree : List Stmt := (parse (scan openIf).tokens).statements

/-- A character that is no token, a statement without its value, and one that is right. -/
def faulty : String := "print # ;\nc;"

theorem parse_newline_openIf :
    readProgram openIf = .ok openIfTree ∧
      (∀ t ∈ (scan faulty).tokens.head?, t.kind ≠ .elseKw) ∧
      let lines := openIf.toList.count '\n' + 1
      let whole := scan (openIf ++ "\n" ++ faulty)
      whole.errors = (scan faulty).errors.map (ScanError.lowered lines) ∧
        (parse whole.tokens).statements = openIfTree ++
          (parse (scan faulty).tokens).statements.map (Stmt.relabel (Token.lowered lines)) ∧
        (parse whole.tokens).errors =
          (parse (scan faulty).tokens).errors.map (ParseError.relabel (Token.lowered lines)) :=
  have none : Diagnostics.isEmpty ⟨(scan openIf).errors,
      (parse (scan openIf).tokens).errors⟩ = true := by decide +kernel
  have read : readProgram openIf = .ok openIfTree := if_pos none
  have other : ∀ t ∈ (scan faulty).tokens.head?, t.kind ≠ .elseKw := by decide +kernel
  ⟨read, other, parse_newline read other⟩

end LoxSyntax
