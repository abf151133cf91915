import LoxSyntax.Proofs.Parse.Formation
import LoxSyntax.Proofs.Parse.Kinds

namespace LoxSyntax

theorem Token.Among.relabel_eq {tokens : List Token} {f : Token → Token}
    (fixed : ∀ t ∈ tokens, f t = t) {kinds : List TokenKind} {t : Token}
    (h : t.Among tokens kinds) : f t = t :=
  fixed t h.stored

/-- An expression stays the same if its tokens do. -/
theorem Expr.WellFormed.relabel_eq {tokens : List Token} {f : Token → Token}
    (fixed : ∀ t ∈ tokens, f t = t) {e : Expr} (h : e.WellFormed tokens) : e.relabel f = e := by
  induction h with
  | assign named _ value => rw [relabel, named.relabel_eq fixed, value]
  | binary between _ _ _ _ left right | logical between _ _ _ _ left right =>
    rw [relabel, between.relabel_eq fixed, left, right]
  | call closing _ _ _ callee arguments =>
    rw [relabel, closing.relabel_eq fixed, callee, relabelAll_eq_map,
      List.map_congr_left arguments, List.map_id']
  | get named _ _ object => rw [relabel, named.relabel_eq fixed, object]
  | grouping _ inner => rw [relabel, inner]
  | constant => rfl
  | set named _ _ _ object value => rw [relabel, named.relabel_eq fixed, object, value]
  | super opening named => rw [relabel, opening.relabel_eq fixed, named.relabel_eq fixed]
  | this only => rw [relabel, only.relabel_eq fixed]
  | unary opening _ _ right => rw [relabel, opening.relabel_eq fixed, right]
  | reference named => rw [relabel, named.relabel_eq fixed]

mutual

/-- So does a statement. -/
theorem Stmt.WellFormed.relabel_eq {tokens : List Token} {f : Token → Token}
    (fixed : ∀ t ∈ tokens, f t = t) {s : Stmt} (h : s.WellFormed tokens) : s.relabel f = s :=
  match h with
  | .block each => by
    have body := List.map_congr_left fun s inside => Stmt.WellFormed.relabel_eq fixed (each s inside)
    rw [Stmt.relabel, Stmt.relabelAll_eq_map, body, List.map_id']
  | .classDecl named parent each => by
    have methods := List.map_congr_left fun m inside =>
      Function.WellFormed.relabel_eq fixed (each m inside)
    have superclass := Option.map_congr fun t inside => (parent t inside).relabel_eq fixed
    rw [Stmt.relabel, named.relabel_eq fixed, superclass, Option.map_id',
      Stmt.relabelMethods_eq_map, methods, List.map_id']
  | .expression inside => by rw [Stmt.relabel, inside.relabel_eq fixed]
  | .function inside => by rw [Stmt.relabel, Function.WellFormed.relabel_eq fixed inside]
  | .ifElse tested first second => by
    have other := Option.map_congr fun s inside => Stmt.WellFormed.relabel_eq fixed (second s inside)
    rw [Stmt.relabel_ifElse, tested.relabel_eq fixed, Stmt.WellFormed.relabel_eq fixed first, other,
      Option.map_id']
  | .print inside => by rw [Stmt.relabel, inside.relabel_eq fixed]
  | .ret opening inside => by
    have value := Option.map_congr fun e is => (inside e is).relabel_eq fixed
    rw [Stmt.relabel, opening.relabel_eq fixed, value, Option.map_id']
  | .varDecl named inside => by
    have value := Option.map_congr fun e is => (inside e is).relabel_eq fixed
    rw [Stmt.relabel, named.relabel_eq fixed, value, Option.map_id']
  | .whileLoop tested inside => by
    rw [Stmt.relabel, tested.relabel_eq fixed, Stmt.WellFormed.relabel_eq fixed inside]

/-- And a function. -/
theorem Function.WellFormed.relabel_eq {tokens : List Token} {f : Token → Token}
    (fixed : ∀ t ∈ tokens, f t = t) {decl : Function} (h : decl.WellFormed tokens) :
    Stmt.relabelFunction f decl = decl :=
  match h with
  | .mk named taken each => by
    have params := List.map_congr_left fun t inside => (taken t inside).relabel_eq fixed
    have body := List.map_congr_left fun s inside => Stmt.WellFormed.relabel_eq fixed (each s inside)
    rw [Stmt.relabelFunction, named.relabel_eq fixed, params, Stmt.relabelAll_eq_map, body,
      List.map_id', List.map_id']

end

/-- The token, or this one in its place where it ends a program. -/
def Token.endingAt (e t : Token) : Token := if t.kind = .eof then e else t

theorem Token.endingAt_of_ne {e t : Token} (h : t.kind ≠ .eof) : e.endingAt t = t := if_neg h

theorem Token.endingAt_alike {e : Token} (isEnd : e.kind = .eof) : Parse.Alike e.endingAt where
  kind t := by
    unfold endingAt
    split
    next same => rw [isEnd, same]
    · rfl
  literal t constant := by
    have other : t.kind ≠ .eof := by rcases constant with is | is <;> simp [is]
    rw [endingAt_of_ne other]

namespace Parse

theorem parse_of_start {ts us : List Token} (h : State.start ts = State.start us) :
    parse ts = parse us := by
  unfold parse
  rw [h]

/-- What is parsed stays the same if the tokens that are given do. -/
theorem statements_relabel_eq {f : Token → Token} {ts : List Token} (fixed : ∀ t ∈ ts, f t = t) :
    (parse ts).statements.map (Stmt.relabel f) = (parse ts).statements := by
  have formed : ∀ s ∈ (parse ts).statements, s.WellFormed ts :=
    (declarations_builds (rules_form ts maxDepth) (fun _ => false) _
      (List.takeWhile_prefix _).subset).2
  rw [List.map_congr_left fun s among => (formed s among).relabel_eq fixed, List.map_id']

end Parse

/-- The end of a program is handled the same however it is written. What stands behind the first
token of kind `eof` is never looked at; a missing one is made up on the line of the last token; and
nothing of it decides what is parsed, so that another one only takes its place in the errors that
are reported there. A parse starts from the tokens in front of the end; that a cursor over all
tokens never gets to see any other is `parse_walks`. -/
theorem parse_ending {ts : List Token} (inside : ∀ t ∈ ts, t.kind ≠ .eof) {e : Token}
    (isEnd : e.kind = .eof) (rest : List Token) :
    parse (ts ++ [e] ++ rest) = parse (ts ++ [e]) ∧
      parse ts = parse (ts ++ [Token.eof (ts.getLast?.elim 1 (·.line))]) ∧
      parse (ts ++ [e]) =
        ⟨(parse ts).statements, (parse ts).errors.map (ParseError.relabel e.endingAt)⟩ := by
  let made : Token := .eof (ts.getLast?.elim 1 (·.line))
  have cut : parse (ts ++ [e] ++ rest) = parse (ts ++ [e]) := by
    refine Parse.parse_of_start ?_
    rw [List.append_assoc, List.singleton_append, Parse.State.start_closed inside isEnd rest,
      Parse.State.start_closed inside isEnd []]
  have supplied : parse ts = parse (ts ++ [made]) := by
    refine Parse.parse_of_start ?_
    rw [Parse.State.start_open inside, Parse.State.start_closed inside (e := made) rfl []]
  have fixed : ∀ t ∈ ts, e.endingAt t = t := fun t among => Token.endingAt_of_ne (inside t among)
  have swapped : (ts ++ [made]).map e.endingAt = ts ++ [e] := by
    rw [List.map_append, List.map_congr_left fixed, List.map_id']
    rfl
  have closed : ∃ t ∈ ts ++ [made], t.kind = .eof := ⟨made, by simp, rfl⟩
  -- No tree has a place for the token at the end, so only errors can hold it.
  have swap := Parse.parse_map (Token.endingAt_alike isEnd) closed
  rw [swapped, ← supplied, Parsed.relabel, Parse.statements_relabel_eq fixed] at swap
  exact ⟨cut, supplied, swap⟩

/-- `f(a`, a list that is not closed. -/
def openCall : List Token :=
  [⟨.identifier, "f", none, 1⟩, ⟨.leftParen, "(", none, 1⟩, ⟨.identifier, "a", none, 2⟩]

theorem parse_ending_openCall :
    (∀ t ∈ openCall, t.kind ≠ .eof) ∧
      (parse openCall).errors = [⟨.eof 2, .noMark .rightParen .afterArguments⟩] ∧
      let e : Token := ⟨.eof, "end", some (.string "x"), 7⟩
      parse (openCall ++ [e] ++ [⟨.semicolon, ";", none, 8⟩]) = parse (openCall ++ [e]) ∧
        parse openCall = parse (openCall ++ [Token.eof (openCall.getLast?.elim 1 (·.line))]) ∧
        parse (openCall ++ [e]) = ⟨(parse openCall).statements,
          (parse openCall).errors.map (ParseError.relabel e.endingAt)⟩ := by
  have inside : ∀ t ∈ openCall, t.kind ≠ .eof := by decide
  have reported : (parse openCall).errors = [⟨.eof 2, .noMark .rightParen .afterArguments⟩] := by
    decide +kernel
  exact ⟨inside, reported, parse_ending inside rfl _⟩

end LoxSyntax
