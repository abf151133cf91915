import LoxSyntax.Proofs.Grammar.Expansion
import LoxSyntax.Proofs.Parse.ProgramCompleteness
import Mathlib.Data.List.Basic

namespace LoxSyntax

open Grammar

namespace Stmt

def isExpression : Stmt → Bool
  | .expression _ => true
  | _ => false

def isVariable : Stmt → Bool
  | .varDecl .. => true
  | _ => false

/-- Whether a statement declares a class, a function or a variable. -/
def isDeclaration : Stmt → Bool
  | .classDecl .. | .function _ | .varDecl .. => true
  | _ => false

end Stmt

namespace Parse

/-- The tokens that are read: those in front of the end of the program. -/
def readable (ts : List Token) : List Token := ts.takeWhile (·.kind != .eof)

theorem readable_append {ts : List Token} (inside : Inside ts) (us : List Token) :
    readable (ts ++ us) = ts ++ readable us :=
  List.takeWhile_append_of_pos (by simpa [Inside] using inside)

theorem readable_eq {ts : List Token} (inside : Inside ts) : readable ts = ts := by
  have all := readable_append inside []
  simpa [readable] using all

theorem readable_append_cut {ts us : List Token} (cut : ¬ Inside ts) :
    readable (ts ++ us) = readable ts := by
  induction ts with
  | nil => exact absurd Inside.nil cut
  | cons t ts ih =>
    unfold readable at ih ⊢
    rw [List.cons_append, List.takeWhile_cons, List.takeWhile_cons]
    by_cases ends : t.kind = .eof
    · simp [ends]
    · have rest : ¬ Inside ts := fun h => cut (List.forall_mem_cons.mpr ⟨ends, h⟩)
      simp [ends, ih rest]

/-- What is parsed is what can be read. -/
theorem readable_ended {ts us : List Token} (ends : readable us = []) :
    readable (ts ++ us) = readable ts := by
  by_cases inside : Inside ts
  · rw [readable_append inside, readable_eq inside, ends, List.append_nil]
  · exact readable_append_cut inside

/-- Where brackets stand open, the end of the program would leave them so. -/
theorem inside_of_tally {ts front : List Token} (before : Inside front) (us : List Token)
    (opened : 0 < tally bracket front) (even : tally bracket (readable ts) = 0)
    (whole : tally bracket (readable (front ++ (ts ++ us))) = 0) : Inside ts := by
  by_contra cut
  rw [readable_append before, readable_append_cut cut, tally_append] at whole
  omega

/-- The tokens are parsed without an error to one such statement. -/
def ParsesAs (sort : Stmt → Bool) (ts : List Token) : Prop :=
  ∃ s, parse ts = ⟨[s], []⟩ ∧ sort s = true

theorem ParsesAs.of_sorts {sort : Stmt → Bool} {ts : List Token} (accepted : (parse ts).errors = [])
    (one : (parse ts).statements.map sort = [true]) : ParsesAs sort ts := by
  obtain ⟨s, only, is⟩ := List.map_eq_singleton_iff.mp one
  exact ⟨s, by rw [← only, ← accepted], is⟩

theorem ParsesAs.declared {sort : Stmt → Bool} {ts : List Token} (h : ParsesAs sort ts) :
    ∃ d : Derivation .declaration, d.tokens = readable ts ∧ d.Proper ∧ sort d.tree = true := by
  obtain ⟨s, parsed, is⟩ := h
  obtain ⟨D, tokens, proper, -, tree⟩ := parse_sound ts (by rw [parsed])
  rw [parsed] at tree
  match D with
  | .noDeclarations => cases tree
  | .moreDeclarations d (.moreDeclarations _ _) => cases tree
  | .moreDeclarations d .noDeclarations =>
    obtain rfl : d.tree = s := List.cons.inj tree |>.1
    exact ⟨d, by rw [readable, ← tokens]; exact (List.append_nil _).symm, proper.1, is⟩

/-- A loop denotes a loop, or a block with one in it. -/
theorem loop_plain (init : Option Stmt) (condition increment : Option Expr) (body : Stmt) :
    (loop init condition increment body).isExpression = false ∧
      (loop init condition increment body).isDeclaration = false := by
  cases init <;> exact ⟨rfl, rfl⟩

theorem form_plain (F : Derivation .form) : F.tree.isDeclaration = false := by
  cases F with
  | forLoop => exact (loop_plain _ _ _ _).2
  | ofExprStmt E => cases E; rfl
  | _ => rfl

theorem exists_statement {d : Derivation .declaration} (h : d.tree.isDeclaration = false) :
    ∃ S, d = .ofStatement S := by
  cases d with
  | ofStatement S => exact ⟨S, rfl⟩
  | funDecl | classDecl => cases h
  | varDecl _ decl => cases decl; cases h

theorem exists_exprStmt {d : Derivation .declaration} (h : d.tree.isExpression = true) :
    ∃ E, d = .ofStatement (.statement (.ofExprStmt E)) := by
  have plain : d.tree.isDeclaration = false := by
    cases shape : d.tree <;> simp_all [Stmt.isExpression, Stmt.isDeclaration]
  obtain ⟨S, rfl⟩ := exists_statement plain
  cases S with
  | statement F =>
    cases F with
    | ofExprStmt E => exact ⟨E, rfl⟩
    | forLoop => exact absurd ((loop_plain _ _ _ _).1.symm.trans h) Bool.false_ne_true
    | _ => cases h

theorem exists_varDecl {d : Derivation .declaration} (h : d.tree.isVariable = true) :
    ∃ keyword decl, d = .varDecl keyword decl := by
  cases d with
  | varDecl keyword decl => exact ⟨keyword, decl, rfl⟩
  | ofStatement S =>
    cases S with
    | statement F =>
      have plain := form_plain F
      change F.tree.isVariable = true at h
      cases shape : F.tree <;> simp_all [Stmt.isVariable, Stmt.isDeclaration]
  | funDecl | classDecl => cases h

theorem exists_init {I : List Token} (empty : Terminal .semicolon)
    (h : I = [] ∨ ParsesAs (fun s => s.isVariable || s.isExpression) I) :
    ∃ init : Derivation .forInit, init.clause = readable I ∧
      (init.clause = [] → init.tokens = [empty.1]) ∧ init.Proper := by
  rcases h with rfl | parsed
  · exact ⟨.noInit empty, rfl, fun _ => rfl, trivial⟩
  · obtain ⟨d, tokens, proper, is⟩ := parsed.declared
    have some : d.tokens ≠ [] := d.tokens_ne_nil rfl
    obtain ⟨init, asDeclaration⟩ :
        ∃ init : Derivation .forInit, init.asDeclaration = Option.some d := by
      rcases (Bool.or_eq_true _ _).mp is with isVariable | isExpression
      · obtain ⟨keyword, decl, rfl⟩ := exists_varDecl isVariable
        exact ⟨.varInit keyword decl, rfl⟩
      · obtain ⟨E, rfl⟩ := exists_exprStmt isExpression
        exact ⟨.exprInit E, rfl⟩
    have clause : init.clause = d.tokens := by simp [Derivation.clause, asDeclaration]
    refine ⟨init, clause.trans tokens, fun none => ?_, ?_⟩
    · exact absurd (clause ▸ none) some
    · exact (Derivation.proper_asDeclaration asDeclaration).mp proper

/-- A clause is an expression, unless it holds the end of a program. -/
theorem exists_optional {C : List Token}
    (h : C = [] ∨ ∃ semicolon : Terminal .semicolon,
      ParsesAs Stmt.isExpression (C ++ [semicolon.1])) :
    tally bracket (readable C) = 0 ∧
      (Inside C → ∃ clause : Derivation .optional, clause.tokens = C ∧ clause.Proper) := by
  rcases h with rfl | ⟨semicolon, parsed⟩
  · exact ⟨rfl, fun _ => ⟨.absent, rfl, trivial⟩⟩
  · obtain ⟨d, tokens, proper, is⟩ := parsed.declared
    obtain ⟨E, rfl⟩ := exists_exprStmt is
    obtain ⟨e, closing, rfl⟩ : ∃ e closing, E = .exprStmt e closing := by
      cases E with
      | exprStmt e closing => exact ⟨e, closing, rfl⟩
    have whole : e.tokens ++ [closing.1] = readable (C ++ [semicolon.1]) := tokens
    by_cases inside : Inside C
    · have both : Inside (C ++ [semicolon.1]) := inside.append (.alone semicolon)
      rw [readable_eq both] at whole
      have same : e.tokens = C := List.append_inj_left' whole rfl
      refine ⟨?_, fun _ => ⟨.present e, same, proper⟩⟩
      rw [readable_eq inside, ← same]
      exact e.tally_bracket
    · refine ⟨?_, fun h => absurd h inside⟩
      rw [readable_append_cut inside] at whole
      rw [← whole, tally_append, e.tally_bracket]
      simp [bracket, kind_terminal]

theorem exists_body {B : List Token} (h : ParsesAs (fun s => !s.isDeclaration) B) :
    ∃ body : Derivation .statement, body.tokens = readable B ∧ body.Proper := by
  obtain ⟨d, tokens, proper, is⟩ := h.declared
  obtain ⟨S, rfl⟩ := exists_statement (by simpa using is)
  exact ⟨S, tokens, proper⟩

theorem inside_orToken {C : List Token} {kind : TokenKind} (t : Terminal kind) (inside : Inside C)
    (other : kind ≠ .eof) : Inside (orToken C t.1) := by
  unfold orToken
  split
  · exact .alone t other
  · exact inside

theorem tally_orToken {C : List Token} {kind : TokenKind} (t : Terminal kind)
    (plain : bracket kind = 0) (even : tally bracket C = 0) :
    tally bracket (orToken C t.1) = 0 := by
  unfold orToken
  split
  · simp [kind_terminal, plain]
  · exact even

/-- The end of the program is in no clause of a loop, and in its body only where no bracket stands
open in front of the loop and none behind it. -/
theorem loop_inside (w : WhileMarks) {C N B front : List Token} (us : List Token)
    (before : Inside front) (opened : 0 ≤ tally bracket front)
    (evenC : tally bracket (readable C) = 0) (evenN : tally bracket (readable N) = 0)
    (evenB : tally bracket (readable B) = 0)
    (whole : tally bracket (readable (front ++ (w.loop C N B ++ us))) = 0) :
    Inside C ∧ Inside N ∧ (Inside B ∨ tally bracket front = 0 ∧ N = []) := by
  have condition : Inside C := by
    by_cases none : C = []
    · exact none ▸ .nil
    · have opening : Inside (front ++ [w.keyword.1, w.opening.1]) :=
        before.append (.cons w.keyword (.alone w.opening))
      apply inside_of_tally opening (w.closing.1 :: w.round N B ++ us)
      · simp [bracket, kind_terminal]
        omega
      · exact evenC
      · simpa [WhileMarks.loop, orToken, none] using whole
  let head := front ++ w.keyword.1 :: w.opening.1 :: (orToken C w.truth.1 ++ [w.closing.1])
  have insideHead : Inside head := before.append (.cons w.keyword (.cons w.opening
    ((inside_orToken w.truth condition (by decide)).append (.alone w.closing))))
  have openedHead : tally bracket head = tally bracket front := by
    have tested := tally_orToken w.truth rfl (readable_eq condition ▸ evenC)
    simp [head, bracket, kind_terminal, tested]
  have rounds : tally bracket (readable (head ++ (w.round N B ++ us))) = 0 := by
    simpa [head, WhileMarks.loop] using whole
  by_cases none : N = []
  · refine ⟨condition, none ▸ .nil, ?_⟩
    rw [WhileMarks.round, if_pos none] at rounds
    rcases Int.lt_or_eq_of_le opened with some | even
    · exact .inl (inside_of_tally insideHead us (openedHead ▸ some) evenB rounds)
    · exact .inr ⟨even.symm, none⟩
  · have insideBody : Inside (head ++ [w.innerOpening.1]) :=
      insideHead.append (.alone w.innerOpening)
    have openedBody : 0 < tally bracket (head ++ [w.innerOpening.1]) := by
      simp [openedHead, bracket, kind_terminal]
      omega
    rw [WhileMarks.round, if_neg none] at rounds
    have body : Inside B := inside_of_tally insideBody
      (N ++ [w.semicolon.1, w.innerClosing.1] ++ us) openedBody evenB (by simpa using rounds)
    refine ⟨condition, ?_, .inl body⟩
    apply inside_of_tally (insideBody.append body) ([w.semicolon.1, w.innerClosing.1] ++ us)
    · rw [tally_append, ← readable_eq body, evenB]
      omega
    · exact evenN
    · simpa using rounds

theorem expansion_inside (w : WhileMarks) {I C N B us : List Token}
    (evenI : tally bracket (readable I) = 0) (evenC : tally bracket (readable C) = 0)
    (evenN : tally bracket (readable N) = 0) (evenB : tally bracket (readable B) = 0)
    (whole : tally bracket (readable (w.expansion I C N B ++ us)) = 0) :
    Inside I ∧ Inside C ∧ Inside N ∧ (Inside B ∨ I = [] ∧ N = []) := by
  unfold WhileMarks.expansion at whole
  by_cases none : I = []
  · rw [if_pos none] at whole
    obtain ⟨condition, increment, body⟩ :=
      loop_inside w us .nil (Int.le_refl 0) evenC evenN evenB whole
    exact ⟨none ▸ .nil, condition, increment, body.imp id fun h => ⟨none, h.2⟩⟩
  · rw [if_neg none] at whole
    have init : Inside I := inside_of_tally (.alone w.outerOpening)
      (w.loop C N B ++ [w.outerClosing.1] ++ us) (by simp [bracket, kind_terminal])
      evenI (by simpa using whole)
    have opened : tally bracket (w.outerOpening.1 :: I) = 1 := by
      rw [readable_eq init] at evenI
      simp [bracket, kind_terminal, evenI]
    obtain ⟨condition, increment, body⟩ := loop_inside w ([w.outerClosing.1] ++ us)
      (.cons w.outerOpening init) (by omega) evenC evenN evenB (by simpa using whole)
    refine ⟨init, condition, increment, body.imp id fun h => ?_⟩
    omega

/-- Only the body may hold the end of the program, where nothing stands behind it. -/
theorem readable_expansion (w : WhileMarks) {I C N B us : List Token} (init : Inside I)
    (condition : Inside C) (increment : Inside N) (body : Inside B ∨ I = [] ∧ N = [])
    (ends : readable us = []) :
    readable (w.expansion I C N B ++ us) = w.expansion I C N (readable B) := by
  have tested := inside_orToken w.truth condition (by decide)
  rw [readable_ended ends]
  rcases body with body | ⟨rfl, rfl⟩
  · have round : Inside (w.round N B) := by
      unfold WhileMarks.round
      split
      · exact body
      · exact .cons w.innerOpening (body.append (increment.append
          (.cons w.semicolon (.alone w.innerClosing))))
    have loop : Inside (w.loop C N B) :=
      .cons w.keyword (.cons w.opening (tested.append (.cons w.closing round)))
    rw [readable_eq body]
    apply readable_eq
    unfold WhileMarks.expansion
    split
    · exact loop
    · exact .cons w.outerOpening (init.append (loop.append (.alone w.outerClosing)))
  · have head : Inside (w.keyword.1 :: w.opening.1 :: (orToken C w.truth.1 ++ [w.closing.1])) :=
      .cons w.keyword (.cons w.opening (tested.append (.alone w.closing)))
    have whole := readable_append head B
    simpa [WhileMarks.expansion, WhileMarks.loop, WhileMarks.round] using whole

theorem readable_loop {I C N B : List Token} (m : ForMarks) {us : List Token} (init : Inside I)
    (condition : Inside C) (increment : Inside N) (ends : readable us = []) :
    readable (m.loop I C N B ++ us) = m.loop I C N (readable B) := by
  have head : Inside (m.keyword.1 :: m.opening.1 :: (orToken I m.empty.1 ++ (C ++ m.second.1 ::
      (N ++ [m.closing.1])))) :=
    .cons m.keyword (.cons m.opening ((inside_orToken m.empty init (by decide)).append
      (condition.append (.cons m.second (increment.append (.alone m.closing))))))
  have whole := readable_append head B
  rw [readable_ended ends]
  simpa [ForMarks.loop] using whole

end Parse

open Parse

/-- Clauses that are parsed by themselves are those of a loop and of its expansion, if the expansion
is accepted. -/
theorem exists_clauses {I C N B ending : List Token} (m : ForMarks) (w : WhileMarks)
    (init : I = [] ∨ ParsesAs (fun s => s.isVariable || s.isExpression) I)
    (condition : C = [] ∨ ∃ semicolon : Terminal .semicolon,
      ParsesAs Stmt.isExpression (C ++ [semicolon.1]))
    (increment : N = [] ∨ ∃ semicolon : Terminal .semicolon,
      ParsesAs Stmt.isExpression (N ++ [semicolon.1]))
    (body : ParsesAs (fun s => !s.isDeclaration) B) (ends : ∀ t ∈ ending.head?, t.kind = .eof)
    (accepted : (parse (w.expansion I C N B ++ ending)).errors = []) :
    ∃ c : Clauses, c.Proper ∧ readable (w.expansion I C N B ++ ending) = (c.expansion w).tokens ∧
      readable (m.loop I C N B ++ ending) = (c.source m).tokens := by
  obtain ⟨initD, initTokens, initEmpty, initProper⟩ := exists_init m.empty init
  obtain ⟨evenC, conditionRead⟩ := exists_optional condition
  obtain ⟨evenN, incrementRead⟩ := exists_optional increment
  obtain ⟨bodyD, bodyTokens, bodyProper⟩ := exists_body body
  have evenI : tally bracket (readable I) = 0 := by
    rw [← initTokens, Derivation.clause]
    cases initD.asDeclaration with
    | none => rfl
    | some d => exact d.tally_bracket
  have evenB : tally bracket (readable B) = 0 := bodyTokens ▸ bodyD.tally_bracket
  have ended : readable ending = [] := by
    cases ending with
    | nil => rfl
    | cons t us => simp [readable, ends t rfl]
  -- What was accepted leaves no bracket open, so the clauses are whole.
  obtain ⟨E, expanded, -, -, -⟩ := parse_sound _ accepted
  have whole : tally bracket (readable (w.expansion I C N B ++ ending)) = 0 :=
    (congrArg (tally bracket) expanded).symm.trans E.tally_bracket
  obtain ⟨insideI, insideC, insideN, insideB⟩ := expansion_inside w evenI evenC evenN evenB whole
  obtain ⟨conditionD, conditionTokens, conditionProper⟩ := conditionRead insideC
  obtain ⟨incrementD, incrementTokens, incrementProper⟩ := incrementRead insideN
  rw [readable_eq insideI] at initTokens
  let c : Clauses := ⟨initD, conditionD, incrementD, bodyD⟩
  refine ⟨c, ⟨initProper, conditionProper, incrementProper, bodyProper⟩, ?_, ?_⟩
  · rw [readable_expansion w insideI insideC insideN insideB ended, c.expansion_tokens, initTokens,
      conditionTokens, incrementTokens, bodyTokens]
  · rw [readable_loop m insideI insideC insideN ended, c.source_tokens m initEmpty, initTokens,
      conditionTokens, incrementTokens, bodyTokens]

/-- A `for` loop means its expansion. Of clauses that are parsed by themselves, each to what may
stand there, it is parsed without an error as soon as the expansion is, and to the same. -/
theorem parse_for (m : ForMarks) (w : WhileMarks) (I C N B ending : List Token)
    (init : I = [] ∨ ParsesAs (fun s => s.isVariable || s.isExpression) I)
    (condition : C = [] ∨ ∃ semicolon : Terminal .semicolon,
      ParsesAs Stmt.isExpression (C ++ [semicolon.1]))
    (increment : N = [] ∨ ∃ semicolon : Terminal .semicolon,
      ParsesAs Stmt.isExpression (N ++ [semicolon.1]))
    (body : ParsesAs (fun s => !s.isDeclaration) B)
    (ends : ∀ t ∈ ending.head?, t.kind = .eof)
    (accepted : (parse (w.expansion I C N B ++ ending)).errors = []) :
    parse (m.loop I C N B ++ ending) =
      ⟨(parse (w.expansion I C N B ++ ending)).statements, []⟩ := by
  obtain ⟨c, proper, readE, readF⟩ := exists_clauses m w init condition increment body ends accepted
  let one (d : Derivation .declaration) : Program := .moreDeclarations d .noDeclarations
  have outcomeE := program_parsed (one (c.expansion w)) ⟨c.expansion_proper w proper, trivial⟩
    (readE.trans (List.append_nil _).symm)
  have outcomeF := program_parsed (one (c.source m)) ⟨proper, trivial⟩
    (readF.trans (List.append_nil _).symm)
  -- The loop nests no deeper than its expansion, which was read.
  have fits : (one (c.expansion w)).nesting ≤ maxDepth := by
    by_contra beyond
    obtain ⟨t, deep⟩ := outcomeE.2 (by omega)
    rw [accepted] at deep
    cases deep
  have nested : (one (c.source m)).nesting ≤ (one (c.expansion w)).nesting := by
    have first := c.source_nesting_le m w
    change max (c.source m).nesting 0 ≤ max (c.expansion w).nesting 0
    omega
  rw [outcomeF.1 (Nat.le_trans nested fits), outcomeE.1 fits]
  exact congrArg (fun s => Parsed.mk [s] []) (c.expansion_tree m w).symm

/-- A mark on the first line. -/
def markOf (kind : TokenKind) (lexeme : String) : Terminal kind :=
  ⟨⟨kind, lexeme, none, 1⟩, Eq.refl kind⟩

/-- `for ( … ; … ; … )`, all on one line. -/
def forMarks : ForMarks where
  keyword := markOf .forKw "for"
  opening := markOf .leftParen "("
  empty := markOf .semicolon ";"
  second := markOf .semicolon ";"
  closing := markOf .rightParen ")"

/-- `{ … while ( … ) { … ; } }`, with `true` to be tested where nothing is. -/
def whileMarks : WhileMarks where
  keyword := markOf .whileKw "while"
  opening := markOf .leftParen "("
  truth := markOf .trueKw "true"
  closing := markOf .rightParen ")"
  semicolon := markOf .semicolon ";"
  innerOpening := markOf .leftBrace "\x7b"
  innerClosing := markOf .rightBrace "\x7d"
  outerOpening := markOf .leftBrace "\x7b"
  outerClosing := markOf .rightBrace "\x7d"

/-- `var i;` -/
def countedVariable : List Token :=
  [⟨.varKw, "var", none, 1⟩, ⟨.identifier, "i", none, 1⟩, ⟨.semicolon, ";", none, 1⟩]

/-- `f(i)` -/
def countingCall : List Token :=
  [⟨.identifier, "f", none, 1⟩, ⟨.leftParen, "(", none, 1⟩, ⟨.identifier, "i", none, 1⟩,
    ⟨.rightParen, ")", none, 1⟩]

/-- `if (i) print i;` -/
def guardedPrint : List Token :=
  [⟨.ifKw, "if", none, 1⟩, ⟨.leftParen, "(", none, 1⟩, ⟨.identifier, "i", none, 1⟩,
    ⟨.rightParen, ")", none, 1⟩, ⟨.printKw, "print", none, 1⟩, ⟨.identifier, "i", none, 1⟩,
    ⟨.semicolon, ";", none, 1⟩]

/-- `for (var i; ; f(i)) if (i) print i;` -/
theorem parse_for_counting :
    ParsesAs (fun s => s.isVariable || s.isExpression) countedVariable ∧
    ParsesAs Stmt.isExpression (countingCall ++ [forMarks.second.1]) ∧
    ParsesAs (fun s => !s.isDeclaration) guardedPrint ∧ (Token.eof 1).kind = .eof ∧
    (parse (whileMarks.expansion countedVariable [] countingCall guardedPrint ++
      [.eof 1])).errors = [] ∧
    parse (forMarks.loop countedVariable [] countingCall guardedPrint ++ [.eof 1]) =
      ⟨(parse (whileMarks.expansion countedVariable [] countingCall guardedPrint ++
        [.eof 1])).statements, []⟩ := by
  have init : ParsesAs (fun s => s.isVariable || s.isExpression) countedVariable :=
    .of_sorts (by decide +kernel) (by decide +kernel)
  have increment : ParsesAs Stmt.isExpression (countingCall ++ [forMarks.second.1]) :=
    .of_sorts (by decide +kernel) (by decide +kernel)
  have body : ParsesAs (fun s => !s.isDeclaration) guardedPrint :=
    .of_sorts (by decide +kernel) (by decide +kernel)
  have accepted : (parse (whileMarks.expansion countedVariable [] countingCall guardedPrint ++
      [.eof 1])).errors = [] := by
    decide +kernel
  exact ⟨init, increment, body, rfl, accepted, parse_for forMarks whileMarks _ _ _ _ _ (.inr init)
    (.inl rfl) (.inr ⟨forMarks.second, increment⟩) body (by simp [Token.eof]) accepted⟩

end LoxSyntax
