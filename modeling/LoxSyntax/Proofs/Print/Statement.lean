import LoxSyntax.Proofs.Print.Expression

namespace LoxSyntax

namespace Grammar

/-- A derivation of the text of a statement, over these lines: what it denotes is the statement but
for groupings, and has the same text. -/
structure StmtWritten {n : Symbol} (s t : Stmt) (line : Nat) (D : Derivation n) (line' : Nat) :
    Prop where
  spells : Spells Anything s.text.toList line D.tokens line'
  bare : t.bare = s.bare
  text : t.text = s.text
  proper : D.Proper
  nesting : D.nesting = s.levels

/-- The same of the statements of a body. -/
structure BodyWritten {n : Symbol} (body ss : List Stmt) (D : Derivation n) : Prop where
  bare : ss.map Stmt.bare = body.map Stmt.bare
  texts : ss.map Stmt.text = body.map Stmt.text
  proper : D.Proper
  nesting : D.nesting = Stmt.levelsAll body

/-- The text of a statement has such a derivation, which ends in an `if` that an `else` would join
only if it is said to be open. -/
def RereadsStatement (isOpen : Bool) (s : Stmt) : Prop :=
  ∀ line, ∃ (line' : Nat) (D : Derivation .statement), StmtWritten s D.tree line D line' ∧
    (D.endsOpen = true → isOpen = true)

def RereadsDeclaration (s : Stmt) : Prop :=
  ∀ line, ∃ (line' : Nat) (D : Derivation .declaration), StmtWritten s D.tree line D line'

/-- The same of a function or a method. -/
def RereadsFunction (f : Function) : Prop :=
  ∀ line, ∃ (line' : Nat) (D : Derivation .function),
    Spells Anything (Stmt.functionText f).toList line D.tokens line' ∧
    Stmt.bareFunction D.tree = Stmt.bareFunction f ∧
    Stmt.functionText D.tree = Stmt.functionText f ∧ D.Proper ∧
    D.nesting = Stmt.functionLevels f

theorem RereadsStatement.declaration {isOpen : Bool} {s : Stmt} (h : RereadsStatement isOpen s) :
    RereadsDeclaration s := by
  intro line
  obtain ⟨line', D, written, -⟩ := h line
  exact ⟨line', .ofStatement D, written.spells, written.bare, written.text, written.proper,
    written.nesting⟩

theorem RereadsStatement.weaken {isOpen : Bool} {s : Stmt} (h : RereadsStatement false s) :
    RereadsStatement isOpen s := by
  intro line
  obtain ⟨line', D, written, closed⟩ := h line
  exact ⟨line', D, written, fun ends => absurd (closed ends) Bool.false_ne_true⟩

theorem expression_rereads {e : Expr} (h : Printed e) : RereadsStatement false (.expression e) := by
  intro line
  obtain ⟨line', D, written⟩ := h.assignment.2 line
  refine ⟨line', .statement (.ofExprStmt (.exprStmt (.expression D)
    (.spelled .semicolon ";" line'))), ⟨?_, ?_, ?_, written.proper, ?_⟩, id⟩
  · have whole : (Stmt.expression e).text.toList = e.text.toList ++ [';'] := by simp [Stmt.text]
    rw [whole]
    exact written.spells.ended
  · change Stmt.expression D.tree.bare = _
    rw [written.bare]
    rfl
  · change D.tree.text ++ ";" = _
    rw [written.text]
    rfl
  · change D.nesting + 1 + 1 = e.levels + 2
    rw [written.nesting]

theorem print_rereads {e : Expr} (h : Printed e) : RereadsStatement false (.print e) := by
  intro line
  obtain ⟨line', D, written⟩ := h.assignment.2 line
  refine ⟨line', .statement (.print (.spelled .printKw "print" line) (.expression D)
    (.spelled .semicolon ";" line')), ⟨?_, ?_, ?_, written.proper, ?_⟩, id⟩
  · have whole : (Stmt.print e).text.toList = "print".toList ++ ' ' :: (e.text.toList ++ [';']) := by
      simp [Stmt.text]
    rw [whole]
    exact .led rfl written.spells.ended
  · change Stmt.print D.tree.bare = _
    rw [written.bare]
    rfl
  · change "print " ++ D.tree.text ++ ";" = _
    rw [written.text]
    rfl
  · change D.nesting + 1 + 1 = e.levels + 2
    rw [written.nesting]

theorem ret_rereads {keyword : Token} {value : Option Expr} (is : keyword.kind = .returnKw)
    (spelled : keyword.Spelled) (h : ∀ e ∈ value, Printed e) :
    RereadsStatement false (.ret keyword value) := by
  intro line
  have same := spelled.onLine_eq is rfl 0
  cases value with
  | none =>
    refine ⟨line, .statement (.ret (.spelled .returnKw "return" line) .absent
      (.spelled .semicolon ";" line)), ⟨?_, ?_, rfl, trivial, rfl⟩, id⟩
    · have only : TokenKind.returnKw.spelling? = some "return" := rfl
      have whole : (Stmt.ret keyword none).text.toList = "return".toList ++ [';'] := by
        simp [Stmt.text]
      rw [whole]
      exact (Spells.spelling only).ended
    · change Stmt.ret _ none = Stmt.ret (keyword.onLine 0) none
      rw [same]
      rfl
  | some e =>
    obtain ⟨line', D, written⟩ := (h e rfl).assignment.2 line
    refine ⟨line', .statement (.ret (.spelled .returnKw "return" line) (.present (.expression D))
      (.spelled .semicolon ";" line')), ⟨?_, ?_, ?_, written.proper, ?_⟩, id⟩
    · have whole : (Stmt.ret keyword (some e)).text.toList =
          "return".toList ++ ' ' :: (e.text.toList ++ [';']) := by
        simp [Stmt.text]
      rw [whole]
      exact .led rfl written.spells.ended
    · change Stmt.ret _ (some D.tree.bare) = Stmt.ret (keyword.onLine 0) (some e.bare)
      rw [written.bare, same]
      rfl
    · change "return " ++ D.tree.text ++ ";" = _
      rw [written.text]
      rfl
    · change D.nesting + 1 + 1 = e.levels + 2
      rw [written.nesting]

theorem whileLoop_rereads {isOpen : Bool} {s : Stmt} {e : Expr} (h : Printed e)
    (hbody : RereadsStatement isOpen s) : RereadsStatement isOpen (.whileLoop e s) := by
  intro line
  obtain ⟨line', C, c⟩ := h.assignment.2 line
  obtain ⟨line'', B, b, ends⟩ := hbody line'
  refine ⟨line'', .statement (.whileLoop (.spelled .whileKw "while" line)
    (.spelled .leftParen "(" line) (.expression C) (.spelled .rightParen ")" line') B),
    ⟨?_, ?_, ?_, ⟨c.proper, b.proper⟩, ?_⟩, ends⟩
  · have whole : (Stmt.whileLoop e s).text.toList =
        "while".toList ++ ' ' :: '(' :: (e.text.toList ++ ')' :: ' ' :: s.text.toList) := by
      simp [Stmt.text]
    rw [whole]
    exact .led rfl (c.spells.conditioned b.spells)
  · change Stmt.whileLoop C.tree.bare B.tree.bare = _
    rw [c.bare, b.bare]
    rfl
  · change "while (" ++ C.tree.text ++ ") " ++ B.tree.text = _
    rw [c.text, b.text]
    rfl
  · change max (C.nesting + 1) B.nesting + 1 = max (e.levels + 1) s.levels + 1
    rw [c.nesting, b.nesting]

/-- An `if` alone is open. -/
theorem ifAlone_rereads {isOpen : Bool} {s : Stmt} {e : Expr} (h : Printed e)
    (hthen : RereadsStatement isOpen s) : RereadsStatement true (.ifElse e s none) := by
  intro line
  obtain ⟨line', C, c⟩ := h.assignment.2 line
  obtain ⟨line'', B, b, -⟩ := hthen line'
  refine ⟨line'', .statement (.ifElse (.spelled .ifKw "if" line) (.spelled .leftParen "(" line)
    (.expression C) (.spelled .rightParen ")" line') B .noElse),
    ⟨?_, ?_, ?_, ⟨c.proper, b.proper, trivial, nofun⟩, ?_⟩, fun _ => rfl⟩
  · have whole : (Stmt.ifElse e s none).text.toList =
        "if".toList ++ ' ' :: '(' :: (e.text.toList ++ ')' :: ' ' :: (s.text.toList ++ [])) := by
      simp [Stmt.text]
    rw [whole]
    have branch : Spells Anything _ line' _ line'' := b.spells.append .nil fun _ _ => trivial
    exact .led rfl (c.spells.conditioned branch)
  · change Stmt.ifElse C.tree.bare B.tree.bare none = _
    rw [c.bare, b.bare]
    rfl
  · change "if (" ++ C.tree.text ++ ") " ++ B.tree.text = _
    rw [c.text, b.text]
    rfl
  · change max (C.nesting + 1) (max B.nesting 0) + 1 = max (e.levels + 1) s.levels + 1
    rw [c.nesting, b.nesting, Nat.max_zero]

/-- The branch in front of an `else` is closed, so the `else` stays with its `if`. -/
theorem ifElse_rereads {isOpen : Bool} {s t : Stmt} {e : Expr} (h : Printed e)
    (hthen : RereadsStatement false s) (helse : RereadsStatement isOpen t) :
    RereadsStatement isOpen (.ifElse e s (some t)) := by
  intro line
  obtain ⟨line', C, c⟩ := h.assignment.2 line
  obtain ⟨line'', B, b, ends⟩ := hthen line'
  obtain ⟨line₃, E, els, ends'⟩ := helse line''
  have closed : B.endsOpen = false := Bool.eq_false_iff.mpr fun is => absurd (ends is) nofun
  refine ⟨line₃, .statement (.ifElse (.spelled .ifKw "if" line) (.spelled .leftParen "(" line)
    (.expression C) (.spelled .rightParen ")" line') B
    (.elseBranch (.spelled .elseKw "else" line'') E)),
    ⟨?_, ?_, ?_, ⟨c.proper, b.proper, els.proper, fun _ => closed⟩, ?_⟩, ends'⟩
  · have whole : (Stmt.ifElse e s (some t)).text.toList =
        "if".toList ++ ' ' :: '(' :: (e.text.toList ++ ')' :: ' ' ::
          (s.text.toList ++ ' ' :: ("else".toList ++ ' ' :: t.text.toList))) := by
      simp [Stmt.text]
    rw [whole]
    have only : TokenKind.elseKw.spelling? = some "else" := rfl
    have other := Spells.blank (Spells.led only els.spells)
    have branches := b.spells.append other fun _ _ => trivial
    exact .led rfl (c.spells.conditioned branches)
  · change Stmt.ifElse C.tree.bare B.tree.bare (some E.tree.bare) = _
    rw [c.bare, b.bare, els.bare]
    rfl
  · change "if (" ++ C.tree.text ++ ") " ++ B.tree.text ++ " else " ++ E.tree.text = _
    rw [c.text, b.text, els.text]
    rfl
  · change max (C.nesting + 1) (max B.nesting E.nesting) + 1 = _
    rw [c.nesting, b.nesting, els.nesting]
    rfl

theorem varDecl_rereads {name : Token} {value : Option Expr} (named : name.Named)
    (h : ∀ e ∈ value, Printed e) : RereadsDeclaration (.varDecl name value) := by
  intro line
  have declared := Spells.name named line
  cases value with
  | none =>
    refine ⟨line, .varDecl (.spelled .varKw "var" line) (.binding
      (Terminal.onLine ⟨name, named.1⟩ line) .noInitializer (.spelled .semicolon ";" line)),
      ?_, rfl, rfl, trivial, rfl⟩
    have whole : (Stmt.varDecl name none).text.toList =
        "var".toList ++ ' ' :: (name.lexeme.toList ++ [';']) := by
      simp [Stmt.text]
    rw [whole]
    exact .led rfl declared.ended
  | some e =>
    obtain ⟨line', D, written⟩ := (h e rfl).assignment.2 line
    refine ⟨line', .varDecl (.spelled .varKw "var" line) (.binding
      (Terminal.onLine ⟨name, named.1⟩ line) (.initializer (.spelled .equal "=" line)
      (.expression D)) (.spelled .semicolon ";" line')), ?_, ?_, ?_, written.proper, ?_⟩
    · have whole : (Stmt.varDecl name (some e)).text.toList = "var".toList ++ ' ' ::
          (name.lexeme.toList ++ ' ' :: '=' :: ' ' :: (e.text.toList ++ [';'])) := by
        simp [Stmt.text]
      rw [whole]
      have value : Spells Anything _ line _ line' := written.spells.ended
      have binding := declared.append value.equalTo fun _ _ => .of_mark (by decide)
      exact .led rfl binding
    · change Stmt.varDecl name.unplaced (some D.tree.bare) = _
      rw [written.bare]
      rfl
    · change "var " ++ name.lexeme ++ " = " ++ D.tree.text ++ ";" = _
      rw [written.text]
      rfl
    · change D.nesting + 1 = e.levels + 1
      rw [written.nesting]

/-- Declarations, each behind a character that is skipped. -/
theorem declarations_written {c : Char} (skipped : Spells.Skips c) (body : List Stmt)
    (h : ∀ s ∈ body, RereadsDeclaration s) (line : Nat) :
    ∃ (line' : Nat) (D : Derivation .declarations),
      Spells Anything (body.flatMap fun s => c :: s.text.toList) line D.tokens line' ∧
      BodyWritten body D.tree D := by
  induction body generalizing line with
  | nil => exact ⟨line, .noDeclarations, .nil, rfl, rfl, trivial, rfl⟩
  | cons s body ih =>
    obtain ⟨first, others⟩ := List.forall_mem_cons.mp h
    obtain ⟨below, skip⟩ := skipped line
    obtain ⟨line', F, f⟩ := first below
    obtain ⟨line'', M, spells, more⟩ := ih others line'
    refine ⟨line'', .moreDeclarations F M, ?_, ?_, ?_, ⟨f.proper, more.proper⟩, ?_⟩
    · rw [List.flatMap_cons]
      exact (skip _ _ _ _ f.spells).append spells fun _ _ => trivial
    · change F.tree.bare :: M.tree.map Stmt.bare = _
      rw [f.bare, more.bare]
      rfl
    · change F.tree.text :: M.tree.map Stmt.text = _
      rw [f.text, more.texts]
      rfl
    · change max F.nesting M.nesting = max s.levels (Stmt.levelsAll body)
      rw [f.nesting, more.nesting]

/-- A body in its braces. -/
theorem body_written (body : List Stmt) (h : ∀ s ∈ body, RereadsDeclaration s) (line : Nat) :
    ∃ (line' : Nat) (D : Derivation .block),
      Spells Anything (braced (Stmt.texts body)).toList line D.tokens line' ∧
      BodyWritten body D.tree D := by
  obtain ⟨line', D, spells, written⟩ := declarations_written .blank body h line
  refine ⟨line', .block (.spelled .leftBrace "\x7b" line) D (.spelled .rightBrace "\x7d" line'), ?_,
    written.bare, written.texts, written.proper, written.nesting⟩
  rw [toList_braced, Stmt.texts_eq_map, List.flatMap_map]
  exact spells.inBraces

theorem block_rereads {body : List Stmt} (h : ∀ s ∈ body, RereadsDeclaration s) :
    RereadsStatement false (.block body) := by
  intro line
  obtain ⟨line', D, spells, written⟩ := body_written body h line
  refine ⟨line', .statement (.ofBlock D), ⟨spells, ?_, ?_, written.proper, ?_⟩, id⟩
  · change Stmt.block (Stmt.bareAll D.tree) = Stmt.block (Stmt.bareAll body)
    rw [Stmt.bareAll_eq_map, Stmt.bareAll_eq_map, written.bare]
  · change braced (Stmt.texts D.tree) = braced (Stmt.texts body)
    rw [Stmt.texts_eq_map, Stmt.texts_eq_map, written.texts]
  · change D.nesting + 1 = Stmt.levelsAll body + 1
    rw [written.nesting]

theorem anotherParameter_written (params : List Token) (name : Token)
    (L : Derivation .parameterList) (line : Nat) (named : name.Named)
    (h : L.tree.map Token.unplaced = params.map Token.unplaced) :
    ∃ (line' : Nat) (E : Derivation .parameterList) (us : List Token),
      E.tokens = L.tokens ++ us ∧
      Spells Stops (", ".toList ++ name.lexeme.toList) line us line' ∧
      E.tree.map Token.unplaced = (params ++ [name]).map Token.unplaced := by
  refine ⟨line, .anotherParameter L (.spelled .comma "," line)
    (Terminal.onLine ⟨name, named.1⟩ line), _, rfl,
    .mark .comma (fun _ => rfl) (by decide) (.blank (Spells.name named line)), ?_⟩
  change (L.tree ++ [name.onLine line]).map Token.unplaced = _
  rw [List.map_append, List.map_append, h]
  rfl

/-- Parameters, with a comma between each two. -/
theorem parameters_written (params : List Token) (h : ∀ t ∈ params, t.Named) (line : Nat) :
    ∃ (line' : Nat) (D : Derivation .parameters),
      Spells Stops (", ".intercalate (params.map (·.lexeme))).toList line D.tokens line' ∧
      D.tree.map Token.unplaced = params.map Token.unplaced := by
  cases params with
  | nil => exact ⟨line, .noParameters, .nil, rfl⟩
  | cons first more =>
    obtain ⟨named, others⟩ := List.forall_mem_cons.mp h
    have fit : ∀ (t : Token) (rest : List Char), Stops rest →
        Stops (", ".toList ++ t.lexeme.toList ++ rest) := fun _ _ _ => .of_mark (by decide)
    obtain ⟨line', L, us, tokens, spells, list⟩ := grown_spells anotherParameter_written fit more
      others [first] (.oneParameter (Terminal.onLine ⟨first, named.1⟩ line)) line rfl
    refine ⟨line', .someParameters L, ?_, list⟩
    rw [List.map_cons, toList_intercalate_cons, List.flatMap_map]
    change Spells Stops _ line L.tokens line'
    rw [tokens]
    exact (Spells.name named line).append spells fun _ => flatMap_follows fit more

theorem function_rereads {name : Token} {params : List Token} {body : List Stmt}
    (named : name.Named) (hparams : ∀ t ∈ params, t.Named)
    (few : params.length ≤ Parse.maxArguments) (hbody : ∀ s ∈ body, RereadsDeclaration s) :
    RereadsFunction ⟨name, params, body⟩ := by
  intro line
  obtain ⟨line', P, params_spells, same⟩ := parameters_written params hparams line
  obtain ⟨line'', B, spells, written⟩ := body_written body hbody line'
  have length : P.tree.length = params.length := by
    rw [← List.length_map Token.unplaced, same, List.length_map]
  have lexemes : P.tree.map (·.lexeme) = params.map (·.lexeme) := by
    have lexemes := congrArg (List.map (·.lexeme)) same
    rw [List.map_map, List.map_map] at lexemes
    exact lexemes
  refine ⟨line'', .function (.definition (Terminal.onLine ⟨name, named.1⟩ line)
    (.spelled .leftParen "(" line) P (.spelled .rightParen ")" line') B), ?_, ?_, ?_,
    ⟨length ▸ few, written.proper⟩, ?_⟩
  · have whole : (Stmt.functionText ⟨name, params, body⟩).toList = name.lexeme.toList ++
        '(' :: ((", ".intercalate (params.map (·.lexeme))).toList ++
          ')' :: ' ' :: (braced (Stmt.texts body)).toList) := by
      simp [Stmt.functionText]
    rw [whole]
    have definition := params_spells.conditioned spells
    exact (Spells.name named line).append definition fun _ _ => .of_mark (by decide)
  · change (⟨name.unplaced, P.tree.map Token.unplaced, Stmt.bareAll B.tree⟩ : Function) =
      ⟨name.unplaced, params.map Token.unplaced, Stmt.bareAll body⟩
    rw [same, Stmt.bareAll_eq_map, Stmt.bareAll_eq_map, written.bare]
  · change name.lexeme ++ "(" ++ ", ".intercalate (P.tree.map (·.lexeme)) ++ ") " ++
      braced (Stmt.texts B.tree) = name.lexeme ++ "(" ++ ", ".intercalate (params.map (·.lexeme)) ++
      ") " ++ braced (Stmt.texts body)
    rw [lexemes, Stmt.texts_eq_map, Stmt.texts_eq_map, written.texts]
  · change B.nesting + 1 = Stmt.levelsAll body + 1
    rw [written.nesting]

theorem functionDecl_rereads {f : Function} (h : RereadsFunction f) :
    RereadsDeclaration (.function f) := by
  intro line
  obtain ⟨line', D, spells, bare, text, proper, nesting⟩ := h line
  refine ⟨line', .funDecl (.spelled .funKw "fun" line) D, ?_, congrArg Stmt.function bare, ?_,
    proper, nesting⟩
  · have whole : (Stmt.function f).text.toList =
        "fun".toList ++ ' ' :: (Stmt.functionText f).toList := by
      simp [Stmt.text]
    rw [whole]
    exact .led rfl spells
  · change "fun " ++ Stmt.functionText D.tree = "fun " ++ Stmt.functionText f
    rw [text]

/-- A derivation of the text of methods. -/
structure MethodsWritten (fs : List Function) (D : Derivation .methods) : Prop where
  bare : D.tree.map Stmt.bareFunction = fs.map Stmt.bareFunction
  texts : D.tree.map Stmt.functionText = fs.map Stmt.functionText
  proper : D.Proper
  nesting : D.nesting = Stmt.methodLevels fs

theorem methodLevels_append (fs : List Function) (f : Function) :
    Stmt.methodLevels (fs ++ [f]) = max (Stmt.methodLevels fs) (Stmt.functionLevels f) := by
  induction fs with
  | nil => exact Nat.max_comm _ _
  | cons first fs ih =>
    change max (Stmt.functionLevels first) (Stmt.methodLevels (fs ++ [f])) = _
    rw [ih, ← Nat.max_assoc]
    rfl

theorem anotherMethod_written (fs : List Function) (f : Function) (M : Derivation .methods)
    (line : Nat) (h : RereadsFunction f) (hM : MethodsWritten fs M) :
    ∃ (line' : Nat) (E : Derivation .methods) (us : List Token), E.tokens = M.tokens ++ us ∧
      Spells Anything (' ' :: (Stmt.functionText f).toList) line us line' ∧
      MethodsWritten (fs ++ [f]) E := by
  obtain ⟨line', D, spells, bare, text, proper, nesting⟩ := h line
  refine ⟨line', .anotherMethod M D, _, rfl, .blank spells, ?_, ?_, ⟨hM.proper, proper⟩, ?_⟩
  · change (M.tree ++ [D.tree]).map Stmt.bareFunction = _
    rw [List.map_append, List.map_append, hM.bare, List.map_singleton, bare]
    rfl
  · change (M.tree ++ [D.tree]).map Stmt.functionText = _
    rw [List.map_append, List.map_append, hM.texts, List.map_singleton, text]
    rfl
  · change max M.nesting D.nesting = _
    rw [methodLevels_append, hM.nesting, nesting]

/-- What a class says of the one it extends. -/
theorem superclass_written (superclass : Option Token) (h : ∀ t ∈ superclass, t.Named)
    (line : Nat) :
    ∃ parent : Option (Terminal .less × Terminal .identifier),
      parent.map (·.2.1) = superclass.map (·.onLine line) ∧
      Spells Stops (superclass.elim [] fun t => ' ' :: '<' :: ' ' :: t.lexeme.toList) line
        (parent.elim [] fun s => [s.1.1, s.2.1]) line := by
  cases superclass with
  | none => exact ⟨none, rfl, .nil⟩
  | some t =>
    have named := h t rfl
    have only : TokenKind.less.spelling? = some "<" := rfl
    exact ⟨some (.spelled .less "<" line, Terminal.onLine ⟨t, named.1⟩ line), rfl,
      .blank (.led only (Spells.name named line))⟩

/-- Methods in their braces. -/
theorem methods_written (methods : List Function) (h : ∀ f ∈ methods, RereadsFunction f)
    (line : Nat) :
    ∃ (line' : Nat) (M : Derivation .methods),
      Spells Anything (braced (Stmt.methodTexts methods)).toList line
        (⟨.leftBrace, "\x7b", none, line⟩ :: (M.tokens ++ [⟨.rightBrace, "\x7d", none, line'⟩]))
        line' ∧
      MethodsWritten methods M := by
  have fit : ∀ (f : Function) (rest : List Char), Anything rest →
      Anything (' ' :: (Stmt.functionText f).toList ++ rest) := fun _ _ _ => trivial
  have start : MethodsWritten [] .noMethods := ⟨rfl, rfl, trivial, rfl⟩
  obtain ⟨line', M, us, tokens, spells, written⟩ := grown_spells anotherMethod_written fit methods h
    [] .noMethods line start
  refine ⟨line', M, ?_, written⟩
  rw [toList_braced, Stmt.methodTexts_eq_map, List.flatMap_map, tokens]
  exact spells.inBraces

theorem classDecl_rereads {name : Token} {superclass : Option Token} {methods : List Function}
    (named : name.Named) (hsuper : ∀ t ∈ superclass, t.Named)
    (h : ∀ f ∈ methods, RereadsFunction f) :
    RereadsDeclaration (.classDecl name superclass methods) := by
  intro line
  obtain ⟨parent, same, extended⟩ := superclass_written superclass hsuper line
  obtain ⟨line', M, spells, written⟩ := methods_written methods h line
  refine ⟨line', .classDecl (.spelled .classKw "class" line) (Terminal.onLine ⟨name, named.1⟩ line)
    parent (.spelled .leftBrace "\x7b" line) M (.spelled .rightBrace "\x7d" line'), ?_, ?_, ?_,
    written.proper, written.nesting⟩
  · have whole : (Stmt.classDecl name superclass methods).text.toList = "class".toList ++ ' ' ::
        (name.lexeme.toList ++ ((superclass.elim [] fun t => ' ' :: '<' :: ' ' :: t.lexeme.toList) ++
          ' ' :: (braced (Stmt.methodTexts methods)).toList)) := by
      cases superclass <;> simp [Stmt.text]
    rw [whole]
    have body := extended.append (.blank spells) fun _ _ => .of_mark (by decide)
    apply Spells.led rfl
    apply (Spells.name named line).append body
    intro _ _
    cases superclass <;> exact .of_mark (by decide)
  · change Stmt.classDecl name.unplaced ((parent.map (·.2.1)).map Token.unplaced)
      (Stmt.bareMethods M.tree) = Stmt.classDecl name.unplaced (superclass.map Token.unplaced)
      (Stmt.bareMethods methods)
    rw [same, Option.map_map, Stmt.bareMethods_eq_map, Stmt.bareMethods_eq_map, written.bare]
    rfl
  · have texts : Stmt.methodTexts M.tree = Stmt.methodTexts methods := by
      rw [Stmt.methodTexts_eq_map, Stmt.methodTexts_eq_map, written.texts]
    change (Stmt.classDecl (name.onLine line) (parent.map (·.2.1)) M.tree).text = _
    rw [same]
    cases superclass <;> simp only [Stmt.text, texts, Option.map] <;> rfl

end Grammar

end LoxSyntax
