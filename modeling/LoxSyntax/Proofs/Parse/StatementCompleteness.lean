import LoxSyntax.Proofs.Parse.ExpressionCompleteness

namespace LoxSyntax

open Grammar

namespace Parse

/-- The rule reads the phrase, wherever no `else` follows that the phrase would take. -/
def ReadBefore {n : Symbol} (D : Derivation n) (rule : Rules → Rule n.Meaning) : Prop :=
  D.Proper → ∀ (level : Nat) (s : State) (rest : List Token), maxDepth ≤ s.depth + level →
    (D.endsOpen = true → ∀ t ∈ rest.head?, t.kind ≠ .elseKw) →
    (rule (rules level)).Accepts s (D.tokens ++ rest) rest D.nesting D.tree

theorem ReadBefore.closed {n : Symbol} {D : Derivation n} {rule : Rules → Rule n.Meaning}
    (h : ReadBefore D rule) (proper : D.Proper) {level : Nat} {s : State} (rest : List Token)
    (room : maxDepth ≤ s.depth + level) (solid : n.mayEndOpen = false) :
    (rule (rules level)).Accepts s (D.tokens ++ rest) rest D.nesting D.tree :=
  h proper level s rest room (by simp [D.endsOpen_eq_false solid])

/-- An expression is read in front of a token that ends it. -/
theorem ReadWhole.before {D : Derivation (.expr .expression)} (h : ReadWhole D) (proper : D.Proper)
    {level : Nat} {s : State} {kind : TokenKind} (t : Terminal kind) (rest : List Token)
    (room : maxDepth ≤ s.depth + level) (ends : strength kind = 0) :
    (expression (rules level)).Accepts s (D.tokens ++ t.1 :: rest) (t.1 :: rest) D.nesting D.tree :=
  h proper level s (t.1 :: rest) room (by rw [pull_cons, ends]; decide)

/-- A statement is read one level deeper than its form. -/
theorem statement_complete {D : Derivation .form} (h : ReadBefore D statementBody) :
    ReadBefore (.statement D) statement :=
  fun proper level _ rest room closed =>
    .deeper Rules.statement statementBody level room (fun _ => rfl) fun level s room =>
      h proper level s rest room closed

theorem function_complete (kind : FunctionKind) {D : Derivation .definition}
    (h : ReadBefore D (functionBody · kind)) : ReadBefore (.function D) (function · kind) :=
  fun proper level _ rest room _ =>
    .deeper (·.function kind) (functionBody · kind) level room (fun _ => rfl) fun _ _ room =>
      h.closed proper rest room rfl

/-- An expression that may be missing is read in front of a mark. -/
def OptionalRead (D : Derivation .optional) : Prop :=
  D.Proper → ∀ (level : Nat) (s : State) (kind : TokenKind) (mark : Terminal kind)
    (rest : List Token), maxDepth ≤ s.depth + level → startsExpr kind = false → strength kind = 0 →
    (Rule.before kind (expression (rules level))).Accepts s (D.tokens ++ mark.1 :: rest)
      (mark.1 :: rest) D.nesting D.tree

theorem absent_complete : OptionalRead .absent :=
  fun _ _ _ _ mark _ _ _ _ => .before_none _ mark.2

theorem present_complete {D : Derivation (.expr .expression)} (h : ReadWhole D) :
    OptionalRead (.present D) := by
  intro proper level s kind mark rest room other ends
  exact (h.before proper mark rest room ends).before_some (head_append_ne D _ rfl other)

/-- An initializer that may be missing is read in front of a semicolon. -/
def InitializerRead (D : Derivation .initializer) : Prop :=
  D.Proper → ∀ (level : Nat) (s : State) (mark : Terminal .semicolon) (rest : List Token),
    maxDepth ≤ s.depth + level →
    (Rule.behind .equal (expression (rules level))).Accepts s (D.tokens ++ mark.1 :: rest)
      (mark.1 :: rest) D.nesting D.tree

theorem noInitializer_complete : InitializerRead .noInitializer :=
  fun _ _ _ mark _ _ => .behind_none _ (head_ne mark (by decide))

theorem initializer_complete (equal : Terminal .equal) {D : Derivation (.expr .expression)}
    (h : ReadWhole D) : InitializerRead (.initializer equal D) := by
  intro proper level s mark rest room
  exact (h.before proper mark rest room rfl).behind_some equal.2

theorem binding_complete (name : Terminal .identifier) {D : Derivation .initializer}
    (semicolon : Terminal .semicolon) (h : InitializerRead D) :
    ReadBefore (.binding name D semicolon) varDeclaration := by
  intro proper level s rest room _
  have value := h proper level s semicolon rest room
  have tokens : (Derivation.binding name D semicolon).tokens ++ rest =
      name.1 :: (D.tokens ++ semicolon.1 :: rest) := by
    change name.1 :: (D.tokens ++ [semicolon.1]) ++ rest = _
    simp
  rw [tokens]
  exact .step (Rule.expect_ok _ name.2) <| value.finish <|
    .step (Rule.expect_ok _ semicolon.2) (.pure _)

theorem exprStmt_complete {D : Derivation (.expr .expression)} (semicolon : Terminal .semicolon)
    (h : ReadWhole D) : ReadBefore (.exprStmt D semicolon) expressionStatement := by
  intro proper level s rest room _
  have value := h.before proper semicolon rest room rfl
  have tokens : (Derivation.exprStmt D semicolon).tokens ++ rest =
      D.tokens ++ semicolon.1 :: rest := by
    change D.tokens ++ [semicolon.1] ++ rest = _
    simp
  rw [tokens]
  exact value.finish <| .step (Rule.expect_ok _ semicolon.2) (.pure _)

theorem noInit_complete (semicolon : Terminal .semicolon) :
    ReadBefore (.noInit semicolon) forInitializer :=
  fun _ _ _ _ _ _ => .step (Rule.accept_true semicolon.2) (.pure _)

theorem varInit_complete (keyword : Terminal .varKw) {D : Derivation .binding}
    (h : ReadBefore D varDeclaration) : ReadBefore (.varInit keyword D) forInitializer := by
  intro proper level s rest room _
  have decl := h.closed proper rest room rfl
  exact .step (Rule.accept_false (head_ne keyword (by decide))) <|
    .step (Rule.accept_true keyword.2) (decl.map some)

theorem exprInit_complete {D : Derivation .exprStmt} (h : ReadBefore D expressionStatement) :
    ReadBefore (.exprInit D) forInitializer := by
  intro proper level s rest room _
  have value := h.closed proper rest room rfl
  exact .step (Rule.accept_false (head_append_ne D rest rfl rfl)) <|
    .step (Rule.accept_false (head_append_ne D rest rfl rfl)) (value.map some)

/-- The first token tells which form a statement has. -/
theorem statementBody_facing (inner : Rules) (s : State) (t : Token) (us : List Token) :
    statementBody inner (s.facing (t :: us)) = (match t.kind with
      | .forKw => do Rule.skip; forStatement inner
      | .ifKw => do Rule.skip; ifStatement inner
      | .printKw => do Rule.skip; printStatement inner
      | .returnKw => do Rule.skip; returnStatement inner t
      | .whileKw => do Rule.skip; whileStatement inner
      | .leftBrace => do Rule.skip; .block <$> block inner
      | _ => expressionStatement inner : Rule Stmt) (s.facing (t :: us)) := rfl

theorem statementBody_startsExpr (inner : Rules) {s : State} {t : Token} {us : List Token}
    (h : startsExpr t.kind = true) :
    statementBody inner (s.facing (t :: us)) = expressionStatement inner (s.facing (t :: us)) := by
  rw [statementBody_facing]
  refine congrFun ?_ (s.facing (t :: us))
  split
  case h_7 => rfl
  all_goals next is => rw [is] at h; cases h

/-- A form that its first token tells apart is read from behind it. -/
theorem form_accepts {inner : Rules} {s : State} {t : Token} {us vs : List Token} {levels : Nat}
    {a : Stmt} (rule : Rule Stmt) (h : rule.Accepts s us vs levels a)
    (dispatch : statementBody inner (s.facing (t :: us)) =
      (Rule.skip >>= fun _ => rule) (s.facing (t :: us))) :
    (statementBody inner).Accepts s (t :: us) vs levels a :=
  (Rule.Accepts.step Rule.skip_eq h).congr _ dispatch

theorem ofExprStmt_complete {D : Derivation .exprStmt} (h : ReadBefore D expressionStatement) :
    ReadBefore (.ofExprStmt D) statementBody := by
  intro proper level s rest room _
  apply (h.closed proper rest room rfl).congr _
  obtain ⟨t, us, tokens, starts⟩ := D.begins.exists_cons rfl
  change statementBody _ (s.facing (D.tokens ++ rest)) = _
  rw [tokens]
  exact statementBody_startsExpr (rules level) starts

theorem print_complete (keyword : Terminal .printKw) {D : Derivation (.expr .expression)}
    (semicolon : Terminal .semicolon) (h : ReadWhole D) :
    ReadBefore (.print keyword D semicolon) statementBody := by
  intro proper level s rest room _
  have value := h.before proper semicolon rest room rfl
  have tokens : (Derivation.print keyword D semicolon).tokens ++ rest =
      keyword.1 :: (D.tokens ++ semicolon.1 :: rest) := by
    change keyword.1 :: (D.tokens ++ [semicolon.1]) ++ rest = _
    simp
  rw [tokens]
  refine form_accepts (printStatement (rules level)) ?_ (by rw [statementBody_facing, keyword.2])
  exact value.finish <| .step (Rule.expect_ok _ semicolon.2) (.pure _)

theorem ret_complete (keyword : Terminal .returnKw) {D : Derivation .optional}
    (semicolon : Terminal .semicolon) (h : OptionalRead D) :
    ReadBefore (.ret keyword D semicolon) statementBody := by
  intro proper level s rest room _
  have value := h proper level s _ semicolon rest room rfl rfl
  have tokens : (Derivation.ret keyword D semicolon).tokens ++ rest =
      keyword.1 :: (D.tokens ++ semicolon.1 :: rest) := by
    change keyword.1 :: (D.tokens ++ [semicolon.1]) ++ rest = _
    simp
  rw [tokens]
  refine form_accepts (returnStatement (rules level) keyword.1) ?_
    (by rw [statementBody_facing, keyword.2])
  exact value.finish <| .step (Rule.expect_ok _ semicolon.2) (.pure _)

theorem whileLoop_complete (keyword : Terminal .whileKw) (opening : Terminal .leftParen)
    {C : Derivation (.expr .expression)} (closing : Terminal .rightParen)
    {B : Derivation .statement} (hC : ReadWhole C) (hB : ReadBefore B statement) :
    ReadBefore (.whileLoop keyword opening C closing B) statementBody := by
  intro proper level s rest room closed
  have condition := hC.before proper.1 closing (B.tokens ++ rest) room rfl
  have body := hB proper.2 level s rest room closed
  have tokens : (Derivation.whileLoop keyword opening C closing B).tokens ++ rest =
      keyword.1 :: opening.1 :: (C.tokens ++ closing.1 :: (B.tokens ++ rest)) := by
    change keyword.1 :: opening.1 :: (C.tokens ++ closing.1 :: B.tokens) ++ rest = _
    simp
  rw [tokens]
  refine form_accepts (whileStatement (rules level)) ?_ (by rw [statementBody_facing, keyword.2])
  exact .step (Rule.expect_ok _ opening.2) <| condition.bind <|
    .step (Rule.expect_ok _ closing.2) <| body.finish (.pure _)

theorem forLoop_complete (keyword : Terminal .forKw) (opening : Terminal .leftParen)
    {I : Derivation .forInit} {C : Derivation .optional} (semicolon : Terminal .semicolon)
    {N : Derivation .optional} (closing : Terminal .rightParen) {B : Derivation .statement}
    (hI : ReadBefore I forInitializer) (hC : OptionalRead C) (hN : OptionalRead N)
    (hB : ReadBefore B statement) :
    ReadBefore (.forLoop keyword opening I C semicolon N closing B) statementBody := by
  intro h level s rest room closed
  obtain ⟨properI, properC, properN, properB⟩ := h
  have body := hB properB level s rest room closed
  have increment := hN properN level s _ closing (B.tokens ++ rest) room rfl rfl
  have condition := hC properC level s _ semicolon
    (N.tokens ++ closing.1 :: (B.tokens ++ rest)) room rfl rfl
  have init := hI.closed properI (C.tokens ++ semicolon.1 ::
    (N.tokens ++ closing.1 :: (B.tokens ++ rest))) room rfl
  have tokens : (Derivation.forLoop keyword opening I C semicolon N closing B).tokens ++ rest =
      keyword.1 :: opening.1 :: (I.tokens ++ (C.tokens ++ semicolon.1 ::
        (N.tokens ++ closing.1 :: (B.tokens ++ rest)))) := by
    change keyword.1 :: opening.1 :: (I.tokens ++ (C.tokens ++ semicolon.1 ::
      (N.tokens ++ closing.1 :: B.tokens))) ++ rest = _
    simp
  rw [tokens]
  refine form_accepts (forStatement (rules level)) ?_ (by rw [statementBody_facing, keyword.2])
  refine .result ?_ (forLoop_eq_loop I.tree C.tree N.tree B.tree).symm
  exact .step (Rule.expect_ok _ opening.2) <| init.bind <| condition.bind <|
    .step (Rule.expect_ok _ semicolon.2) <| increment.bind <|
    .step (Rule.expect_ok _ closing.2) <| body.finish (.pure _)

/-- What is read behind a guarded statement: the links, and their branches put together. -/
def links (inner : Rules) (guards : Array (Expr × Stmt)) : Rule (Option Stmt) :=
  Links.toElse <$> Rule.iterate (elseLink inner) ⟨guards, none⟩

/-- One more guarded statement, and the links behind it. -/
def guardedLinks (inner : Rules) (guards : Array (Expr × Stmt)) : Rule (Option Stmt) :=
  guarded inner >>= fun guard => links inner (guards.push guard)

/-- The links are read, wherever no `else` follows that the last one would take. -/
def TailRead (D : Derivation .elseTail) : Prop :=
  D.Proper → ∀ (level : Nat) (s : State) (rest : List Token) (guards : Array (Expr × Stmt)),
    maxDepth ≤ s.depth + level → (D.endsOpen = true → ∀ t ∈ rest.head?, t.kind ≠ .elseKw) →
    (Rule.keepingDepth (links (rules level) guards)).Accepts s (D.tokens ++ rest) rest D.nesting
      (Links.toElse ⟨guards, D.tree⟩)

/-- Behind an `if`, a form is read as one link of those before it. -/
def FormLinked (D : Derivation .form) : Prop :=
  D.Proper → ∀ (level : Nat) (s : State) (keyword : Terminal .ifKw) (us rest : List Token)
    (guards : Array (Expr × Stmt)), maxDepth ≤ s.depth + level → D.tokens = keyword.1 :: us →
    (D.endsOpen = true → ∀ t ∈ rest.head?, t.kind ≠ .elseKw) →
    (Rule.keepingDepth (guardedLinks (rules level) guards)).Accepts s (us ++ rest) rest D.nesting
      (Links.toElse ⟨guards, some D.tree⟩)

/-- A form that does not start with `if` is no link. -/
theorem FormLinked.of_other {D : Derivation .form} {t : Token} {us : List Token}
    (tokens : D.tokens = t :: us) (other : t.kind ≠ .ifKw) : FormLinked D := by
  intro _ level s keyword us' rest guards _ tokens'
  obtain ⟨rfl, -⟩ := List.cons.inj (tokens.symm.trans tokens')
  exact absurd keyword.2 other

/-- Behind an `else`, a statement is read as one link of those before it. -/
def StatementLinked (D : Derivation .statement) : Prop :=
  D.Proper → ∀ (level : Nat) (s : State) (keyword : Terminal .ifKw) (us rest : List Token)
    (guards : Array (Expr × Stmt)), maxDepth ≤ s.depth + level → D.tokens = keyword.1 :: us →
    (D.endsOpen = true → ∀ t ∈ rest.head?, t.kind ≠ .elseKw) →
    (Rule.keepingDepth (Rule.descend >>= fun _ => guardedLinks (rules level) guards)).Accepts s
      (us ++ rest) rest D.nesting (Links.toElse ⟨guards, some D.tree⟩)

theorem statement_linked {D : Derivation .form} (h : FormLinked D) :
    StatementLinked (.statement D) := by
  intro proper level s keyword us rest guards room tokens closed
  exact .descend fun _ => h proper level s.deeper keyword us rest guards
    (by show maxDepth ≤ s.depth + 1 + level; omega) tokens closed

/-- The first round of the loop over the links, and those behind it. Behind an `else`, an `if` is
one more link, a level deeper, and any other statement is the last branch. -/
theorem links_round (inner : Rules) (advances : ∀ links, (elseLink inner links).Advances)
    (guards : Array (Expr × Stmt)) :
    links inner guards = Rule.accept .elseKw >>= fun follows =>
      if follows = true then Rule.accept .ifKw >>= fun again =>
        if again = true then Rule.descend >>= fun _ => guardedLinks inner guards
        else (fun last => Links.toElse ⟨guards, some last⟩) <$> statement inner
      else pure (Links.toElse ⟨guards, none⟩) := by
  have closed (last : Stmt) : Rule.iterate (elseLink inner) ⟨guards, some last⟩ =
      pure ⟨guards, some last⟩ := iterate_elseLink_closed advances rfl
  unfold links
  rw [Rule.iterate_eq_bind advances, map_bind]
  simp only [elseLink, Option.isSome_none, Bool.false_eq_true, if_false, bind_assoc]
  congr 1
  funext follows
  cases follows with
  | false => rfl
  | true =>
    simp only [if_true, bind_assoc]
    congr 1
    funext again
    cases again with
    | false =>
      simp only [Bool.false_eq_true, if_false, bind_assoc, pure_bind, closed, map_pure]
      exact (map_eq_pure_bind _ (statement inner)).symm
    | true =>
      simp only [if_true, bind_assoc, pure_bind]
      rfl

theorem noElse_complete : TailRead .noElse := by
  intro _ level s rest guards _ closed
  rw [links_round _ (elseLink_advances (rules_sound level))]
  exact .keepingDepth <| .step (Rule.accept_false (closed rfl)) (.pure _)

theorem elseBranch_complete (els : Terminal .elseKw) {D : Derivation .statement}
    (hD : ReadBefore D statement) (linked : StatementLinked D) : TailRead (.elseBranch els D) := by
  intro proper level s rest guards room closed
  obtain ⟨t, us, tokens, -⟩ := D.begins.exists_cons rfl
  change (Rule.keepingDepth _).Accepts s (els.1 :: (D.tokens ++ rest)) rest D.nesting _
  rw [links_round _ (elseLink_advances (rules_sound level))]
  by_cases again : t.kind = .ifKw
  · have link := linked proper level s ⟨t, again⟩ us rest guards room tokens closed
    rw [tokens]
    apply link.congr _
    rw [keepingDepth_facing, keepingDepth_facing, Rule.bind_ok _ (Rule.accept_true els.2),
      if_pos rfl, List.cons_append, Rule.bind_ok _ (Rule.accept_true again), if_pos rfl]
  · have other : ∀ u ∈ (D.tokens ++ rest).head?, u.kind ≠ .ifKw := by
      rw [tokens]
      intro _ h
      cases h
      exact again
    have branch := hD proper level s rest room closed
    exact .keepingDepth <| .step (Rule.accept_true els.2) <| .step (Rule.accept_false other) <|
      branch.map _

/-- The condition and the body of an `if` are read in front of its `else`: the body has no `if`
left that could take it. -/
theorem guard_complete {s : State} (level : Nat) (opening : Terminal .leftParen)
    {C : Derivation (.expr .expression)} (closing : Terminal .rightParen)
    {B : Derivation .statement} {T : Derivation .elseTail} (hC : ReadWhole C)
    (hB : ReadBefore B statement) (properC : C.Proper) (properB : B.Proper)
    (nearest : T.hasElse = true → B.endsOpen = false) (rest : List Token)
    (room : maxDepth ≤ s.depth + level)
    (closed : T.endsOpen = true → ∀ t ∈ rest.head?, t.kind ≠ .elseKw) :
    (guarded (rules level)).Accepts s
      (opening.1 :: (C.tokens ++ closing.1 :: (B.tokens ++ (T.tokens ++ rest)))) (T.tokens ++ rest)
      (max C.nesting B.nesting) (C.tree, B.tree) := by
  have condition := hC.before properC closing (B.tokens ++ (T.tokens ++ rest)) room rfl
  have body := hB properB level s (T.tokens ++ rest) room (by
    intro stays
    cases T with
    | noElse => exact closed rfl
    | elseBranch els branch => exact absurd stays (by simp [nearest rfl]))
  exact .step (Rule.expect_ok _ opening.2) <| condition.bind <|
    .step (Rule.expect_ok _ closing.2) <| body.finish (.pure _)

theorem ifElse_linked (keyword : Terminal .ifKw) (opening : Terminal .leftParen)
    {C : Derivation (.expr .expression)} (closing : Terminal .rightParen)
    {B : Derivation .statement} {T : Derivation .elseTail} (hC : ReadWhole C)
    (hB : ReadBefore B statement) (hT : TailRead T) :
    FormLinked (.ifElse keyword opening C closing B T) := by
  intro h level s keyword' us rest guards room tokens closed
  obtain ⟨properC, properB, properT, nearest⟩ := h
  obtain ⟨-, rfl⟩ := List.cons.inj tokens
  have guard := guard_complete level opening closing hC hB properC properB nearest rest room closed
  have tail := hT properT level s rest (guards.push (C.tree, B.tree)) room closed
  have whole : opening.1 :: (C.tokens ++ closing.1 :: (B.tokens ++ T.tokens)) ++ rest =
      opening.1 :: (C.tokens ++ closing.1 :: (B.tokens ++ (T.tokens ++ rest))) := by simp
  rw [whole]
  refine ((guard.keepingDepth_bind tail).levels ?_).result ?_
  · change max C.nesting (max B.nesting T.nesting) = _
    omega
  · change Links.toElse ⟨guards, some (.ifElse C.tree B.tree T.tree)⟩ = _
    simp [Links.toElse]

theorem ifElse_complete (keyword : Terminal .ifKw) (opening : Terminal .leftParen)
    {C : Derivation (.expr .expression)} (closing : Terminal .rightParen)
    {B : Derivation .statement} {T : Derivation .elseTail} (hC : ReadWhole C)
    (hB : ReadBefore B statement) (hT : TailRead T) :
    ReadBefore (.ifElse keyword opening C closing B T) statementBody := by
  intro h level s rest room closed
  obtain ⟨properC, properB, properT, nearest⟩ := h
  have guard := guard_complete level opening closing hC hB properC properB nearest rest room closed
  have tail := hT properT level s rest #[] room closed
  have whole : (Derivation.ifElse keyword opening C closing B T).tokens ++ rest =
      keyword.1 :: opening.1 :: (C.tokens ++ closing.1 :: (B.tokens ++ (T.tokens ++ rest))) := by
    change keyword.1 :: opening.1 :: (C.tokens ++ closing.1 :: (B.tokens ++ T.tokens)) ++ rest = _
    simp
  have form : ifStatement (rules level) = Rule.keepingDepth (guarded (rules level) >>= fun guard =>
      Stmt.ifElse guard.1 guard.2 <$> links (rules level) #[]) := by
    simp only [ifStatement, links, map_eq_pure_bind, bind_assoc, pure_bind]
  have branches : (Rule.keepingDepth (Stmt.ifElse C.tree B.tree <$> links (rules level) #[])).Accepts
      s (T.tokens ++ rest) rest T.nesting (.ifElse C.tree B.tree T.tree) := by
    rw [keepingDepth_map]
    exact tail.map _
  rw [whole]
  refine form_accepts (ifStatement (rules level)) ?_ (by rw [statementBody_facing, keyword.2])
  rw [form]
  exact (guard.keepingDepth_bind branches).levels
    (by show max C.nesting (max B.nesting T.nesting) = _; omega)

end Parse

end LoxSyntax
