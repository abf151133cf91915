import LoxSyntax.Proofs.Parse.StatementCompleteness

namespace LoxSyntax

open Grammar

namespace Parse

/-- A parse that was given up stays so. -/
theorem State.GivenUp.recover {s : State} {errors : Array ParseError} (h : s.GivenUp errors)
    (e : ParseError) : (s.recover e).GivenUp errors := by
  have same : s.record e = s := if_pos h.halted
  unfold State.recover
  dsimp only
  rw [same]
  split
  · exact ⟨rfl, rfl, h.reported⟩
  · exact ⟨h.halted, by rw [h.ahead]; rfl, h.reported⟩

/-- Without a failure there is nothing to recover from. -/
theorem recovering_fits {α : Type} {rule : Rule α} {s : State} {us vs : List Token} {levels : Nat}
    {a : α} (h : rule.Accepts s us vs levels a) (room : s.depth + levels ≤ maxDepth) :
    recovering rule (s.facing us) = (some a, s.facing vs) := by
  exact recovering_ok (h.fits room)

/-- A rule that ran too deep leaves the parse given up. -/
theorem recovering_overruns {α : Type} {rule : Rule α} {s : State} {us vs : List Token}
    {levels : Nat} {a : α} (h : rule.Accepts s us vs levels a) (live : s.halted = false)
    (within : s.depth ≤ maxDepth) (beyond : maxDepth < s.depth + levels) :
    (recovering rule (s.facing us)).2.GivenUp s.errors := by
  obtain ⟨e, s', run, deep⟩ := h.overruns live within beyond
  rw [recovering_error run]
  rcases deep with ⟨why, live', same⟩ | given
  · unfold State.recover State.record
    simp only [live', Bool.false_eq_true, if_false, why, if_true]
    exact ⟨rfl, rfl, e.token, by rw [← why, ← same]⟩
  · exact given.recover e

/-- Declarations are read up to a token that closes them, or given up. -/
structure DeclarationsAccepted (inner : Rules) (closes : TokenKind → Bool) (bound : List Token)
    (s : State) (us vs : List Token) (levels : Nat) (all : List Stmt) : Prop where
  fits : s.depth + levels ≤ maxDepth →
    declarations inner closes bound (s.facing us) = (all, s.facing vs)
  overruns : s.halted = false → s.depth ≤ maxDepth → maxDepth < s.depth + levels →
    (declarations inner closes bound (s.facing us)).2.GivenUp s.errors

/-- Declarations are read up to whatever closes them, if the bound covers the tokens ahead. -/
def DeclarationsRead (D : Derivation .declarations) : Prop :=
  D.Proper → ∀ (level : Nat) (s : State) (rest bound : List Token) (closes : TokenKind → Bool),
    maxDepth ≤ s.depth + level →
    (∀ kind, Symbol.declaration.starts kind = true → closes kind = false) →
    (∀ t ∈ rest.head?, closes t.kind = true) → (∀ t ∈ rest.head?, t.kind ≠ .elseKw) →
    (D.tokens ++ rest).length ≤ bound.length →
    DeclarationsAccepted (rules level) closes bound s (D.tokens ++ rest) rest D.nesting D.tree

theorem noDeclarations_complete : DeclarationsRead .noDeclarations := by
  intro _ level s rest bound closes _ _ ends _ _
  refine ⟨fun _ => ?_, fun _ within beyond => absurd within (by
    change maxDepth < s.depth + 0 at beyond; omega)⟩
  exact declarations_of_ends (s := s.facing rest) _ _ ends

theorem moreDeclarations_complete {D : Derivation .declaration} {E : Derivation .declarations}
    (hD : ReadBefore D declarationRule) (hE : DeclarationsRead E) :
    DeclarationsRead (.moreDeclarations D E) := by
  intro proper level s rest bound closes room opens ends closed covers
  have whole : (Derivation.moreDeclarations D E).tokens ++ rest = D.tokens ++ (E.tokens ++ rest) :=
    List.append_assoc ..
  rw [whole] at covers ⊢
  have behind := declarations_head_ne_else E closed
  have first := hD proper.1 level s (E.tokens ++ rest) room fun _ => behind
  obtain ⟨t, us, tokens, starts⟩ := D.begins.exists_cons rfl
  have stays := opens t.kind starts
  rw [tokens] at first covers ⊢
  obtain ⟨b, bound, rfl⟩ : ∃ b bound', bound = b :: bound' := by
    cases bound with
    | nil => simp at covers
    | cons b bound => exact ⟨b, bound, rfl⟩
  have others := hE proper.2 level s rest bound closes room opens ends closed (by
    simp only [List.cons_append, List.length_cons, List.length_append] at covers ⊢
    omega)
  rw [List.cons_append] at first ⊢
  refine ⟨fun fits => ?_, fun live within beyond => ?_⟩
  · change s.depth + max D.nesting E.nesting ≤ maxDepth at fits
    rw [declarations_cons _ _ _ rfl stays, declaration, recovering_fits first (by omega)]
    dsimp only
    rw [others.fits (by omega)]
    rfl
  · change maxDepth < s.depth + max D.nesting E.nesting at beyond
    rw [declarations_cons _ _ _ rfl stays, declaration]
    by_cases fits : s.depth + D.nesting ≤ maxDepth
    · rw [recovering_fits first fits]
      exact others.overruns live within (by omega)
    · have given := recovering_overruns first live within (by omega)
      rw [declarations_nil _ _ _ _ given.ahead]
      exact given

/-- A block is read from behind its opening brace. -/
def BlockRead (D : Derivation .block) : Prop :=
  D.Proper → ∃ (opening : Terminal .leftBrace) (us : List Token), D.tokens = opening.1 :: us ∧
    ∀ (level : Nat) (s : State) (rest : List Token), maxDepth ≤ s.depth + level →
      (block (rules level)).Accepts s (us ++ rest) rest D.nesting D.tree

theorem block_complete (opening : Terminal .leftBrace) {D : Derivation .declarations}
    (closing : Terminal .rightBrace) (h : DeclarationsRead D) :
    BlockRead (.block opening D closing) := by
  refine fun proper => ⟨opening, D.tokens ++ [closing.1], rfl, fun level s rest room => ?_⟩
  have whole : D.tokens ++ [closing.1] ++ rest = D.tokens ++ closing.1 :: rest := by simp
  rw [whole]
  have body := h proper level s (closing.1 :: rest) (D.tokens ++ closing.1 :: rest)
    (· == .rightBrace) room (by
      intro kind starts
      cases kind <;> first | rfl | cases starts)
    (by simp [closing.2]) (head_ne closing (by decide)) (Nat.le_refl _)
  have ahead : (s.facing (D.tokens ++ closing.1 :: rest)).ahead = D.tokens ++ closing.1 :: rest := rfl
  refine ⟨fun fits => ?_, fun live within beyond => ?_⟩
  · rw [block_eq, ahead, body.fits fits, Rule.mark, Rule.bind_ok _ (Rule.expect_ok _ closing.2)]
    rfl
  · -- The body does not fail, but behind it there is no brace left.
    have given := body.overruns live within beyond
    have missing := Rule.expect_nil .rightBrace (.noMark .rightBrace .afterBlock) given.ahead
    rw [block_eq, ahead, Rule.mark, Rule.bind_error _ missing]
    exact ⟨_, _, rfl, .inr given⟩

theorem ofBlock_complete {D : Derivation .block} (h : BlockRead D) :
    ReadBefore (.ofBlock D) statementBody := by
  intro proper level s rest room _
  obtain ⟨opening, us, tokens, read⟩ := h proper
  change (statementBody _).Accepts s (D.tokens ++ rest) rest D.nesting (.block D.tree)
  rw [tokens]
  exact form_accepts (Stmt.block <$> block (rules level)) ((read level s rest room).map Stmt.block)
    (by rw [statementBody_facing, opening.2])

/-- The rule of parameters reads the list in front of the closing parenthesis. -/
def ParametersRead (D : Derivation .parameters) : Prop :=
  D.tree.length ≤ maxArguments → ∀ (s : State) (closing : Terminal .rightParen)
    (rest : List Token), ∃ found : Option (List Token), found.getD [] = D.tree ∧
      (Rule.before .rightParen (Rule.commaSeparated (Rule.name .ofParameter)
        .tooManyParameters)).Accepts s (D.tokens ++ closing.1 :: rest) (closing.1 :: rest) 0 found

/-- The names of the list are read, and then whatever is read behind them. -/
def ParameterListRead (D : Derivation .parameterList) : Prop :=
  D.tree.length ≤ maxArguments → ∀ (s : State) (us vs : List Token) (all : Array Token),
    (Rule.moreItems (Rule.name .ofParameter) .tooManyParameters D.tree.toArray).Accepts s us vs 0
      all →
    (Rule.addItem (Rule.name .ofParameter) .tooManyParameters #[] >>=
      Rule.moreItems (Rule.name .ofParameter) .tooManyParameters).Accepts s (D.tokens ++ us) vs 0 all

theorem name_accepts (role : NameRole) {s : State} (name : Terminal .identifier)
    (us : List Token) : (Rule.name role).Accepts s (name.1 :: us) us 0 name.1 :=
  .still (Rule.expect_ok _ name.2)

theorem noParameters_complete : ParametersRead .noParameters :=
  fun _ _ closing _ => ⟨none, rfl, .before_none _ closing.2⟩

theorem someParameters_complete {D : Derivation .parameterList} (h : ParameterListRead D) :
    ParametersRead (.someParameters D) := by
  intro few s closing rest
  have names := Rule.Yields.expect .identifier (.noName .ofParameter)
  have last : (Rule.moreItems (Rule.name .ofParameter) .tooManyParameters D.tree.toArray).Accepts s
      (closing.1 :: rest) (closing.1 :: rest) 0 D.tree.toArray :=
    .noItem names _ _ (head_ne closing (by decide))
  have list := h few s _ _ _ last
  have other : ∀ t ∈ (D.tokens ++ closing.1 :: rest).head?, t.kind ≠ .rightParen :=
    head_append_ne D _ rfl rfl
  refine ⟨some D.tree, rfl, .before_some ?_ other⟩
  rw [Rule.commaSeparated_eq]
  exact list.map Array.toList

theorem oneParameter_complete (name : Terminal .identifier) :
    ParameterListRead (.oneParameter name) :=
  fun _ _ us _ _ more =>
    (((name_accepts .ofParameter name us).addItem .tooManyParameters (by decide)).bind more).levels
      rfl

theorem anotherParameter_complete {D : Derivation .parameterList} (comma : Terminal .comma)
    (name : Terminal .identifier) (h : ParameterListRead D) :
    ParameterListRead (.anotherParameter D comma name) := by
  intro few s us vs all more
  have fewer : D.tree.length < maxArguments := by
    have count : (D.tree ++ [name.1]).length ≤ maxArguments := few
    exact Nat.lt_of_succ_le (by simpa using count)
  have pushed : D.tree.toArray.push name.1 =
      (Derivation.anotherParameter D comma name).tree.toArray := List.push_toArray _ _
  have names := Rule.Yields.expect .identifier (.noName .ofParameter)
  have others := Rule.Accepts.anotherItem names .tooManyParameters
    (name_accepts .ofParameter name us) comma.2 fewer (pushed ▸ more)
  have whole : (Derivation.anotherParameter D comma name).tokens ++ us =
      D.tokens ++ comma.1 :: name.1 :: us := by
    change D.tokens ++ [comma.1, name.1] ++ us = _
    simp
  rw [whole]
  exact h (Nat.le_of_lt fewer) s _ _ _ (others.levels rfl)

theorem definition_complete (kind : FunctionKind) (name : Terminal .identifier)
    (opening : Terminal .leftParen) {D : Derivation .parameters} (closing : Terminal .rightParen)
    {B : Derivation .block} (hD : ParametersRead D) (hB : BlockRead B) :
    ReadBefore (.definition name opening D closing B) (functionBody · kind) := by
  intro h level s rest room _
  obtain ⟨few, proper⟩ := h
  obtain ⟨brace, us, tokens, body⟩ := hB proper
  obtain ⟨found, tree, params⟩ := hD few s closing (brace.1 :: (us ++ rest))
  have whole : (Derivation.definition name opening D closing B).tokens ++ rest =
      name.1 :: opening.1 :: (D.tokens ++ closing.1 :: brace.1 :: (us ++ rest)) := by
    change name.1 :: opening.1 :: (D.tokens ++ closing.1 :: B.tokens) ++ rest = _
    simp [tokens]
  rw [whole]
  change Rule.Accepts _ s _ rest B.nesting (⟨name.1, D.tree, B.tree⟩ : Function)
  rw [← tree]
  exact .step (Rule.expect_ok _ name.2) <| .step (Rule.expect_ok _ opening.2) <| params.lead <|
    .step (Rule.expect_ok _ closing.2) <| .step (Rule.expect_ok _ brace.2) <|
    (body level s rest room).finish (.pure _)

/-- The methods are read, and then whatever is read behind them. -/
def MethodsRead (D : Derivation .methods) : Prop :=
  D.Proper → ∀ (level : Nat) (s : State) (us vs : List Token) (levels : Nat)
    (all : Array Function), maxDepth ≤ s.depth + level →
    (Rule.iterate (addMethod (rules level)) D.tree.toArray).Accepts s us vs levels all →
    (Rule.iterate (addMethod (rules level)) #[]).Accepts s (D.tokens ++ us) vs
      (max D.nesting levels) all

theorem noMethods_complete : MethodsRead .noMethods :=
  fun _ _ _ _ _ _ _ _ more => more.levels (Nat.zero_max _)

theorem addMethod_facing (inner : Rules) (methods : Array Function) (s : State) (t : Token)
    (us : List Token) : addMethod inner methods (s.facing (t :: us)) =
      (if t.kind = .rightBrace then return none
        else return some (methods.push (← function inner .method)) : Rule _) (s.facing (t :: us)) :=
  rfl

theorem anotherMethod_complete {D : Derivation .methods} {E : Derivation .function}
    (hD : MethodsRead D) (hE : ReadBefore E (function · .method)) :
    MethodsRead (.anotherMethod D E) := by
  intro proper level s us vs levels all room more
  have method := hE.closed proper.2 us room rfl
  obtain ⟨t, ts, tokens, starts⟩ := E.begins.exists_cons rfl
  have one : (addMethod (rules level) D.tree.toArray).Accepts s (E.tokens ++ us) us E.nesting
      (some (D.tree.toArray.push E.tree)) := by
    refine .congr _ (method.map fun m => some (D.tree.toArray.push m)) ?_
    have other : t.kind ≠ .rightBrace := by
      intro is
      rw [is] at starts
      cases starts
    rw [tokens, List.cons_append, addMethod_facing, if_neg other, map_eq_pure_bind]
  have pushed : D.tree.toArray.push E.tree = (Derivation.anotherMethod D E).tree.toArray :=
    List.push_toArray _ _
  have list := hD proper.1 level s _ _ _ _ room
    (Rule.Accepts.iterate_more (addMethod_advances (rules_sound level)) one (pushed ▸ more))
  have whole : (Derivation.anotherMethod D E).tokens ++ us = D.tokens ++ (E.tokens ++ us) :=
    List.append_assoc ..
  rw [whole]
  exact list.levels (by show max (max D.nesting E.nesting) levels = _; omega)

theorem methods_accepts {D : Derivation .methods} (h : MethodsRead D) (proper : D.Proper)
    (level : Nat) {s : State} (closing : Terminal .rightBrace) (rest : List Token)
    (room : maxDepth ≤ s.depth + level) :
    (Rule.iterate (addMethod (rules level)) #[]).Accepts s (D.tokens ++ closing.1 :: rest)
      (closing.1 :: rest) D.nesting D.tree.toArray := by
  have last : addMethod (rules level) D.tree.toArray (s.facing (closing.1 :: rest)) =
      .ok none (s.facing (closing.1 :: rest)) := by
    rw [addMethod_facing, if_pos closing.2]
    rfl
  exact (h proper level s _ _ _ _ room
    (.iterate_end (addMethod_advances (rules_sound level)) last)).levels (Nat.max_zero _).symm

theorem classDecl_complete (keyword : Terminal .classKw) (name : Terminal .identifier)
    (superclass : Option (Terminal .less × Terminal .identifier)) (opening : Terminal .leftBrace)
    {D : Derivation .methods} (closing : Terminal .rightBrace) (h : MethodsRead D) :
    ReadBefore (.classDecl keyword name superclass opening D closing) declarationRule := by
  intro proper level s rest room _
  have methods := methods_accepts h proper level closing rest room
  have extended : (Rule.behind .less (Rule.name .ofSuperclass)).Accepts s
      (superclass.elim [] (fun s => [s.1.1, s.2.1]) ++ opening.1 :: (D.tokens ++ closing.1 :: rest))
      (opening.1 :: (D.tokens ++ closing.1 :: rest)) 0 (superclass.map (·.2.1)) := by
    cases superclass with
    | none => exact .behind_none _ (head_ne opening (by decide))
    | some parent => exact (name_accepts .ofSuperclass parent.2 _).behind_some parent.1.2
  have whole : (Derivation.classDecl keyword name superclass opening D closing).tokens ++ rest =
      keyword.1 :: name.1 :: (superclass.elim [] (fun s => [s.1.1, s.2.1]) ++
        opening.1 :: (D.tokens ++ closing.1 :: rest)) := by
    change keyword.1 :: name.1 :: (superclass.elim [] (fun s => [s.1.1, s.2.1]) ++
      opening.1 :: (D.tokens ++ [closing.1])) ++ rest = _
    simp
  rw [whole]
  exact .step (Rule.accept_true keyword.2) <| .step (Rule.expect_ok _ name.2) <|
    extended.lead <| .step (Rule.expect_ok _ opening.2) <| methods.finish <|
    .step (Rule.expect_ok _ closing.2) (.pure _)

theorem funDecl_complete (keyword : Terminal .funKw) {D : Derivation .function}
    (h : ReadBefore D (function · .function)) : ReadBefore (.funDecl keyword D) declarationRule := by
  intro proper level s rest room _
  exact .step (Rule.accept_false (head_ne keyword (by decide))) <|
    .step (Rule.accept_true keyword.2) ((h.closed proper rest room rfl).map Stmt.function)

theorem varDecl_complete (keyword : Terminal .varKw) {D : Derivation .binding}
    (h : ReadBefore D varDeclaration) : ReadBefore (.varDecl keyword D) declarationRule := by
  intro proper level s rest room _
  exact .step (Rule.accept_false (head_ne keyword (by decide))) <|
    .step (Rule.accept_false (head_ne keyword (by decide))) <|
    .step (Rule.accept_true keyword.2) (h.closed proper rest room rfl)

theorem ofStatement_complete {D : Derivation .statement} (h : ReadBefore D statement) :
    ReadBefore (.ofStatement D) declarationRule := by
  intro proper level s rest room closed
  exact .step (Rule.accept_false (head_append_ne D rest rfl rfl)) <|
    .step (Rule.accept_false (head_append_ne D rest rfl rfl)) <|
    .step (Rule.accept_false (head_append_ne D rest rfl rfl)) (h proper level s rest room closed)

/-- The rule of its symbol reads the phrase. -/
def Complete : {n : Symbol} → Derivation n → Prop
  | .expr .call, D => ReadAsCallee D
  | .expr (.binary _), D => ReadAsOperand D
  | .expr .expression, D | .expr .assignment, D | .expr .unary, D | .expr .primary, D => ReadWhole D
  | .arguments, D => ArgumentsRead D
  | .argumentList, D => ArgumentListRead D
  | .parameters, D => ParametersRead D
  | .parameterList, D => ParameterListRead D
  | .optional, D => OptionalRead D
  | .initializer, D => InitializerRead D
  | .binding, D => ReadBefore D varDeclaration
  | .function, D => ∀ kind, ReadBefore D (function · kind)
  | .definition, D => ∀ kind, ReadBefore D (functionBody · kind)
  | .methods, D => MethodsRead D
  | .block, D => BlockRead D
  | .declarations, D => DeclarationsRead D
  | .declaration, D => ReadBefore D declarationRule
  | .statement, D => ReadBefore D statement ∧ StatementLinked D
  | .form, D => ReadBefore D statementBody ∧ FormLinked D
  | .exprStmt, D => ReadBefore D expressionStatement
  | .forInit, D => ReadBefore D forInitializer
  | .elseTail, D => TailRead D

theorem Complete.whole {g : Grade} {D : Derivation (.expr g)} (h : Complete D) : ReadWhole D := by
  cases g with
  | call => exact ReadAsCallee.whole h
  | binary level => exact ReadAsOperand.whole h
  | expression | assignment | unary | primary => exact h

/-- Every derivation is read; the induction is on its productions. -/
theorem complete {n : Symbol} (D : Derivation n) : Complete D := by
  induction D with
  | falsehood t | truth t | nothing t | number t | string t | this t | reference t =>
    exact alone_complete rfl rfl rfl fun inner s rest => by rw [primary_facing, t.2]; rfl
  | superMethod keyword dot method => exact superMethod_complete keyword dot method
  | group opening _ closing ih => exact group_complete opening closing ih
  | ofPrimary _ ih => exact ofPrimary_complete ih
  | apply _ opening _ closing ih ihargs => exact apply_complete opening closing ih ihargs
  | property _ dot name ih => exact property_complete dot name ih
  | ofCall _ ih => exact ofCall_complete ih
  | operate operator _ ih => exact operate_complete operator ih
  | ofTighter _ ih => exact ofTighter_complete ih.whole
  | fold _ operator _ ih ih' => exact fold_complete operator ih ih'.whole
  | ofDisjunction _ ih => exact ofDisjunction_complete ih
  | assign name equal _ ih => exact assign_complete name equal ih
  | assignProperty _ dot name equal _ ih ih' => exact assignProperty_complete dot name equal ih ih'
  | expression _ ih => exact expression_complete ih
  | noArguments => exact noArguments_complete
  | someArguments _ ih => exact someArguments_complete ih
  | oneArgument _ ih => exact oneArgument_complete ih
  | anotherArgument _ comma _ ih ih' => exact anotherArgument_complete comma ih ih'
  | noParameters => exact noParameters_complete
  | someParameters _ ih => exact someParameters_complete ih
  | oneParameter name => exact oneParameter_complete name
  | anotherParameter _ comma name ih => exact anotherParameter_complete comma name ih
  | absent => exact absent_complete
  | present _ ih => exact present_complete ih
  | noInitializer => exact noInitializer_complete
  | initializer equal _ ih => exact initializer_complete equal ih
  | binding name _ semicolon ih => exact binding_complete name semicolon ih
  | function _ ih => exact fun kind => function_complete kind (ih kind)
  | definition name opening _ closing _ ih ih' =>
    exact fun kind => definition_complete kind name opening closing ih ih'
  | noMethods => exact noMethods_complete
  | anotherMethod _ _ ih ih' => exact anotherMethod_complete ih (ih' .method)
  | block opening _ closing ih => exact block_complete opening closing ih
  | noDeclarations => exact noDeclarations_complete
  | moreDeclarations _ _ ih ih' => exact moreDeclarations_complete ih ih'
  | classDecl keyword name superclass opening _ closing ih =>
    exact classDecl_complete keyword name superclass opening closing ih
  | funDecl keyword _ ih => exact funDecl_complete keyword (ih .function)
  | varDecl keyword _ ih => exact varDecl_complete keyword ih
  | ofStatement _ ih => exact ofStatement_complete ih.1
  | statement _ ih => exact ⟨statement_complete ih.1, statement_linked ih.2⟩
  | ofExprStmt D ih =>
    obtain ⟨t, us, tokens, starts⟩ := D.begins.exists_cons rfl
    refine ⟨ofExprStmt_complete ih, .of_other tokens ?_⟩
    intro is
    rw [is] at starts
    cases starts
  | print keyword _ semicolon ih =>
    exact ⟨print_complete keyword semicolon ih, .of_other rfl (by simp [keyword.2])⟩
  | ret keyword _ semicolon ih =>
    exact ⟨ret_complete keyword semicolon ih, .of_other rfl (by simp [keyword.2])⟩
  | whileLoop keyword opening _ closing _ ih ih' =>
    exact ⟨whileLoop_complete keyword opening closing ih ih'.1, .of_other rfl (by simp [keyword.2])⟩
  | forLoop keyword opening _ _ semicolon _ closing _ ihinit ihcond ihstep ihbody =>
    exact ⟨forLoop_complete keyword opening semicolon closing ihinit ihcond ihstep ihbody.1,
      .of_other rfl (by simp [keyword.2])⟩
  | ifElse keyword opening _ closing _ _ ih ih' ih'' =>
    exact ⟨ifElse_complete keyword opening closing ih ih'.1 ih'',
      ifElse_linked keyword opening closing ih ih'.1 ih''⟩
  | ofBlock D ih =>
    obtain ⟨t, us, tokens, starts⟩ := D.begins.exists_cons rfl
    refine ⟨ofBlock_complete ih, .of_other tokens ?_⟩
    intro is
    rw [is] at starts
    cases starts
  | exprStmt _ semicolon ih => exact exprStmt_complete semicolon ih
  | noInit semicolon => exact noInit_complete semicolon
  | varInit keyword _ ih => exact varInit_complete keyword ih
  | exprInit _ ih => exact exprInit_complete ih
  | noElse => exact noElse_complete
  | elseBranch els _ ih => exact elseBranch_complete els ih.1 ih.2

/-- A program is read from any state that has no level used up. -/
theorem program_accepted (D : Program) (proper : D.Proper) (s : State) :
    DeclarationsAccepted (rules maxDepth) (fun _ => false) D.tokens s D.tokens [] D.nesting
      D.tree := by
  have read := complete D proper maxDepth s [] D.tokens (fun _ => false) (Nat.le_add_left _ _)
    (fun _ _ => rfl) nofun nofun
  rw [List.append_nil] at read
  exact read (Nat.le_refl _)

/-- What stands in front of the end of the tokens is parsed to what it denotes, or given up for its
nesting and nothing else. -/
theorem program_parsed (D : Program) (proper : D.Proper) {ts : List Token}
    (front : ts.takeWhile (·.kind != .eof) = D.tokens) :
    (D.nesting ≤ maxDepth → parse ts = ⟨D.tree, []⟩) ∧
      (maxDepth < D.nesting → ∃ t, (parse ts).errors = [⟨t, .tooDeep⟩]) := by
  let start := State.start ts
  have facing : State.start ts = start.facing D.tokens := by
    rw [← front]
    rfl
  have accepted := program_accepted D proper start
  unfold parse
  rw [facing]
  constructor
  · intro fits
    have read : declarations (rules maxDepth) (fun _ => false) D.tokens (start.facing D.tokens) =
        (D.tree, start.facing []) :=
      accepted.fits (by show 0 + D.nesting ≤ _; omega)
    exact congrArg (fun r => (⟨r.1, r.2.errors.toList⟩ : Parsed)) read
  · intro beyond
    obtain ⟨t, reported⟩ := (accepted.overruns rfl (Nat.zero_le _)
      (by show _ < 0 + D.nesting; omega)).reported
    exact ⟨t, congrArg Array.toList reported⟩

/-- A program is parsed so whatever stands behind its end. -/
theorem program_outcome (D : Program) (proper : D.Proper) (e : Token) (he : e.kind = .eof)
    (more : List Token) :
    (D.nesting ≤ maxDepth → parse (D.tokens ++ e :: more) = ⟨D.tree, []⟩) ∧
      (maxDepth < D.nesting → ∃ t, (parse (D.tokens ++ e :: more)).errors = [⟨t, .tooDeep⟩]) :=
  program_parsed D proper (congrArg State.ahead (State.start_closed D.inside he more))

end Parse

/-- A program of the grammar within the limits is parsed to the tree it denotes. -/
theorem parse_complete (D : Program) (proper : D.Proper) (fits : D.nesting ≤ Parse.maxDepth)
    (e : Token) (he : e.kind = .eof) (more : List Token) :
    (parse (D.tokens ++ e :: more)).errors = [] ∧
      (parse (D.tokens ++ e :: more)).statements = D.tree := by
  rw [(Parse.program_outcome D proper e he more).1 fits]
  exact ⟨rfl, rfl⟩

/-- `print a(b);` -/
def printCall : Program :=
  let a : Derivation (.expr .call) := .ofPrimary (.reference ⟨⟨.identifier, "a", none, 1⟩, rfl⟩)
  let b : Derivation (.expr .call) := .ofPrimary (.reference ⟨⟨.identifier, "b", none, 1⟩, rfl⟩)
  let argument : Derivation (.expr .expression) := .expression (.ofDisjunction (Parse.loosened b))
  let call : Derivation (.expr .call) := .apply a ⟨⟨.leftParen, "(", none, 1⟩, rfl⟩
    (.someArguments (.oneArgument argument)) ⟨⟨.rightParen, ")", none, 1⟩, rfl⟩
  let form : Derivation .form := .print ⟨⟨.printKw, "print", none, 1⟩, rfl⟩
    (.expression (.ofDisjunction (Parse.loosened call))) ⟨⟨.semicolon, ";", none, 1⟩, rfl⟩
  .moreDeclarations (.ofStatement (.statement form)) .noDeclarations

theorem parse_complete_printCall :
    printCall.Proper ∧ printCall.nesting ≤ Parse.maxDepth ∧ (Token.eof 1).kind = .eof ∧
      (parse (printCall.tokens ++ Token.eof 1 :: [])).errors = [] ∧
      (parse (printCall.tokens ++ Token.eof 1 :: [])).statements = printCall.tree :=
  have proper : printCall.Proper := ⟨⟨trivial, trivial, by decide⟩, trivial⟩
  have fits : printCall.nesting ≤ Parse.maxDepth := by decide
  ⟨proper, fits, rfl, parse_complete printCall proper fits (.eof 1) rfl []⟩

end LoxSyntax
