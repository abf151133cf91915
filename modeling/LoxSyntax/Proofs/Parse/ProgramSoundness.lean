import LoxSyntax.Proofs.Parse.StatementSoundness

namespace LoxSyntax

open Grammar

namespace Parse

theorem recovering_moves {α : Type} {rule : Rule α} {P : State → α → State → Prop}
    (h : rule.Yields P) (s : State) : s.Extends (recovering rule s).2 :=
  recovering_related (R := State.Extends) .trans h.moves (fun _ => .recover _ _) s

theorem recovering_reads {α : Type} {rule : Rule α} {P : State → α → State → Prop}
    (h : rule.Yields P) {s : State} (quiet : s.Quiet (recovering rule s).2) :
    ∃ a, (recovering rule s).1 = some a ∧ P s a (recovering rule s).2 := by
  have moved := h.moves s
  cases run : rule s with
  | ok a s' =>
    rw [recovering_ok run] at quiet ⊢
    exact ⟨a, rfl, h.reads run quiet⟩
  | error e s' =>
    rw [recovering_error run] at quiet
    rw [Rule.after_error run] at moved
    exact absurd quiet (State.not_quiet_recover e moved)

theorem declarations_moves {inner : Rules}
    (hd : (declarationRule inner).Yields (Phrase .declaration)) (closes : TokenKind → Bool)
    (bound : List Token) (s : State) : s.Extends (declarations inner closes bound s).2 :=
  declarations_related State.Extends.refl State.Extends.trans (recovering_moves hd) closes bound s

theorem noDeclarations_reads (s : State) : Phrase .declarations s [] s :=
  ⟨.noDeclarations, rfl, .of_closed rfl rfl id trivial rfl⟩

/-- Declarations end at a token that closes them, if the bound covers the tokens ahead. -/
theorem declarations_reads {inner : Rules}
    (hd : (declarationRule inner).Yields (Phrase .declaration)) (closes : TokenKind → Bool)
    (bound : List Token) (s : State) (quiet : s.Quiet (declarations inner closes bound s).2)
    (covers : s.ahead.length ≤ bound.length) :
    Phrase .declarations s (declarations inner closes bound s).1
        (declarations inner closes bound s).2 ∧
      ∀ t ∈ (declarations inner closes bound s).2.ahead.head?, closes t.kind = true := by
  induction bound generalizing s with
  | nil =>
    have done : s.ahead = [] := List.eq_nil_of_length_eq_zero (by simpa using covers)
    rw [declarations_nil _ _ _ _ done]
    exact ⟨noDeclarations_reads s, by simp [done]⟩
  | cons b bound ih =>
    obtain ends | ⟨t, next, stays⟩ := ends_or_next closes s
    · rw [declarations_of_ends _ _ ends]
      exact ⟨noDeclarations_reads s, ends⟩
    · rw [declarations_cons inner b bound next stays] at quiet ⊢
      obtain ⟨one, others⟩ := quiet.split (recovering_moves hd s) (declarations_moves hd _ _ _)
      obtain ⟨first, read, D, tree, reads⟩ := recovering_reads hd one
      obtain ⟨u, us, some, -⟩ := D.begins.exists_cons rfl
      have used : s.ahead.length = D.tokens.length + (declaration inner s).2.ahead.length := by
        rw [reads.ahead, List.length_append]; rfl
      obtain ⟨⟨E, tree', more⟩, ends⟩ := ih (declaration inner s).2 others (by
          simp only [some, List.length_cons] at used covers
          omega)
      have same : (declaration inner s).2.depth = s.depth := reads.depth
      refine ⟨⟨.moreDeclarations D E, ?_, .of_closed ?_ (more.depth.trans same) (fun room => ?_)
        ⟨reads.proper, more.proper⟩ rfl⟩, ends⟩
      · change D.tree :: E.tree = _
        rw [tree, tree']
        change first :: _ = (recovering (declarationRule inner) s).1.toList ++ _
        rw [read]
        rfl
      · have behind : s.ahead = D.tokens ++ (declaration inner s).2.ahead := reads.ahead
        change s.ahead = D.tokens ++ E.tokens ++ _
        rw [List.append_assoc, ← more.ahead, ← behind]
      · change s.depth + max D.nesting E.nesting ≤ maxDepth
        have first := reads.levels room
        have second := more.levels (same ▸ room)
        omega

theorem blockBody_reads {inner : Rules}
    (hd : (declarationRule inner).Yields (Phrase .declaration)) :
    (blockBody inner).Yields (Phrase .declarations) where
  moves s := declarations_moves hd _ _ s
  reads := by
    intro s a s' h quiet
    cases h
    exact (declarations_reads hd _ _ s quiet (Nat.le_refl _)).1

/-- A block whose opening brace was taken before. -/
theorem block_reads {inner : Rules} (hd : (declarationRule inner).Yields (Phrase .declaration)) :
    (block inner).Yields (fun s body s' =>
      ∀ opening : Terminal .leftBrace, PhraseBehind .block opening.1 s body s') := by
  apply ((blockBody_reads hd).bind fun body => (Rule.Yields.expect .rightBrace _).bind fun _ =>
    Rule.Yields.pure body).imp
  intro s a s' h opening s₀ ahead₀ depth₀
  obtain ⟨_, t, ⟨D, rfl, read⟩, closing, _, ⟨isClosing, ahead, depth⟩, rfl, rfl⟩ := h
  refine ⟨.block opening D ⟨closing, isClosing⟩, rfl, .of_closed ?_
    (depth.trans (read.depth.trans depth₀)) (depth₀ ▸ read.levels) read.proper rfl⟩
  change s₀.ahead = opening.1 :: (D.tokens ++ [closing]) ++ s'.ahead
  simp [ahead₀, read.ahead, ahead]

/-- What was read of a list of parameters, which is never too long. -/
theorem parameters_reads :
    (Rule.before .rightParen
      (Rule.commaSeparated (Rule.name .ofParameter) .tooManyParameters)).Yields
      (fun s found s' => Phrase .parameters s (found.getD []) s' ∧
        (found.getD []).length ≤ maxArguments) := by
  apply (Rule.Yields.before .rightParen (Rule.Yields.commaSeparated .tooManyParameters
    (Rule.Yields.expect .identifier (.noName .ofParameter)))).imp
  intro s found s' read
  cases found with
  | none =>
    subst read
    exact ⟨⟨.noParameters, rfl, .of_closed rfl rfl id trivial rfl⟩, Nat.zero_le _⟩
  | some all =>
    obtain ⟨⟨D, rfl, list⟩, few⟩ := read (Phrase .parameterList s)
      (by
        intro name t h
        obtain ⟨isName, ahead, depth⟩ := h
        exact ⟨.oneParameter ⟨name, isName⟩, rfl, .of_closed ahead depth id trivial rfl⟩)
      (by
        intro items t comma between name t' h' isComma ahead depth reading
        obtain ⟨D, rfl, list⟩ := h'
        obtain ⟨isName, ahead', depth'⟩ := reading
        refine ⟨.anotherParameter D ⟨comma, isComma⟩ ⟨name, isName⟩, rfl, .of_closed ?_
          (depth'.trans (depth.trans list.depth)) id trivial rfl⟩
        change s.ahead = D.tokens ++ [comma, name] ++ t'.ahead
        simp [list.ahead, ahead, ahead'])
    exact ⟨⟨.someParameters D, rfl, .of_closed list.ahead list.depth id trivial rfl⟩, few⟩

/-- One more method, unless the class body ends. -/
theorem addMethod_reads {inner : Rules} (hi : inner.Sound) (methods : Array Function) :
    (addMethod inner methods).Yields (fun s found s' => match found with
      | some all => ∃ method, Phrase .function s method s' ∧ all = methods.push method
      | none => s' = s) := by
  refine (Rule.Yields.peek?.bind (Q := fun _ s found s' => match found with
      | some all => ∃ method, Phrase .function s method s' ∧ all = methods.push method
      | none => s' = s) fun next => ?_).imp ?_
  · cases next with
    | none =>
      apply (Rule.Yields.pure none).imp
      intro s _ s' h
      obtain ⟨rfl, rfl⟩ := h
      rfl
    | some t =>
      apply (Rule.Yields.ite (t.kind = .rightBrace) (Rule.Yields.pure none)
        ((function_reads hi .method).bind fun method =>
          Rule.Yields.pure (some (methods.push method)))).imp
      intro s found s' reads
      split at reads
      · obtain ⟨rfl, rfl⟩ := reads
        rfl
      · obtain ⟨method, _, read, rfl, rfl⟩ := reads
        exact ⟨method, read, rfl⟩
  · intro s found s' h'
    obtain ⟨_, t, ⟨-, rfl⟩, reads⟩ := h'
    exact reads

theorem addMethod_advances {inner : Rules} (hi : inner.Sound) (methods : Array Function) :
    (addMethod inner methods).Advances := by
  refine Rule.Advances.bind_peek? fun next => ?_
  cases next with
  | none => exact Rule.Advances.pure_none
  | some t =>
    dsimp only
    split
    · exact Rule.Advances.pure_none
    · exact Rule.Advances.map_some methods.push (hi.consumes .method).nested

theorem methods_reads {inner : Rules} (hi : inner.Sound) :
    (Rule.iterate (addMethod inner) #[]).Yields (fun s methods s' =>
      Phrase .methods s methods.toList s') := by
  apply (Rule.Yields.iterate #[] (addMethod_reads hi) (addMethod_advances hi)).imp
  intro s methods s' rounds
  have start : Phrase .methods s #[].toList s :=
    ⟨.noMethods, rfl, .of_closed rfl rfl id trivial rfl⟩
  obtain ⟨_, read, rfl⟩ := rounds (fun methods t => Phrase .methods s methods.toList t) start (by
    intro methods t _ t' h h'
    obtain ⟨D, tree, read⟩ := h
    obtain ⟨_, ⟨E, rfl, method⟩, rfl⟩ := h'
    refine ⟨.anotherMethod D E, ?_, .of_closed ?_ (method.depth.trans read.depth) (fun room => ?_)
      ⟨read.proper, method.proper⟩ rfl⟩
    · change D.tree ++ [E.tree] = _
      rw [tree, Array.toList_push]
    · change s.ahead = D.tokens ++ E.tokens ++ t'.ahead
      rw [read.ahead, method.ahead, List.append_assoc]
    · change s.depth + max D.nesting E.nesting ≤ maxDepth
      have first := read.levels room
      have second := method.levels (read.depth ▸ room)
      have same := read.depth
      omega)
  exact read

/-- A class whose keyword was taken before. -/
theorem classDeclaration_reads {inner : Rules} (hi : inner.Sound) :
    (classDeclaration inner).Yields (fun s a s' =>
      ∀ keyword : Terminal .classKw, PhraseBehind .declaration keyword.1 s a s') := by
  apply ((Rule.Yields.expect .identifier _).bind fun name =>
    (Rule.Yields.behind .less (Rule.Yields.expect .identifier (.noName .ofSuperclass))).bind
      fun superclass => (Rule.Yields.expect .leftBrace _).bind fun _ => (methods_reads hi).bind
      fun methods => (Rule.Yields.expect .rightBrace _).bind fun _ =>
      Rule.Yields.pure (Stmt.classDecl name superclass methods.toList)).imp
  intro s a s' h keyword s₀ ahead₀ depth₀
  obtain ⟨name, t, ⟨isName, ahead, depth⟩, superclass, u, extended, o, v, ⟨isOpening, ahead',
    depth'⟩, methods, w, ⟨D, tree, read⟩, c, _, ⟨isClosing, ahead'', depth''⟩, rfl, rfl⟩ := h
  have named : ∃ parent : Option (Terminal .less × Terminal .identifier),
      superclass = parent.map (·.2.1) ∧
      t.ahead = parent.elim [] (fun s => [s.1.1, s.2.1]) ++ u.ahead ∧ u.depth = t.depth := by
    cases superclass with
    | none =>
      obtain ⟨rfl, -⟩ := extended
      exact ⟨none, rfl, rfl, rfl⟩
    | some parentName =>
      obtain ⟨less, between, isLess, ahead, depth, isName, ahead', depth'⟩ := extended
      refine ⟨some (⟨less, isLess⟩, ⟨parentName, isName⟩), rfl, ?_, depth'.trans depth⟩
      simp [ahead, ahead']
  clear extended
  obtain ⟨parent, rfl, atBody, level⟩ := named
  have same : v.depth = s₀.depth := depth'.trans (level.trans (depth.trans depth₀))
  refine ⟨.classDecl keyword ⟨name, isName⟩ parent ⟨o, isOpening⟩ D ⟨c, isClosing⟩, ?_,
    .of_closed ?_ (depth''.trans (read.depth.trans same)) (same ▸ read.levels) read.proper rfl⟩
  · rw [← tree]
    rfl
  · change s₀.ahead = keyword.1 :: name :: (parent.elim [] (fun s => [s.1.1, s.2.1]) ++
      o :: (D.tokens ++ [c])) ++ s'.ahead
    simp [ahead₀, ahead, atBody, ahead', read.ahead, ahead'']

theorem declarationRule_reads {inner : Rules} (hi : inner.Sound) :
    (declarationRule inner).Yields (Phrase .declaration) := by
  apply ((Rule.Yields.accept .classKw).bind fun isClass => Rule.Yields.ite (isClass = true)
    (classDeclaration_reads hi)
    ((Rule.Yields.accept .funKw).bind fun isFun => Rule.Yields.ite (isFun = true)
      ((function_reads hi .function).map Stmt.function)
      ((Rule.Yields.accept .varKw).bind fun isVar => Rule.Yields.ite (isVar = true)
        (varDeclaration_reads hi) (statement_reads hi)))).imp
  intro s a s' h
  obtain ⟨isClass, t, found, reads⟩ := h
  cases isClass with
  | true =>
    obtain ⟨keyword, isKeyword, ahead, depth⟩ := found
    exact reads ⟨keyword, isKeyword⟩ s ahead depth
  | false =>
  obtain ⟨rfl, -⟩ := found
  obtain ⟨isFun, u, found, reads⟩ := reads
  cases isFun with
  | true =>
    obtain ⟨keyword, isKeyword, ahead, depth⟩ := found
    obtain ⟨_, ⟨D, rfl, read⟩, rfl⟩ := reads
    refine ⟨.funDecl ⟨keyword, isKeyword⟩ D, rfl, .of_closed ?_ (read.depth.trans depth)
      (depth ▸ read.levels) read.proper rfl⟩
    change t.ahead = keyword :: D.tokens ++ s'.ahead
    rw [ahead, read.ahead, List.cons_append]
  | false =>
  obtain ⟨rfl, -⟩ := found
  obtain ⟨isVar, v, found, reads⟩ := reads
  cases isVar with
  | true =>
    obtain ⟨keyword, isKeyword, ahead, depth⟩ := found
    obtain ⟨D, rfl, read⟩ := reads
    refine ⟨.varDecl ⟨keyword, isKeyword⟩ D, rfl, .of_closed ?_ (read.depth.trans depth)
      (depth ▸ read.levels) read.proper rfl⟩
    change u.ahead = keyword :: D.tokens ++ s'.ahead
    rw [ahead, read.ahead, List.cons_append]
  | false =>
    obtain ⟨rfl, -⟩ := found
    obtain ⟨D, rfl, read⟩ := reads
    exact ⟨.ofStatement D, rfl, read.ahead, read.depth, read.levels, read.proper, read.closed⟩

theorem functionBody_reads {inner : Rules} (hi : inner.Sound) (kind : FunctionKind) :
    (functionBody inner kind).Yields (Phrase .definition) := by
  apply ((Rule.Yields.expect .identifier _).bind fun name =>
    (Rule.Yields.expect .leftParen _).bind fun _ => parameters_reads.bind fun params =>
    (Rule.Yields.expect .rightParen _).bind fun _ => (Rule.Yields.expect .leftBrace _).bind fun _ =>
    (block_reads (declarationRule_reads hi)).bind fun body =>
    Rule.Yields.pure (⟨name, params.getD [], body⟩ : Function)).imp
  intro s a s' h
  obtain ⟨name, t, ⟨isName, ahead, depth⟩, o, u, ⟨isOpening, ahead', depth'⟩, _, v, ⟨⟨D, tree,
    params⟩, few⟩, c, w, ⟨isClosing, ahead'', depth''⟩, brace, x, ⟨isBrace, ahead₃, depth₃⟩, _, _,
    block, rfl, rfl⟩ := h
  obtain ⟨B, rfl, body⟩ := block ⟨brace, isBrace⟩ w ahead₃ depth₃
  have same : w.depth = s.depth := depth''.trans (params.depth.trans (depth'.trans depth))
  rw [← tree] at few ⊢
  refine ⟨.definition ⟨name, isName⟩ ⟨o, isOpening⟩ D ⟨c, isClosing⟩ B, rfl, .of_closed ?_
    (body.depth.trans same) (same ▸ body.levels) ⟨few, body.proper⟩ rfl⟩
  change s.ahead = name :: o :: (D.tokens ++ c :: B.tokens) ++ s'.ahead
  simp [ahead, ahead', params.ahead, ahead'', body.ahead]

theorem functionBody_consumes {inner : Rules} (hi : inner.Sound) (kind : FunctionKind) :
    (functionBody inner kind).Consumes := by
  refine (Rule.Consumes.expect .identifier _).bind fun name => ?_
  exact ((Rule.Yields.expect .leftParen _).bind fun _ => parameters_reads.bind fun params =>
    (Rule.Yields.expect .rightParen _).bind fun _ => (Rule.Yields.expect .leftBrace _).bind fun _ =>
    (block_reads (declarationRule_reads hi)).bind fun body =>
    Rule.Yields.pure (⟨name, params.getD [], body⟩ : Function)).moves

/-- A form that starts with a keyword or a brace, read from behind it. -/
theorem form_reads (t : Token) {rule : Rule Stmt} (h : rule.Yields (PhraseBehind .form t)) :
    (Rule.skip >>= fun _ => rule).Yields (fun s a s' =>
      s.ahead.head? = some t → Phrase .form s a s') := by
  apply (Rule.Yields.skip.bind fun _ => h).imp
  intro s a s' h' next
  obtain ⟨_, u, ⟨ahead, depth⟩, read⟩ := h'
  obtain ⟨rest, whole⟩ := List.head?_eq_some_iff.mp next
  rw [whole, List.tail_cons] at ahead
  exact read s (by rw [whole, ahead]) depth

theorem statementBody_reads {inner : Rules} (hi : inner.Sound) :
    (statementBody inner).Yields (Phrase .form) := by
  refine (Rule.Yields.peek?.bind (Q := fun found s a s' => s.ahead.head? = found →
    Phrase .form s a s') fun found => ?_).imp ?_
  · have byExpression : (expressionStatement inner).Yields (fun s a s' =>
        s.ahead.head? = found → Phrase .form s a s') := by
      apply (expressionStatement_reads hi).imp
      intro s a s' h _
      obtain ⟨D, rfl, read⟩ := h
      exact ⟨.ofExprStmt D, rfl, .of_closed read.ahead read.depth read.levels read.proper rfl⟩
    cases found with
    | none => exact byExpression
    | some t =>
      dsimp only
      split
      case h_1 is => exact form_reads t (forStatement_reads hi ⟨t, is⟩)
      case h_2 is => exact form_reads t (ifStatement_reads hi ⟨t, is⟩)
      case h_3 is => exact form_reads t (printStatement_reads hi ⟨t, is⟩)
      case h_4 is => exact form_reads t (returnStatement_reads hi ⟨t, is⟩)
      case h_5 is => exact form_reads t (whileStatement_reads hi ⟨t, is⟩)
      case h_6 is =>
        refine form_reads t (((block_reads (declarationRule_reads hi)).map Stmt.block).imp ?_)
        intro s _ s' h' s₀ ahead₀ depth₀
        obtain ⟨_, block, rfl⟩ := h'
        obtain ⟨B, rfl, read⟩ := block ⟨t, is⟩ s₀ ahead₀ depth₀
        exact ⟨.ofBlock B, rfl, .of_closed read.ahead read.depth read.levels read.proper rfl⟩
      case h_7 => exact byExpression
  · intro s a s' reading
    obtain ⟨_, t, ⟨rfl, rfl⟩, reads⟩ := reading
    exact reads rfl

/-- The rules are sound at every level: at the last one they fail. -/
theorem rules_sound (level : Nat) : (rules level).Sound := by
  induction level with
  | zero => exact ⟨.fail _, .fail _, .fail _, fun _ => .fail _, fun _ s a s' run => by cases run⟩
  | succ level ih =>
    exact ⟨assignment_reads ih, unary_reads ih, statementBody_reads ih, functionBody_reads ih,
      functionBody_consumes ih⟩

/-- Without an error, the declarations are read from the start to the end. -/
theorem program_reads (tokens : List Token) (h : (parse tokens).errors = []) :
    ∃ final, Phrase .declarations (State.start tokens) (parse tokens).statements final ∧
      final.ahead = [] := by
  have sound := declarationRule_reads (rules_sound maxDepth)
  let start := State.start tokens
  let final := (declarations (rules maxDepth) (fun _ => false) start.ahead start).2
  have quiet : start.Quiet final := by
    have none : final.errors = #[] := Array.toList_eq_nil_iff.mp h
    exact ⟨rfl, by rw [none]; rfl⟩
  obtain ⟨read, ends⟩ := declarations_reads sound _ _ _ quiet (Nat.le_refl _)
  refine ⟨final, read, ?_⟩
  cases ahead : final.ahead with
  | nil => rfl
  | cons t rest => exact absurd (ends t (by rw [ahead]; rfl)) Bool.false_ne_true

end Parse

/-- What is parsed without an error is a program of the grammar: its tokens are those in front of
the end, each used once, it is within the limits, and it denotes the statements returned. -/
theorem parse_sound (tokens : List Token) (h : (parse tokens).errors = []) :
    ∃ D : Program, D.tokens = tokens.takeWhile (·.kind != .eof) ∧ D.Proper ∧
      D.nesting ≤ Parse.maxDepth ∧ D.tree = (parse tokens).statements := by
  obtain ⟨final, ⟨D, tree, read⟩, done⟩ := Parse.program_reads tokens h
  have levels : 0 + D.nesting ≤ Parse.maxDepth := read.levels (Nat.zero_le _)
  have whole : (Parse.State.start tokens).ahead = D.tokens := by
    rw [read.ahead, done, List.append_nil]
  exact ⟨D, whole.symm, read.proper, by omega, tree⟩

/-- `if (a) if (b) c; else d;` with its end, and one more token behind that. -/
def danglingElse : List Token :=
  [⟨.ifKw, "if", none, 1⟩, ⟨.leftParen, "(", none, 1⟩, ⟨.identifier, "a", none, 1⟩,
    ⟨.rightParen, ")", none, 1⟩, ⟨.ifKw, "if", none, 1⟩, ⟨.leftParen, "(", none, 1⟩,
    ⟨.identifier, "b", none, 1⟩, ⟨.rightParen, ")", none, 1⟩, ⟨.identifier, "c", none, 1⟩,
    ⟨.semicolon, ";", none, 1⟩, ⟨.elseKw, "else", none, 1⟩, ⟨.identifier, "d", none, 1⟩,
    ⟨.semicolon, ";", none, 1⟩, .eof 1, ⟨.comma, ",", none, 1⟩]

theorem parse_sound_danglingElse :
    (parse danglingElse).errors = [] ∧
      ∃ D : Program, D.tokens = danglingElse.takeWhile (·.kind != .eof) ∧ D.Proper ∧
        D.nesting ≤ Parse.maxDepth ∧ D.tree = (parse danglingElse).statements :=
  have accepted : (parse danglingElse).errors = [] := by decide +kernel
  ⟨accepted, parse_sound danglingElse accepted⟩

end LoxSyntax
