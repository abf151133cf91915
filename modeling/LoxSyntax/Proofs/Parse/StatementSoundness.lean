import LoxSyntax.Proofs.Grammar.Lookahead
import LoxSyntax.Proofs.Parse.ExpressionSoundness

namespace LoxSyntax

open Grammar

namespace Parse

/-- A phrase that ends behind another. -/
theorem ReadBy.of_closed {n : Symbol} {D : Derivation n} {s s' : State}
    (hahead : s.ahead = D.tokens ++ s'.ahead) (hdepth : s'.depth = s.depth)
    (hlevels : s.depth ≤ maxDepth → s.depth + D.nesting ≤ maxDepth) (hproper : D.Proper)
    (hclosed : D.endsOpen = false) : ReadBy D s s' :=
  ⟨hahead, hdepth, hlevels, hproper, fun stays => by simp [hclosed] at stays⟩

theorem statement_reads {inner : Rules} (hi : inner.Sound) :
    (statement inner).Yields (Phrase .statement) := by
  apply hi.statement.nested.imp
  intro s a s' h
  obtain ⟨room, t, ⟨D, rfl, read⟩, rfl⟩ := h
  exact ⟨.statement D, rfl, read.nested room rfl rfl Iff.rfl id⟩

theorem function_reads {inner : Rules} (hi : inner.Sound) (kind : FunctionKind) :
    (function inner kind).Yields (Phrase .function) := by
  apply (hi.function kind).nested.imp
  intro s a s' h
  obtain ⟨room, t, ⟨D, rfl, read⟩, rfl⟩ := h
  exact ⟨.function D, rfl, read.nested room rfl rfl Iff.rfl nofun⟩

/-- An expression that may be missing in front of a mark. -/
theorem optional_reads {inner : Rules} (hi : inner.Sound) (kind : TokenKind) :
    (Rule.before kind (expression inner)).Yields (Phrase .optional) := by
  apply (Rule.Yields.before kind (expression_reads hi)).imp
  intro s found s' read
  cases found with
  | none =>
    subst read
    exact ⟨.absent, rfl, .of_closed rfl rfl id trivial rfl⟩
  | some e =>
    obtain ⟨D, rfl, read⟩ := read
    exact ⟨.present D, rfl, .of_closed read.ahead read.depth read.levels read.proper rfl⟩

theorem initializer_reads {inner : Rules} (hi : inner.Sound) :
    (Rule.behind .equal (expression inner)).Yields (Phrase .initializer) := by
  apply (Rule.Yields.behind .equal (expression_reads hi)).imp
  intro s found s' read
  cases found with
  | none =>
    obtain ⟨rfl, -⟩ := read
    exact ⟨.noInitializer, rfl, .of_closed rfl rfl id trivial rfl⟩
  | some e =>
    obtain ⟨equal, t, isEqual, ahead, depth, D, rfl, read⟩ := read
    refine ⟨.initializer ⟨equal, isEqual⟩ D, rfl,
      .of_closed ?_ (read.depth.trans depth) (depth ▸ read.levels) read.proper rfl⟩
    change s.ahead = equal :: D.tokens ++ s'.ahead
    simp [ahead, read.ahead]

theorem varDeclaration_reads {inner : Rules} (hi : inner.Sound) :
    (varDeclaration inner).Yields (Phrase .binding) := by
  apply ((Rule.Yields.expect .identifier _).bind fun name => (initializer_reads hi).bind fun value =>
    (Rule.Yields.expect .semicolon _).bind fun _ => Rule.Yields.pure (Stmt.varDecl name value)).imp
  intro s a s' h
  obtain ⟨name, t, ⟨isName, ahead, depth⟩, _, u, ⟨D, rfl, read⟩, semicolon, _, ⟨isSemicolon,
    ahead', depth'⟩, rfl, rfl⟩ := h
  refine ⟨.binding ⟨name, isName⟩ D ⟨semicolon, isSemicolon⟩, rfl,
    .of_closed ?_ (depth'.trans (read.depth.trans depth)) (depth ▸ read.levels) read.proper rfl⟩
  change s.ahead = name :: (D.tokens ++ [semicolon]) ++ s'.ahead
  simp [ahead, read.ahead, ahead']

theorem expressionStatement_reads {inner : Rules} (hi : inner.Sound) :
    (expressionStatement inner).Yields (Phrase .exprStmt) := by
  apply ((expression_reads hi).bind fun value => (Rule.Yields.expect .semicolon _).bind fun _ =>
    Rule.Yields.pure (Stmt.expression value)).imp
  intro s a s' h
  obtain ⟨_, t, ⟨D, rfl, read⟩, semicolon, _, ⟨isSemicolon, ahead, depth⟩, rfl, rfl⟩ := h
  refine ⟨.exprStmt D ⟨semicolon, isSemicolon⟩, rfl,
    .of_closed ?_ (depth.trans read.depth) read.levels read.proper rfl⟩
  change s.ahead = D.tokens ++ [semicolon] ++ s'.ahead
  simp [ahead, read.ahead]

/-- A phrase whose first token was taken before. -/
def PhraseBehind (n : Symbol) (first : Token) (s : State) (a : n.Meaning) (s' : State) : Prop :=
  ∀ s₀ : State, s₀.ahead = first :: s.ahead → s.depth = s₀.depth → Phrase n s₀ a s'

theorem printStatement_reads {inner : Rules} (hi : inner.Sound) (keyword : Terminal .printKw) :
    (printStatement inner).Yields (PhraseBehind .form keyword.1) := by
  apply ((expression_reads hi).bind fun value => (Rule.Yields.expect .semicolon _).bind fun _ =>
    Rule.Yields.pure (Stmt.print value)).imp
  intro s a s' h s₀ ahead₀ depth₀
  obtain ⟨_, t, ⟨D, rfl, read⟩, semicolon, _, ⟨isSemicolon, ahead, depth⟩, rfl, rfl⟩ := h
  refine ⟨.print keyword D ⟨semicolon, isSemicolon⟩, rfl, .of_closed ?_
    (depth.trans (read.depth.trans depth₀)) (depth₀ ▸ read.levels) read.proper rfl⟩
  change s₀.ahead = keyword.1 :: (D.tokens ++ [semicolon]) ++ s'.ahead
  simp [ahead₀, ahead, read.ahead]

theorem returnStatement_reads {inner : Rules} (hi : inner.Sound) (keyword : Terminal .returnKw) :
    (returnStatement inner keyword.1).Yields (PhraseBehind .form keyword.1) := by
  apply ((optional_reads hi .semicolon).bind fun value =>
    (Rule.Yields.expect .semicolon _).bind fun _ =>
    Rule.Yields.pure (Stmt.ret keyword.1 value)).imp
  intro s a s' h s₀ ahead₀ depth₀
  obtain ⟨_, t, ⟨D, rfl, read⟩, semicolon, _, ⟨isSemicolon, ahead, depth⟩, rfl, rfl⟩ := h
  refine ⟨.ret keyword D ⟨semicolon, isSemicolon⟩, rfl, .of_closed ?_
    (depth.trans (read.depth.trans depth₀)) (depth₀ ▸ read.levels) read.proper rfl⟩
  change s₀.ahead = keyword.1 :: (D.tokens ++ [semicolon]) ++ s'.ahead
  simp [ahead₀, ahead, read.ahead]

theorem whileStatement_reads {inner : Rules} (hi : inner.Sound) (keyword : Terminal .whileKw) :
    (whileStatement inner).Yields (PhraseBehind .form keyword.1) := by
  apply ((Rule.Yields.expect .leftParen _).bind fun _ => (expression_reads hi).bind fun condition =>
    (Rule.Yields.expect .rightParen _).bind fun _ => (statement_reads hi).bind fun body =>
    Rule.Yields.pure (Stmt.whileLoop condition body)).imp
  intro s a s' h s₀ ahead₀ depth₀
  obtain ⟨o, t, ⟨isOpening, ahead, depth⟩, _, u, ⟨C, rfl, condition⟩, c, v, ⟨isClosing, ahead',
    depth'⟩, _, _, ⟨B, rfl, body⟩, rfl, rfl⟩ := h
  have atCondition : t.depth = s₀.depth := depth.trans depth₀
  have atBody : v.depth = s₀.depth := depth'.trans (condition.depth.trans atCondition)
  refine ⟨.whileLoop keyword ⟨o, isOpening⟩ C ⟨c, isClosing⟩ B, rfl, ?_, body.depth.trans atBody,
    fun room => ?_, ⟨condition.proper, body.proper⟩, body.closed⟩
  · change s₀.ahead = keyword.1 :: o :: (C.tokens ++ c :: B.tokens) ++ s'.ahead
    simp [ahead₀, ahead, condition.ahead, ahead', body.ahead]
  · change s₀.depth + max C.nesting B.nesting ≤ maxDepth
    have first := condition.levels (atCondition ▸ room)
    have second := body.levels (atBody ▸ room)
    omega

theorem forInitializer_reads {inner : Rules} (hi : inner.Sound) :
    (forInitializer inner).Yields (Phrase .forInit) := by
  apply ((Rule.Yields.accept .semicolon).bind fun empty => Rule.Yields.ite (empty = true)
    (Rule.Yields.pure none) ((Rule.Yields.accept .varKw).bind fun isVar =>
      Rule.Yields.ite (isVar = true) ((varDeclaration_reads hi).map some)
        ((expressionStatement_reads hi).map some))).imp
  intro s a s' h
  obtain ⟨empty, t, found, reads⟩ := h
  cases empty with
  | true =>
    obtain ⟨semicolon, isSemicolon, ahead, depth⟩ := found
    obtain ⟨rfl, rfl⟩ := reads
    exact ⟨.noInit ⟨semicolon, isSemicolon⟩, rfl, .of_closed ahead depth id trivial rfl⟩
  | false =>
    obtain ⟨rfl, -⟩ := found
    obtain ⟨isVar, u, found, reads⟩ := reads
    cases isVar with
    | true =>
      obtain ⟨keyword, isKeyword, ahead, depth⟩ := found
      obtain ⟨_, ⟨D, rfl, read⟩, rfl⟩ := reads
      refine ⟨.varInit ⟨keyword, isKeyword⟩ D, rfl,
        .of_closed ?_ (read.depth.trans depth) (depth ▸ read.levels) read.proper rfl⟩
      change t.ahead = keyword :: D.tokens ++ s'.ahead
      simp [ahead, read.ahead]
    | false =>
      obtain ⟨rfl, -⟩ := found
      obtain ⟨_, ⟨D, rfl, read⟩, rfl⟩ := reads
      exact ⟨.exprInit D, rfl, .of_closed read.ahead read.depth read.levels read.proper rfl⟩

/-- A loop is what its clauses are put together to. -/
theorem forLoop_eq_loop (init : Option Stmt) (condition increment : Option Expr) (body : Stmt) :
    forLoop init condition increment body = loop init condition increment body := by
  cases init <;> cases increment <;> rfl

theorem forStatement_reads {inner : Rules} (hi : inner.Sound) (keyword : Terminal .forKw) :
    (forStatement inner).Yields (PhraseBehind .form keyword.1) := by
  apply ((Rule.Yields.expect .leftParen _).bind fun _ => (forInitializer_reads hi).bind fun init =>
    (optional_reads hi .semicolon).bind fun condition =>
    (Rule.Yields.expect .semicolon _).bind fun _ =>
    (optional_reads hi .rightParen).bind fun increment =>
    (Rule.Yields.expect .rightParen _).bind fun _ => (statement_reads hi).bind fun body =>
    Rule.Yields.pure (forLoop init condition increment body)).imp
  intro s a s' h s₀ ahead₀ depth₀
  obtain ⟨o, t, ⟨isOpening, ahead, depth⟩, _, u, ⟨I, rfl, init⟩, _, v, ⟨C, rfl, condition⟩,
    semicolon, w, ⟨isSemicolon, ahead', depth'⟩, _, x, ⟨N, rfl, increment⟩, c, y, ⟨isClosing,
    ahead'', depth''⟩, _, _, ⟨B, rfl, body⟩, rfl, rfl⟩ := h
  have atInit : t.depth = s₀.depth := depth.trans depth₀
  have atCondition : u.depth = s₀.depth := init.depth.trans atInit
  have atIncrement : w.depth = s₀.depth := depth'.trans (condition.depth.trans atCondition)
  have atBody : y.depth = s₀.depth := depth''.trans (increment.depth.trans atIncrement)
  refine ⟨.forLoop keyword ⟨o, isOpening⟩ I C ⟨semicolon, isSemicolon⟩ N ⟨c, isClosing⟩ B,
    (forLoop_eq_loop ..).symm, ?_, body.depth.trans atBody, fun room => ?_,
    ⟨init.proper, condition.proper, increment.proper, body.proper⟩, body.closed⟩
  · change s₀.ahead = keyword.1 :: o :: (I.tokens ++ (C.tokens ++ semicolon ::
      (N.tokens ++ c :: B.tokens))) ++ s'.ahead
    simp [ahead₀, ahead, init.ahead, condition.ahead, ahead', increment.ahead, ahead'', body.ahead]
  · change s₀.depth + max I.nesting (max C.nesting (max N.nesting B.nesting)) ≤ maxDepth
    have first := init.levels (atInit ▸ room)
    have second := condition.levels (atCondition ▸ room)
    have third := increment.levels (atIncrement ▸ room)
    have fourth := body.levels (atBody ▸ room)
    omega

/-- A condition in parentheses and the statement it guards, as they were read. -/
structure GuardedBy (opening : Terminal .leftParen) (condition : Derivation (.expr .expression))
    (closing : Terminal .rightParen) (body : Derivation .statement) (s s' : State) : Prop where
  ahead : s.ahead = opening.1 :: (condition.tokens ++ closing.1 :: body.tokens) ++ s'.ahead
  depth : s'.depth = s.depth
  levels : s.depth ≤ maxDepth → s.depth + max condition.nesting body.nesting ≤ maxDepth
  proper : condition.Proper ∧ body.Proper
  closed : body.endsOpen = true → ∀ t ∈ s'.ahead.head?, t.kind ≠ .elseKw

theorem guarded_reads {inner : Rules} (hi : inner.Sound) :
    (guarded inner).Yields (fun s a s' => ∃ (o : Terminal .leftParen)
      (condition : Derivation (.expr .expression)) (c : Terminal .rightParen)
      (body : Derivation .statement), a = (condition.tree, body.tree) ∧
      GuardedBy o condition c body s s') := by
  apply ((Rule.Yields.expect .leftParen _).bind fun _ => (expression_reads hi).bind fun condition =>
    (Rule.Yields.expect .rightParen _).bind fun _ => (statement_reads hi).bind fun body =>
    Rule.Yields.pure (condition, body)).imp
  intro s a s' h
  obtain ⟨o, t, ⟨isOpening, ahead, depth⟩, _, u, ⟨C, rfl, condition⟩, c, v, ⟨isClosing, ahead',
    depth'⟩, _, _, ⟨B, rfl, body⟩, rfl, rfl⟩ := h
  have atBody : v.depth = s.depth := depth'.trans (condition.depth.trans depth)
  refine ⟨⟨o, isOpening⟩, C, ⟨c, isClosing⟩, B, rfl, ?_, body.depth.trans atBody, fun room => ?_,
    ⟨condition.proper, body.proper⟩, body.closed⟩
  · simp [ahead, condition.ahead, ahead', body.ahead]
  · have first := condition.levels (depth ▸ room)
    have second := body.levels (atBody ▸ room)
    omega

/-- A guarded statement and what follows it are an `if`. An `else` that follows belongs to it, as a
body that could take it is not followed by one. -/
theorem GuardedBy.ifElse {opening : Terminal .leftParen} {condition : Derivation (.expr .expression)}
    {closing : Terminal .rightParen} {body : Derivation .statement} {s₀ s t t' : State}
    (h : GuardedBy opening condition closing body s t) (keyword : Terminal .ifKw)
    {els : Option Stmt} (tail : Phrase .elseTail t els { t' with depth := t.depth })
    (ahead : s₀.ahead = keyword.1 :: s.ahead) (depth : s.depth = s₀.depth) :
    Phrase .form s₀ (.ifElse condition.tree body.tree els) { t' with depth := s₀.depth } := by
  obtain ⟨T, rfl, tail⟩ := tail
  have after : t.ahead = T.tokens ++ t'.ahead := tail.ahead
  have same : t.depth = s₀.depth := h.depth.trans depth
  have nearest : T.hasElse = true → body.endsOpen = false := by
    intro follows
    cases stays : body.endsOpen with
    | false => rfl
    | true =>
      cases T with
      | noElse => cases follows
      | elseBranch els branch => exact absurd els.2 (h.closed stays els.1 (by rw [after]; rfl))
  refine ⟨.ifElse keyword opening condition closing body T, rfl, ?_, rfl, fun room => ?_,
    ⟨h.proper.1, h.proper.2, tail.proper, nearest⟩, tail.closed⟩
  · change s₀.ahead = keyword.1 :: opening.1 :: (condition.tokens ++ closing.1 ::
      (body.tokens ++ T.tokens)) ++ t'.ahead
    simp [ahead, h.ahead, after]
  · change s₀.depth + max condition.nesting (max body.nesting T.nesting) ≤ maxDepth
    have first := h.levels (depth ▸ room)
    have second := tail.levels (same ▸ room)
    omega

/-- One more link of an `if`: the guarded statement of an `else if`, or the last branch. -/
theorem elseLink_reads {inner : Rules} (hi : inner.Sound) (links : Links) :
    (elseLink inner links).Yields (fun s found s' => match found with
      | none => s' = s ∧ (links.last = none → ∀ t ∈ s.ahead.head?, t.kind ≠ .elseKw)
      | some links' => links.last = none ∧ ∃ (els : Terminal .elseKw) (t : State),
          (s.ahead = els.1 :: t.ahead ∧ t.depth = s.depth ∧
            ∃ last, Phrase .statement t last s' ∧ links' = { links with last := some last }) ∨
          ∃ keyword : Terminal .ifKw, s.ahead = els.1 :: keyword.1 :: t.ahead ∧
            s.depth < maxDepth ∧ t.depth = s.depth + 1 ∧ ∃ (o : Terminal .leftParen)
              (condition : Derivation (.expr .expression)) (c : Terminal .rightParen)
              (body : Derivation .statement), GuardedBy o condition c body t s' ∧
              links' = { links with guards := links.guards.push (condition.tree, body.tree) }) := by
  refine (Rule.Yields.ite (links.last.isSome = true) (Rule.Yields.pure none)
    ((Rule.Yields.accept .elseKw).bind fun follows => Rule.Yields.ite (follows = true)
      ((Rule.Yields.accept .ifKw).bind fun again => Rule.Yields.ite (again = true)
        (Rule.Yields.descend.bind fun _ => (guarded_reads hi).bind fun guard =>
          Rule.Yields.pure (some { links with guards := links.guards.push guard }))
        ((statement_reads hi).bind fun last =>
          Rule.Yields.pure (some { links with last := some last })))
      (Rule.Yields.pure none))).imp ?_
  intro s found s' reads
  by_cases ended : links.last.isSome = true
  · rw [if_pos ended] at reads
    obtain ⟨rfl, rfl⟩ := reads
    exact ⟨rfl, fun none => by simp [none] at ended⟩
  rw [if_neg ended] at reads
  have notEnded : links.last = none := by simpa using ended
  obtain ⟨follows, t, taken, reads⟩ := reads
  cases follows with
  | false =>
    obtain ⟨rfl, rfl⟩ := reads
    obtain ⟨rfl, other⟩ := taken
    exact ⟨rfl, fun _ => other⟩
  | true =>
    obtain ⟨els, isElse, ahead, depth⟩ := taken
    obtain ⟨again, u, taken, reads⟩ := reads
    cases again with
    | true =>
      obtain ⟨keyword, isIf, ahead', depth'⟩ := taken
      obtain ⟨_, v, ⟨room, rfl⟩, _, _, ⟨o, C, c, B, rfl, guard⟩, rfl, rfl⟩ := reads
      have same : u.depth = s.depth := depth'.trans depth
      exact ⟨notEnded, ⟨els, isElse⟩, _, .inr ⟨⟨keyword, isIf⟩, by rw [ahead, ahead'],
        by omega, by simp only [same], o, C, c, B, guard, rfl⟩⟩
    | false =>
      obtain ⟨rfl, -⟩ := taken
      obtain ⟨last, _, branch, rfl, rfl⟩ := reads
      exact ⟨notEnded, ⟨els, isElse⟩, u, .inl ⟨ahead, depth, last, branch, rfl⟩⟩

theorem elseLink_advances {inner : Rules} (hi : inner.Sound) (links : Links) :
    (elseLink inner links).Advances := by
  unfold elseLink
  by_cases ended : links.last.isSome = true
  · rw [if_pos ended]
    exact Rule.Advances.pure_none
  · rw [if_neg ended]
    refine Rule.Advances.bind_accept (f := fun follows => if follows = true then
      Rule.accept .ifKw >>= fun again => if again = true then
        Rule.descend >>= fun _ => guarded inner >>= fun guard =>
          pure (some { links with guards := links.guards.push guard })
        else statement inner >>= fun last => pure (some { links with last := some last })
      else pure none) ?_ Rule.Advances.pure_none
    exact ((Rule.Yields.accept .ifKw).bind fun again => Rule.Yields.ite (again = true)
        (Rule.Yields.descend.bind fun _ => (guarded_reads hi).bind fun guard =>
          Rule.Yields.pure (some { links with guards := links.guards.push guard }))
        ((statement_reads hi).bind fun last =>
          Rule.Yields.pure (some { links with last := some last }))).moves

/-- A phrase as far as the depth does not count. -/
theorem Phrase.restored {n : Symbol} {s s' : State} {a : n.Meaning} (h : Phrase n s a s') :
    Phrase n s a { s' with depth := s.depth } := by
  obtain ⟨D, tree, read⟩ := h
  exact ⟨D, tree, read.ahead, rfl, read.levels, read.proper, read.closed⟩

theorem elseBranch_reads {s t s' : State} {branch : Stmt} (els : Terminal .elseKw)
    (ahead : s.ahead = els.1 :: t.ahead) (depth : t.depth = s.depth)
    (read : Phrase .statement t branch { s' with depth := t.depth }) :
    Phrase .elseTail s (some branch) { s' with depth := s.depth } := by
  obtain ⟨D, rfl, read⟩ := read
  refine ⟨.elseBranch els D, rfl, ?_, rfl, depth ▸ read.levels, read.proper, read.closed⟩
  have behind : t.ahead = D.tokens ++ s'.ahead := read.ahead
  change s.ahead = els.1 :: D.tokens ++ s'.ahead
  rw [ahead, behind, List.cons_append]

/-- Links that were read so far, from the first state to the second: they and the rest, whichever
is read, are what follows the first guarded statement. -/
def Linked (s₀ : State) (links : Links) (s : State) : Prop :=
  match links.last with
  | none => ∀ (els : Option Stmt) (s' : State), Phrase .elseTail s els { s' with depth := s.depth } →
      Phrase .elseTail s₀ (Links.toElse ⟨links.guards, els⟩) { s' with depth := s₀.depth }
  | some _ => Phrase .elseTail s₀ links.toElse { s with depth := s₀.depth }

/-- Behind one link more, less is left to be read. -/
theorem Linked.push {s₀ s t s' : State} {links : Links} {o : Terminal .leftParen}
    {condition : Derivation (.expr .expression)} {c : Terminal .rightParen}
    {body : Derivation .statement} (h : Linked s₀ links s) (notEnded : links.last = none)
    (els : Terminal .elseKw) (keyword : Terminal .ifKw)
    (ahead : s.ahead = els.1 :: keyword.1 :: t.ahead) (room : s.depth < maxDepth)
    (depth : t.depth = s.depth + 1) (guard : GuardedBy o condition c body t s') :
    Linked s₀ { links with guards := links.guards.push (condition.tree, body.tree) } s' := by
  unfold Linked at h ⊢
  rw [notEnded] at h ⊢
  intro rest s'' tail
  have chain : Links.toElse ⟨links.guards.push (condition.tree, body.tree), rest⟩ =
      Links.toElse ⟨links.guards, some (.ifElse condition.tree body.tree rest)⟩ := by
    simp [Links.toElse]
  change Phrase .elseTail s₀ (Links.toElse ⟨links.guards.push _, rest⟩) _
  rw [chain]
  refine h _ s'' (elseBranch_reads (t := { s with ahead := keyword.1 :: t.ahead }) els ahead rfl ?_)
  obtain ⟨D, tree, read⟩ : Phrase .form { s with ahead := keyword.1 :: t.ahead, depth := s.depth + 1 }
      (.ifElse condition.tree body.tree rest) { s'' with depth := s.depth + 1 } :=
    guard.ifElse keyword tail rfl depth
  have deeper := read.nested (s := { s with ahead := keyword.1 :: t.ahead })
    (E := .statement D) room rfl rfl Iff.rfl id
  exact ⟨.statement D, tree, deeper⟩

theorem ifStatement_reads {inner : Rules} (hi : inner.Sound) (keyword : Terminal .ifKw) :
    (ifStatement inner).Yields (PhraseBehind .form keyword.1) := by
  apply (Rule.Yields.keepingDepth ((guarded_reads hi).bind fun guard =>
    (Rule.Yields.iterate (⟨#[], none⟩ : Links) (elseLink_reads hi) (elseLink_advances hi)).bind
      fun links => Rule.Yields.pure (Stmt.ifElse guard.1 guard.2 links.toElse))).imp
  intro s a s' h s₀ ahead₀ depth₀
  obtain ⟨v, ⟨_, t, ⟨o, condition, c, body, rfl, guard⟩, links, _, rounds, rfl, rfl⟩, rfl⟩ := h
  have start : Linked t ⟨#[], none⟩ t := fun els s' tail => tail
  obtain ⟨_, linked, rfl, ended⟩ := rounds (Linked t) start (by
    intro links s links' s' linked h'
    obtain ⟨notEnded, els, between, link⟩ := h'
    rcases link with ⟨ahead, depth, last, branch, rfl⟩ |
      ⟨keyword, ahead, room, depth, o, condition, c, body, guard, rfl⟩
    · unfold Linked at linked
      rw [notEnded] at linked
      exact linked (some last) s' (elseBranch_reads els ahead depth branch.restored)
    · exact linked.push notEnded els keyword ahead room depth guard)
  have tail : Phrase .elseTail t links.toElse { v with depth := t.depth } := by
    cases last : links.last with
    | some branch => simpa only [Linked, last] using linked
    | none =>
      simp only [Linked, last] at linked
      have nothing : Phrase .elseTail v none { v with depth := v.depth } :=
        ⟨.noElse, rfl, rfl, rfl, id, trivial, fun _ => ended last⟩
      have same : links = ⟨links.guards, none⟩ := by rw [← last]
      rw [same]
      exact linked none v nothing
  rw [depth₀]
  exact guard.ifElse keyword tail ahead₀ depth₀

end Parse

end LoxSyntax
