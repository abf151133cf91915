import LoxSyntax.Proofs.Grammar.Lookahead
import LoxSyntax.Proofs.Parse.Acceptance
import LoxSyntax.Proofs.Parse.ProgramSoundness

namespace LoxSyntax

open Grammar

namespace Parse

/-- A rule of the next level, run by a rule of this one. -/
theorem Rule.Accepts.deeper {s : State} {us vs : List Token} {levels : Nat} {α : Type}
    (select body : Rules → Rule α) {a : α} (n : Nat) (room : maxDepth ≤ s.depth + n)
    (hselect : ∀ n, select (rules (n + 1)) = body (rules n))
    (h : ∀ n (s : State), maxDepth ≤ s.depth + n → (body (rules n)).Accepts s us vs levels a) :
    (Rule.nested (select (rules n))).Accepts s us vs (levels + 1) a := by
  refine .nested fun below => ?_
  cases n with
  | zero => omega
  | succ n =>
    rw [hselect]
    exact h n s.deeper (by show maxDepth ≤ s.depth + 1 + n; omega)

/-- The repetition behind the first operand of a level. -/
def Rules.fold (inner : Rules) (level : Precedence) : Expr → Rule Expr :=
  Rule.iterate (foldOperand level.operators (inner.expr level.tighter) level.node)

theorem Rules.expr_binary (inner : Rules) (level : Precedence) :
    inner.expr (.binary level) = inner.expr level.tighter >>= inner.fold level := by
  cases level <;> rfl

theorem foldOperand_rules_advances (n : Nat) (level : Precedence) (left : Expr) :
    (foldOperand level.operators ((rules n).expr level.tighter) level.node left).Advances :=
  foldOperand_advances level.operators (operand_reads (rules_sound n) level) level.node left

theorem fold_end {s : State} {us : List Token} (n : Nat) (level : Precedence) (left : Expr)
    (h : pull us < (Grade.binary level).rank) :
    ((rules n).fold level left).Accepts s us us 0 left := by
  have other : ∀ t ∈ us.head?, t.kind ∉ level.operators :=
    not_mem_of_pull_lt h fun kind is => Nat.le_of_eq (Grade.strength_of_mem is).symm
  refine .iterate_end (foldOperand_rules_advances n level) ?_
  unfold foldOperand
  rw [Rule.bind_ok _ (Rule.take?_none other)]
  rfl

/-- The repetition behind a primary expression. -/
def Rules.follow (inner : Rules) : Expr → Rule Expr := Rule.iterate (callOrGet inner)

theorem follow_end {s : State} {us : List Token} (n : Nat) (e : Expr)
    (h : pull us < Grade.call.rank) : ((rules n).follow e).Accepts s us us 0 e := by
  have other : ∀ t ∈ us.head?, t.kind ∉ [TokenKind.leftParen, .dot] :=
    not_mem_of_pull_lt h (by decide)
  refine .iterate_end (callOrGet_advances (rules_sound n)) ?_
  unfold callOrGet
  rw [Rule.bind_ok _ (Rule.accept_false fun t next is => other t next (by simp [is]))]
  unfold Rule.behind
  exact Rule.bind_ok _ (Rule.accept_false fun t next is => other t next (by simp [is]))

/-- The rule of its grade reads the phrase in front of anything that binds less tightly. -/
def ReadWhole {g : Grade} (D : Derivation (.expr g)) : Prop :=
  D.Proper → ∀ (n : Nat) (s : State) (rest : List Token), maxDepth ≤ s.depth + n →
    pull rest < g.rank → ((rules n).expr g).Accepts s (D.tokens ++ rest) rest D.nesting D.tree

/-- The rule of calls reads the phrase, and then whatever is read behind it. -/
def ReadAsCallee (D : Derivation (.expr .call)) : Prop :=
  D.Proper → ∀ (n : Nat) (s : State) (us vs : List Token) (levels : Nat) (e : Expr),
    maxDepth ≤ s.depth + n → ((rules n).follow D.tree).Accepts s us vs levels e →
    (call (rules n)).Accepts s (D.tokens ++ us) vs (max D.nesting levels) e

/-- The rule of a level reads the phrase, and then whatever is read behind it. -/
def ReadAsOperand {level : Precedence} (D : Derivation (.expr (.binary level))) : Prop :=
  D.Proper → ∀ (n : Nat) (s : State) (us vs : List Token) (levels : Nat) (e : Expr),
    maxDepth ≤ s.depth + n → pull us ≤ (Grade.binary level).rank →
    ((rules n).fold level D.tree).Accepts s us vs levels e →
    ((rules n).expr (.binary level)).Accepts s (D.tokens ++ us) vs (max D.nesting levels) e

theorem ReadAsCallee.whole {D : Derivation (.expr .call)} (h : ReadAsCallee D) : ReadWhole D :=
  fun proper n s rest room weak =>
    (h proper n s rest rest 0 D.tree room (follow_end n D.tree weak)).levels (by omega)

theorem ReadAsOperand.whole {level : Precedence} {D : Derivation (.expr (.binary level))}
    (h : ReadAsOperand D) : ReadWhole D :=
  fun proper n s rest room weak =>
    (h proper n s rest rest 0 D.tree room (Nat.le_of_lt weak) (fold_end n level D.tree weak)).levels
      (by omega)

/-- A token that is not of the other kind, and tokens behind it. -/
theorem head_ne {kind other : TokenKind} (t : Terminal kind) {rest : List Token}
    (h : kind ≠ other) : ∀ u ∈ (t.1 :: rest).head?, u.kind ≠ other := by
  intro _ h'
  cases h'
  rw [t.2]
  exact h

/-- A phrase that is not empty starts with nothing else than what it can start with. -/
theorem head_append_not_mem {m : Symbol} {kinds : List TokenKind} (D : Derivation m)
    (rest : List Token) (solid : m.nullable = false) (h : ∀ kind ∈ kinds, m.starts kind = false) :
    ∀ t ∈ (D.tokens ++ rest).head?, t.kind ∉ kinds := by
  obtain ⟨t, us, tokens, starts⟩ := D.begins.exists_cons solid
  rw [tokens]
  intro _ h' is
  cases h'
  simp [h _ is] at starts

theorem head_append_ne {m : Symbol} {kind : TokenKind} (D : Derivation m) (rest : List Token)
    (solid : m.nullable = false) (h : m.starts kind = false) :
    ∀ t ∈ (D.tokens ++ rest).head?, t.kind ≠ kind := by
  have none : ∀ other ∈ [kind], m.starts other = false := by simpa using h
  simpa using head_append_not_mem D rest solid none

/-- A phrase of one token. -/
theorem alone_complete {D : Derivation (.expr .primary)} {t : Token} {e : Expr}
    (htokens : D.tokens = [t]) (hnesting : D.nesting = 0) (htree : D.tree = e)
    (h : ∀ (inner : Rules) (s : State) (rest : List Token),
      primary inner (s.facing (t :: rest)) = .ok e (s.facing rest)) : ReadWhole D := by
  intro _ n s rest _ _
  rw [htokens, hnesting, htree]
  exact .still (h (rules n) s rest)

/-- The first token tells which primary expression it is. -/
theorem primary_facing (inner : Rules) (s : State) (t : Token) (rest : List Token) :
    primary inner (s.facing (t :: rest)) = (match t.kind with
      | .falseKw => do Rule.skip; return .constant (.bool false)
      | .trueKw => do Rule.skip; return .constant (.bool true)
      | .nilKw => do Rule.skip; return .constant .nil
      | .number | .string => do Rule.skip; return .constant (t.literal.elim .nil .literal)
      | .superKw => do
        Rule.skip
        let _ ← Rule.mark .dot .afterSuper
        return .super t (← Rule.name .ofSuperclassMethod)
      | .thisKw => do Rule.skip; return .this t
      | .identifier => do Rule.skip; return .reference t
      | .leftParen => do
        Rule.skip
        let e ← expression inner
        let _ ← Rule.mark .rightParen .afterExpression
        return .grouping e
      | _ => Rule.fail .noExpression : Rule Expr) (s.facing (t :: rest)) := rfl

theorem reference_complete (name : Terminal .identifier) : ReadWhole (.reference name) :=
  alone_complete rfl rfl rfl fun inner s rest => by rw [primary_facing, name.2]; rfl

theorem superMethod_complete (keyword : Terminal .superKw) (dot : Terminal .dot)
    (method : Terminal .identifier) : ReadWhole (.superMethod keyword dot method) := by
  intro _ n s rest _ _
  refine .still ?_
  change primary (rules n) (s.facing (keyword.1 :: dot.1 :: method.1 :: rest)) = _
  rw [primary_facing, keyword.2]
  dsimp only
  rw [Rule.bind_ok _ Rule.skip_eq, Rule.mark, Rule.bind_ok _ (Rule.expect_ok _ dot.2), Rule.name,
    Rule.bind_ok _ (Rule.expect_ok _ method.2)]
  rfl

theorem expression_accepts {s : State} {us vs : List Token} {levels : Nat} {e : Expr} (n : Nat)
    (room : maxDepth ≤ s.depth + n)
    (h : ∀ n (s : State), maxDepth ≤ s.depth + n →
      (assignment (rules n)).Accepts s us vs levels e) :
    (expression (rules n)).Accepts s us vs (levels + 1) e :=
  .deeper Rules.assignment assignment n room (fun _ => rfl) h

theorem expression_complete {D : Derivation (.expr .assignment)} (h : ReadWhole D) :
    ReadWhole (.expression D) :=
  fun proper n _ rest room weak =>
    expression_accepts n room fun n s room => h proper n s rest room weak

theorem group_complete (opening : Terminal .leftParen) {D : Derivation (.expr .expression)}
    (closing : Terminal .rightParen) (h : ReadWhole D) :
    ReadWhole (.group opening D closing) := by
  intro proper n s rest room _
  have inner := h proper n s (closing.1 :: rest) room (by rw [pull_cons]; decide)
  have whole : (Derivation.group opening D closing).tokens ++ rest =
      opening.1 :: (D.tokens ++ closing.1 :: rest) := by
    change opening.1 :: (D.tokens ++ [closing.1]) ++ rest = _
    simp
  rw [whole]
  refine .congr (do
    Rule.skip
    let e ← expression (rules n)
    let _ ← Rule.mark .rightParen .afterExpression
    return .grouping e) ?_ (by rw [Rules.expr, primary_facing, opening.2])
  exact .step Rule.skip_eq <| inner.finish <| .step (Rule.expect_ok _ closing.2) (.pure _)

/-- The rule of arguments reads the list in front of the closing parenthesis. -/
def ArgumentsRead (D : Derivation .arguments) : Prop :=
  D.Proper → D.tree.length ≤ maxArguments → ∀ (n : Nat) (s : State) (closing : Terminal .rightParen)
    (rest : List Token), maxDepth ≤ s.depth + n → ∃ found : Option (List Expr),
      found.getD [] = D.tree ∧ (Rule.before .rightParen (Rule.commaSeparated (expression (rules n))
        .tooManyArguments)).Accepts s (D.tokens ++ closing.1 :: rest) (closing.1 :: rest) D.nesting
          found

/-- The items of the list are read, and then whatever is read behind them. -/
def ArgumentListRead (D : Derivation .argumentList) : Prop :=
  D.Proper → D.tree.length ≤ maxArguments → ∀ (n : Nat) (s : State) (us vs : List Token)
    (levels : Nat) (all : Array Expr), maxDepth ≤ s.depth + n → pull us = 0 →
      (Rule.moreItems (expression (rules n)) .tooManyArguments D.tree.toArray).Accepts s us vs
        levels all →
      (Rule.addItem (expression (rules n)) .tooManyArguments #[] >>=
        Rule.moreItems (expression (rules n)) .tooManyArguments).Accepts s (D.tokens ++ us) vs
          (max D.nesting levels) all

theorem noArguments_complete : ArgumentsRead .noArguments :=
  fun _ _ _ _ closing _ _ => ⟨none, rfl, .before_none _ closing.2⟩

theorem someArguments_complete {D : Derivation .argumentList} (h : ArgumentListRead D) :
    ArgumentsRead (.someArguments D) := by
  intro proper few n s closing rest room
  have last : (Rule.moreItems (expression (rules n)) .tooManyArguments D.tree.toArray).Accepts s
      (closing.1 :: rest) (closing.1 :: rest) 0 D.tree.toArray :=
    .noItem (expression_reads (rules_sound n)) _ _ (head_ne closing (by decide))
  have list := h proper few n s _ _ _ _ room (pull_cons closing rest) last
  have other : ∀ t ∈ (D.tokens ++ closing.1 :: rest).head?, t.kind ≠ .rightParen :=
    head_append_ne D _ rfl (by decide)
  refine ⟨some D.tree, rfl, .before_some ?_ other⟩
  rw [Rule.commaSeparated_eq]
  exact (list.map Array.toList).levels (Nat.max_zero _).symm

theorem oneArgument_complete {D : Derivation (.expr .expression)} (h : ReadWhole D) :
    ArgumentListRead (.oneArgument D) := by
  intro proper _ n s us vs levels all room weak more
  have item := h proper n s us room (by rw [weak]; decide)
  exact (item.addItem .tooManyArguments (by decide)).bind more

theorem anotherArgument_complete {D : Derivation .argumentList} (comma : Terminal .comma)
    {E : Derivation (.expr .expression)} (hD : ArgumentListRead D) (hE : ReadWhole E) :
    ArgumentListRead (.anotherArgument D comma E) := by
  intro proper few n s us vs levels all room weak more
  have item := hE proper.2 n s us room (by rw [weak]; decide)
  have fewer : D.tree.length < maxArguments := by
    have count : (D.tree ++ [E.tree]).length ≤ maxArguments := few
    exact Nat.lt_of_succ_le (by simpa using count)
  have pushed : D.tree.toArray.push E.tree = (Derivation.anotherArgument D comma E).tree.toArray :=
    List.push_toArray _ _
  have others := Rule.Accepts.anotherItem (expression_reads (rules_sound n)) .tooManyArguments item
    comma.2 fewer (pushed ▸ more)
  have list := hD proper.1 (Nat.le_of_lt fewer) n s _ _ _ _ room (pull_cons comma _) others
  have whole : (Derivation.anotherArgument D comma E).tokens ++ us =
      D.tokens ++ comma.1 :: (E.tokens ++ us) := by
    change D.tokens ++ comma.1 :: E.tokens ++ us = _
    simp
  rw [whole]
  exact list.levels (by show max (max D.nesting E.nesting) levels = _; omega)

theorem ofPrimary_complete {D : Derivation (.expr .primary)} (h : ReadWhole D) :
    ReadAsCallee (.ofPrimary D) := by
  intro proper n s us vs levels e room more
  have primary := h proper n s us room (by have few := pull_le us; show _ < 9; omega)
  exact primary.bind more

theorem apply_complete {D : Derivation (.expr .call)} (opening : Terminal .leftParen)
    {args : Derivation .arguments} (closing : Terminal .rightParen) (hD : ReadAsCallee D)
    (hargs : ArgumentsRead args) : ReadAsCallee (.apply D opening args closing) := by
  intro h n s us vs levels e room more
  obtain ⟨proper, properArgs, few⟩ := h
  obtain ⟨found, tree, list⟩ := hargs properArgs few n s closing us room
  have called : (finishCall (rules n) D.tree).Accepts s (args.tokens ++ closing.1 :: us) us
      args.nesting (.call D.tree closing.1 args.tree) := by
    rw [← tree]
    exact list.finish <| .step (Rule.expect_ok _ closing.2) (.pure _)
  have one : (callOrGet (rules n) D.tree).Accepts s (opening.1 :: (args.tokens ++ closing.1 :: us))
      us args.nesting (some (.call D.tree closing.1 args.tree)) :=
    .step (Rule.accept_true opening.2) (called.map some)
  have whole := hD proper n s _ _ _ _ room
    (Rule.Accepts.iterate_more (callOrGet_advances (rules_sound n)) one more)
  have tokens : (Derivation.apply D opening args closing).tokens ++ us =
      D.tokens ++ opening.1 :: (args.tokens ++ closing.1 :: us) := by
    change D.tokens ++ opening.1 :: (args.tokens ++ [closing.1]) ++ us = _
    simp
  rw [tokens]
  exact whole.levels (by show max (max D.nesting args.nesting) levels = _; omega)

/-- A property access behind a callee, and what is read behind that. -/
theorem follow_property (n : Nat) {s : State} {us vs : List Token} {levels : Nat} {e object : Expr}
    (dot : Terminal .dot) (name : Terminal .identifier)
    (more : ((rules n).follow (.get object name.1)).Accepts s us vs levels e) :
    ((rules n).follow object).Accepts s (dot.1 :: name.1 :: us) vs levels e := by
  have named : (Expr.get object <$> Rule.name .ofProperty).Accepts s (name.1 :: us) us 0
      (.get object name.1) :=
    (Rule.Accepts.still (Rule.expect_ok _ name.2)).map _
  have one : (callOrGet (rules n) object).Accepts s (dot.1 :: name.1 :: us) us 0
      (some (.get object name.1)) :=
    .step (Rule.accept_false (head_ne dot (by decide))) (named.behind_some dot.2)
  exact (Rule.Accepts.iterate_more (callOrGet_advances (rules_sound n)) one more).levels (by omega)

theorem property_complete {D : Derivation (.expr .call)} (dot : Terminal .dot)
    (name : Terminal .identifier) (h : ReadAsCallee D) : ReadAsCallee (.property D dot name) := by
  intro proper n s us vs levels e room more
  have tokens : (Derivation.property D dot name).tokens ++ us =
      D.tokens ++ dot.1 :: name.1 :: us := by
    change D.tokens ++ [dot.1, name.1] ++ us = _
    simp
  rw [tokens]
  exact h proper n s _ _ _ _ room (follow_property n dot name more)

/-- A call is an operand of `!` and `-`, as it does not start with one of them. -/
theorem unary_accepts (n : Nat) {s : State} {us vs : List Token} {levels : Nat} {e : Expr}
    (h : (call (rules n)).Accepts s us vs levels e)
    (other : ∀ t ∈ us.head?, t.kind ∉ [TokenKind.bang, .minus]) :
    (unary (rules n)).Accepts s us vs levels e :=
  .step (Rule.take?_none other) h

theorem ofCall_complete {D : Derivation (.expr .call)} (h : ReadAsCallee D) :
    ReadWhole (.ofCall D) := by
  intro proper n s rest room weak
  exact unary_accepts n (h.whole proper n s rest room weak)
    (head_append_not_mem D rest rfl (by decide))

theorem operate_complete (operator : Operator [.bang, .minus]) {D : Derivation (.expr .unary)}
    (h : ReadWhole D) : ReadWhole (.operate operator D) := by
  intro proper n s rest room weak
  have operand : (Rule.nested (rules n).unary).Accepts s (D.tokens ++ rest) rest (D.nesting + 1)
      D.tree :=
    .deeper Rules.unary unary n room (fun _ => rfl) fun n s room => h proper n s rest room weak
  exact .step (Rule.take?_some operator.2) (operand.finish (.pure _))

theorem ofTighter_complete {level : Precedence} {D : Derivation (.expr level.tighter)}
    (h : ReadWhole D) : ReadAsOperand (.ofTighter D) := by
  intro proper n s us vs levels e room weak more
  have operand := h proper n s us room (by rw [Grade.rank_tighter]; omega)
  rw [Rules.expr_binary]
  exact operand.bind more

theorem fold_complete {level : Precedence} {D : Derivation (.expr (.binary level))}
    (operator : Operator level.operators) {E : Derivation (.expr level.tighter)}
    (hD : ReadAsOperand D) (hE : ReadWhole E) : ReadAsOperand (.fold D operator E) := by
  intro proper n s us vs levels e room weak more
  have operand := hE proper.2 n s us room (by rw [Grade.rank_tighter]; omega)
  have one : (foldOperand level.operators ((rules n).expr level.tighter) level.node D.tree).Accepts
      s (operator.1 :: (E.tokens ++ us)) us E.nesting (some (level.node D.tree operator.1 E.tree)) :=
    .step (Rule.take?_some operator.2) (operand.finish (.pure _))
  have whole := hD proper.1 n s _ _ _ _ room (Nat.le_of_eq (pull_operator operator _))
    (Rule.Accepts.iterate_more (foldOperand_rules_advances n level) one more)
  have tokens : (Derivation.fold D operator E).tokens ++ us =
      D.tokens ++ operator.1 :: (E.tokens ++ us) := by
    change D.tokens ++ operator.1 :: E.tokens ++ us = _
    simp
  rw [tokens]
  exact whole.levels (by show max (max D.nesting E.nesting) levels = _; omega)

theorem ofDisjunction_complete {D : Derivation (.expr (.binary .disjunction))}
    (h : ReadAsOperand D) : ReadWhole (.ofDisjunction D) := by
  intro proper n s rest room weak
  have target := h.whole proper n s rest room (Nat.lt_succ_of_lt weak)
  have other : ∀ t ∈ rest.head?, t.kind ∉ [TokenKind.equal] := not_mem_of_pull_lt weak (by decide)
  exact target.finish <| .step (Rule.take?_none other) (.pure _)

/-- A call, as an expression with no operators. -/
def loosened (D : Derivation (.expr .call)) : Derivation (.expr (.binary .disjunction)) :=
  let factor : Derivation (.expr (.binary .factor)) := .ofTighter (.ofCall D)
  let term : Derivation (.expr (.binary .term)) := .ofTighter factor
  let comparison : Derivation (.expr (.binary .comparison)) := .ofTighter term
  let equality : Derivation (.expr (.binary .equality)) := .ofTighter comparison
  let conjunction : Derivation (.expr (.binary .conjunction)) := .ofTighter equality
  .ofTighter conjunction

theorem loosened_complete {D : Derivation (.expr .call)} (h : ReadAsCallee D) :
    ReadAsOperand (loosened D) := by
  have factor := @ofTighter_complete .factor _ (ofCall_complete h)
  have term := @ofTighter_complete .term _ factor.whole
  have comparison := @ofTighter_complete .comparison _ term.whole
  have equality := @ofTighter_complete .equality _ comparison.whole
  have conjunction := @ofTighter_complete .conjunction _ equality.whole
  exact @ofTighter_complete .disjunction _ conjunction.whole

/-- A target is read as an expression, and its value behind the `=` one level deeper. -/
theorem assignment_accepts (n : Nat) {s : State} {D : Derivation (.expr .call)}
    {V : Derivation (.expr .assignment)} (equal : Terminal .equal) {rest : List Token} {e : Expr}
    (hD : ReadAsCallee D) (hV : ReadWhole V) (properD : D.Proper) (properV : V.Proper)
    (room : maxDepth ≤ s.depth + n) (weak : pull rest < Grade.assignment.rank)
    (he : (∃ name, D.tree = .reference name ∧ e = .assign name V.tree) ∨
      ∃ object name, D.tree = .get object name ∧ e = .set object name V.tree) :
    (assignment (rules n)).Accepts s (D.tokens ++ equal.1 :: (V.tokens ++ rest)) rest
      (max D.nesting (V.nesting + 1)) e := by
  have target : (disjunction (rules n)).Accepts s (D.tokens ++ equal.1 :: (V.tokens ++ rest))
      (equal.1 :: (V.tokens ++ rest)) D.nesting D.tree :=
    (loosened_complete hD).whole properD n s _ room (by rw [pull_cons]; decide)
  have value : (Rule.nested (rules n).assignment).Accepts s (V.tokens ++ rest) rest (V.nesting + 1)
      V.tree :=
    .deeper Rules.assignment assignment n room (fun _ => rfl) fun n s room => hV properV n s rest room weak
  refine target.bind (.step (Rule.take?_some (List.mem_singleton.mpr equal.2)) (value.finish ?_))
  rcases he with ⟨name, is, rfl⟩ | ⟨object, name, is, rfl⟩ <;> rw [is] <;> exact .pure _

theorem assign_complete (name : Terminal .identifier) (equal : Terminal .equal)
    {V : Derivation (.expr .assignment)} (h : ReadWhole V) : ReadWhole (.assign name equal V) := by
  intro proper n s rest room weak
  have target := ofPrimary_complete (reference_complete name)
  exact (assignment_accepts n equal target h trivial proper room weak
    (.inl ⟨name.1, rfl, rfl⟩)).levels (Nat.zero_max _).symm

theorem assignProperty_complete {D : Derivation (.expr .call)} (dot : Terminal .dot)
    (name : Terminal .identifier) (equal : Terminal .equal) {V : Derivation (.expr .assignment)}
    (hD : ReadAsCallee D) (hV : ReadWhole V) :
    ReadWhole (.assignProperty D dot name equal V) := by
  intro proper n s rest room weak
  have tokens : (Derivation.assignProperty D dot name equal V).tokens ++ rest =
      (Derivation.property D dot name).tokens ++ equal.1 :: (V.tokens ++ rest) := by
    change D.tokens ++ dot.1 :: name.1 :: equal.1 :: V.tokens ++ rest = D.tokens ++ [dot.1, name.1] ++ _
    simp
  rw [tokens]
  exact assignment_accepts n equal (property_complete dot name hD) hV proper.1 proper.2 room weak
    (.inr ⟨D.tree, name.1, rfl, rfl⟩)

end Parse

end LoxSyntax
