import LoxSyntax.Proofs.Parse.Attempts
import LoxSyntax.Proofs.Parse.CommaList
import LoxSyntax.Proofs.Parse.Height
import LoxSyntax.Proofs.Parse.ProgramCompleteness

namespace LoxSyntax.Parse

open Grammar Rule

/-- The rule reads the item where nothing else is ahead, and records nothing. -/
def Item.ReadsAlone {α : Type} (rule : Rule α) (depth : Nat) (item : Item α) : Prop :=
  ∃ stop, rule ⟨item.tokens, stop, depth, false, #[]⟩ = .ok item.value ⟨[], stop, depth, false, #[]⟩

/-- A parameter. -/
def Item.name (t : Terminal .identifier) : Item Token := ⟨t.1, [], t.1⟩

/-- The errors of a list of items: one for each past the 255th, at its first token. -/
structure ReportsExcess {α : Type} (items : List (Item α)) (message : String)
    (errors : List ParseError) : Prop where
  count : errors.length = items.length - 255
  tokens : errors.map ParseError.token = (items.drop 255).map Item.start
  message : ∀ e ∈ errors, e.problem.message = message

theorem excessErrors_reports {α : Type} (excess : Problem) (items : List (Item α)) :
    ReportsExcess items excess.message (excessErrors excess 0 items) where
  count := by simp [excessErrors, maxArguments]
  tokens := List.map_map
  message e is := by
    obtain ⟨item, -, rfl⟩ := List.mem_map.mp is
    rfl

/-- What a call is read from: a primary expression, or a call or a property access that follows one.
Whatever was recorded on the way does not count. -/
inductive Rules.Callee (inner : Rules) (s : State) : Expr → State → Prop where
  | primary {e : Expr} {t : State} (run : primary inner s = .ok e t) : inner.Callee s e t
  | follow {e e' : Expr} {t t' : State} (before : inner.Callee s e t)
      (run : callOrGet inner e t = .ok (some e') t') : inner.Callee s e' t'

theorem primary_other {first : Token} (h : startsPrimary first.kind = false) (inner : Rules)
    (s : State) (rest : List Token) : primary inner (s.facing (first :: rest)) =
      Rule.fail .noExpression (s.facing (first :: rest)) := by
  rw [primary_facing]
  refine congrFun ?_ (s.facing (first :: rest))
  split
  case h_10 => rfl
  all_goals next is => rw [is] at h; cases h

/-- A primary expression starts with a token of its own. -/
theorem primary_starts {inner : Rules} {s t : State} {e : Expr} (run : primary inner s = .ok e t) :
    ∃ first rest, s.ahead = first :: rest ∧ startsPrimary first.kind = true := by
  cases ahead : s.ahead with
  | nil =>
    have peeked : Rule.peek? s = .ok none s := by simp only [Rule.peek?, ahead, List.head?_nil]
    unfold primary at run
    rw [bind_ok _ peeked] at run
    cases run
  | cons first rest =>
    refine ⟨first, rest, rfl, ?_⟩
    by_contra other
    have failed := primary_other (Bool.eq_false_iff.mpr other) inner s rest
    rw [State.facing_eq ahead, run] at failed
    cases failed

namespace Rules.Callee

theorem starts {level : Nat} {s t : State} {e : Expr} (h : (rules level).Callee s e t) :
    ∃ first rest, s.ahead = first :: rest ∧ startsPrimary first.kind = true := by
  induction h with
  | primary run => exact primary_starts run
  | follow _ _ ih => exact ih

theorem depth_eq {level : Nat} {s t : State} {e : Expr} (h : (rules level).Callee s e t) :
    t.depth = s.depth := by
  have inside := rules_bounded level
  induction h with
  | primary run => exact (primary_within inside).depth_eq run
  | @follow e _ _ _ _ run ih => exact ((callOrGet_within inside e).depth_eq run).trans ih

theorem live {level : Nat} {s t : State} {e : Expr} (h : (rules level).Callee s e t)
    (live : s.halted = false) : t.halted = false := by
  have inside := live_congruence.related level
  induction h with
  | primary run =>
    have outcome := live_congruence.primary inside s live
    rw [run] at outcome
    exact outcome.live
  | @follow e _ t _ _ run ih =>
    have outcome := live_congruence.callOrGet inside e t ih
    rw [run] at outcome
    exact outcome.live

/-- The rule of calls goes on from there. -/
theorem call_eq {level : Nat} {s t : State} {e : Expr} (h : (rules level).Callee s e t) :
    call (rules level) s = (rules level).follow e t := by
  induction h with
  | primary run => exact bind_ok _ run
  | @follow e _ _ _ _ run ih =>
    rw [ih, Rules.follow, iterate_eq_bind (callOrGet_advances (rules_sound level)), bind_ok _ run]

end Rules.Callee

/-- What is read alone is read in front of what ends it, too. -/
theorem Item.ReadsAlone.readBy {item : Item Expr} {level depth : Nat}
    (h : item.ReadsAlone (expression (rules level)) depth) (room : maxDepth ≤ depth + level)
    (shallow : depth ≤ maxDepth) : item.ReadBy (expression (rules level)) depth := by
  obtain ⟨stop, run⟩ := h
  obtain ⟨D, tree, read⟩ := (expression_reads (rules_sound level)).reads run ⟨rfl, rfl⟩
  have tokens : item.tokens = D.tokens := read.ahead.trans (List.append_nil _)
  obtain ⟨first, others, begins, starts⟩ := D.begins.exists_cons rfl
  refine ⟨?_, fun s t rest same ends => ?_⟩
  · have start : item.start = first := (List.cons.inj (tokens.trans begins)).1
    intro closes
    rw [← start, closes] at starts
    cases starts
  · have weak : pull (t :: rest) < Grade.expression.rank := by
      simp only [List.mem_cons, List.not_mem_nil, or_false] at ends
      rcases ends with is | is <;> simp [pull, is, strength, Grade.rank]
    have accepted := (complete D).whole read.proper level s (t :: rest) (same ▸ room) weak
    rw [tokens, ← tree]
    exact accepted.fits (same ▸ read.levels shallow)

/-- All arguments go into the node, however many there are. -/
theorem callOrGet_eq_ok {level : Nat} {s : State} (live : s.halted = false)
    (room : maxDepth ≤ s.depth + level) (shallow : s.depth ≤ maxDepth) {items : List (Item Expr)}
    {ts : List Token} (list : Separated items ts)
    (each : ∀ item ∈ items, item.ReadsAlone (expression (rules level)) s.depth) (callee : Expr)
    (opening : Terminal .leftParen) (closing : Terminal .rightParen) (rest : List Token) :
    callOrGet (rules level) callee (s.facing (opening.1 :: (ts ++ closing.1 :: rest))) =
      .ok (some (.call callee closing.1 (items.map Item.value)))
        ((s.reporting (excessErrors .tooManyArguments 0 items)).facing rest) := by
  obtain ⟨found, values, read⟩ := before_commaSeparated .tooManyArguments
    (expression_reads (rules_sound level)) list
    (fun item is => (each item is).readBy room shallow) live rfl shallow closing rest
  unfold callOrGet
  rw [bind_ok _ (accept_true opening.2), if_pos rfl, map_eq_pure_bind, finishCall, bind_assoc,
    bind_ok _ read, bind_assoc, Rule.mark, bind_ok _ (expect_ok _ closing.2), values]
  rfl

/-- An operand with none of the operators behind it is an expression of that level. -/
theorem binary_of_operand {level : Nat} {s t : State} {e : Expr} (grade : Precedence)
    (ends : pull t.ahead = 0) (shallow : t.depth ≤ maxDepth)
    (run : (rules level).expr grade.tighter s = .ok e t) :
    (rules level).expr (.binary grade) s = .ok e t := by
  have weak : pull t.ahead < (Grade.binary grade).rank := by
    rw [ends]
    cases grade <;> decide
  rw [Rules.expr_binary, bind_ok _ run]
  exact (fold_end (s := t) level grade e weak).fits shallow

/-- So is a call an expression by itself. -/
theorem assignment_of_call {level : Nat} {s t : State} {e : Expr} (ends : pull t.ahead = 0)
    (shallow : t.depth ≤ maxDepth)
    (other : ∀ first ∈ s.ahead.head?, first.kind ∉ [TokenKind.bang, .minus])
    (run : call (rules level) s = .ok e t) : assignment (rules level) s = .ok e t := by
  have unary : Parse.unary (rules level) s = .ok e t :=
    (bind_ok _ (take?_none (s := s) other)).trans run
  have factor := binary_of_operand .factor ends shallow unary
  have term := binary_of_operand .term ends shallow factor
  have comparison := binary_of_operand .comparison ends shallow term
  have equality := binary_of_operand .equality ends shallow comparison
  have conjunction := binary_of_operand .conjunction ends shallow equality
  have disjunction : Parse.disjunction (rules level) s = .ok e t :=
    binary_of_operand .disjunction ends shallow conjunction
  have noValue : Rule.take? [.equal] t = .ok none t :=
    take?_none (s := t) (not_mem_of_pull_lt (by rw [ends]; exact Nat.one_pos) (by decide))
  unfold assignment
  rw [bind_ok _ disjunction, bind_ok _ noValue]
  rfl

theorem nested_eq_ok {α : Type} {s t : State} {rule : Rule α} {a : α} (room : s.depth < maxDepth)
    (run : rule s.deeper = .ok a t) : Rule.nested rule s = .ok a { t with depth := s.depth } := by
  rw [nested_eq, if_pos room, run]
  rfl

/-- Where a primary expression is ahead, no other kind of token is. -/
theorem next_not_mem {s : State} {first : Token} {others : List Token}
    (ahead : s.ahead = first :: others) (starts : startsPrimary first.kind = true)
    (kinds : List TokenKind) (none : ∀ kind ∈ kinds, startsPrimary kind = false) :
    ∀ next ∈ s.ahead.head?, next.kind ∉ kinds := by
  intro next is among
  rw [ahead] at is
  cases is
  rw [none _ among] at starts
  cases starts

/-- A call and a semicolon are a statement. -/
theorem statement_of_call {level : Nat} {s t : State} {e : Expr} {first : Token}
    {others rest : List Token} (ahead : s.ahead = first :: others)
    (starts : startsPrimary first.kind = true) (room : s.depth + 2 ≤ maxDepth)
    (semicolon : Terminal .semicolon)
    (run : call (rules level) s.deeper.deeper = .ok e (t.facing (semicolon.1 :: rest)))
    (same : t.depth = s.depth + 2) : statement (rules (level + 2)) s =
    .ok (.expression e) { t with ahead := rest, depth := s.depth } := by
  have value : assignment (rules level) s.deeper.deeper = .ok e (t.facing (semicolon.1 :: rest)) :=
    assignment_of_call (pull_cons semicolon rest) (Nat.le_trans (Nat.le_of_eq same) room)
      (next_not_mem ahead starts _ (by decide)) run
  have inside : expression (rules (level + 1)) s.deeper =
      .ok e (State.facing { t with depth := s.depth + 1 } (semicolon.1 :: rest)) :=
    nested_eq_ok (t := t.facing (semicolon.1 :: rest)) (Nat.lt_of_succ_le room) value
  have facing : s.deeper.facing (first :: others) = s.deeper := State.facing_eq ahead
  have body : statementBody (rules (level + 1)) s.deeper =
      .ok (.expression e) (State.facing { t with depth := s.depth + 1 } rest) := by
    rw [← facing, statementBody_startsExpr _ (startsExpr_of_startsPrimary starts), facing,
      expressionStatement, bind_ok _ inside, Rule.mark, bind_ok _ (expect_ok _ semicolon.2)]
    rfl
  exact nested_eq_ok (t := State.facing { t with depth := s.depth + 1 } rest)
    (Nat.lt_of_succ_lt room) body

theorem declaration_of_call {level : Nat} {s t : State} {e : Expr} {first : Token}
    {others rest : List Token} (ahead : s.ahead = first :: others)
    (starts : startsPrimary first.kind = true) (room : s.depth + 2 ≤ maxDepth)
    (semicolon : Terminal .semicolon)
    (run : call (rules level) s.deeper.deeper = .ok e (t.facing (semicolon.1 :: rest)))
    (same : t.depth = s.depth + 2) : declaration (rules (level + 2)) s =
    (some (.expression e), { t with ahead := rest, depth := s.depth }) := by
  have other (kind : TokenKind) (none : startsPrimary kind = false) :
      Rule.accept kind s = .ok false s := by
    have next := next_not_mem ahead starts [kind] (by simpa using none)
    exact accept_false (s := s) (by simpa using next)
  apply declaration_of_ok
  unfold declarationRule
  rw [bind_ok _ (other .classKw rfl), if_neg Bool.false_ne_true,
    bind_ok _ (other .funKw rfl), if_neg Bool.false_ne_true,
    bind_ok _ (other .varKw rfl), if_neg Bool.false_ne_true]
  exact statement_of_call ahead starts room semicolon run same

theorem Item.name_readBy (depth : Nat) (t : Terminal .identifier) :
    (Item.name t).ReadBy (Rule.name .ofParameter) depth where
  opens closes := by
    have same : TokenKind.identifier = .rightParen := t.2.symm.trans closes
    cases same
  reads _ _ _ _ _ := expect_ok _ t.2

/-- All parameters are those of the function, however many there are, and its body is read behind
them. -/
theorem functionBody_eq {s : State} (live : s.halted = false) (shallow : s.depth ≤ maxDepth)
    {params : List (Terminal .identifier)} {ts : List Token}
    (list : Separated (params.map Item.name) ts) (inner : Rules) (kind : FunctionKind)
    (name : Terminal .identifier) (opening : Terminal .leftParen) (closing : Terminal .rightParen)
    (brace : Terminal .leftBrace) (us : List Token) :
    functionBody inner kind (s.facing (name.1 :: opening.1 :: (ts ++ closing.1 :: brace.1 :: us))) =
      ((fun body => (⟨name.1, params.map Subtype.val, body⟩ : Function)) <$> block inner)
        ((s.reporting (excessErrors .tooManyParameters 0 (params.map Item.name))).facing us) := by
  have each : ∀ item ∈ params.map Item.name, item.ReadBy (Rule.name .ofParameter) s.depth :=
    List.forall_mem_map.mpr fun t _ => Item.name_readBy s.depth t
  have names : (Rule.name .ofParameter).Yields _ := Rule.Yields.expect .identifier _
  obtain ⟨found, values, read⟩ := before_commaSeparated .tooManyParameters names list each live rfl
    shallow closing (brace.1 :: us)
  have all : found.getD [] = params.map Subtype.val := by
    rw [values, List.map_map]
    rfl
  unfold functionBody
  rw [Rule.name, bind_ok _ (expect_ok _ name.2), Rule.mark, bind_ok _ (expect_ok _ opening.2),
    bind_ok _ read, Rule.mark, bind_ok _ (expect_ok _ closing.2), Rule.mark,
    bind_ok _ (expect_ok _ brace.2), all, map_eq_pure_bind]

/-- A function is read whole, where its body is. -/
theorem function_overlong {level : Nat} {s t : State} (live : s.halted = false)
    {ts rest : List Token} (closing : Terminal .rightParen) {params : List (Terminal .identifier)}
    (shallow : s.depth < maxDepth) (kind : FunctionKind) (name : Terminal .identifier)
    (opening : Terminal .leftParen) (brace : Terminal .leftBrace)
    (list : Separated (params.map Item.name) ts) {body : List Stmt}
    (run : block (rules (level + 1)) ((s.deeper.reporting
      (excessErrors .tooManyParameters 0 (params.map Item.name))).facing rest) = .ok body t) :
    function (rules (level + 2)) kind
        (s.facing (name.1 :: opening.1 :: (ts ++ closing.1 :: brace.1 :: rest))) =
      .ok ⟨name.1, params.map Subtype.val, body⟩ { t with depth := s.depth } := by
  refine nested_eq_ok (s := s.facing _) shallow ?_
  have whole := functionBody_eq (s := s.deeper) live shallow list (rules (level + 1)) kind name
    opening closing brace rest
  rw [map_eq_pure_bind, bind_ok _ run] at whole
  exact whole

/-- A call is read whole as a statement, whatever its callee is. -/
theorem declaration_overlong {level : Nat} {s t : State} (live : s.halted = false)
    {ts rest : List Token} (closing : Terminal .rightParen)
    (room : maxDepth ≤ s.depth + (level + 2)) {callee : Expr} {items : List (Item Expr)}
    (opening : Terminal .leftParen) (semicolon : Terminal .semicolon)
    (shallow : s.depth + 2 ≤ maxDepth) (before : (rules level).Callee s.deeper.deeper callee t)
    (ahead : t.ahead = opening.1 :: (ts ++ closing.1 :: semicolon.1 :: rest))
    (list : Separated items ts)
    (each : ∀ item ∈ items, item.ReadsAlone (expression (rules level)) (s.depth + 2)) :
    declaration (rules (level + 2)) s =
      (some (.expression (.call callee closing.1 (items.map Item.value))),
        { t.reporting (excessErrors .tooManyArguments 0 items) with
          ahead := rest, depth := s.depth }) := by
  have same : t.depth = s.depth + 2 := before.depth_eq
  have listed := callOrGet_eq_ok (before.live live) (by omega) (by omega) list
    (same.symm ▸ each) callee opening closing (semicolon.1 :: rest)
  rw [State.facing_eq ahead] at listed
  have last : (rules level).follow (.call callee closing.1 (items.map Item.value))
      ((t.reporting (excessErrors .tooManyArguments 0 items)).facing (semicolon.1 :: rest)) = _ :=
    (follow_end level _ (by rw [pull_cons]; decide)).fits (by show t.depth + 0 ≤ _; omega)
  obtain ⟨first, others, tokens, starts⟩ := before.starts
  refine declaration_of_call tokens starts shallow semicolon ?_ same
  rw [before.call_eq, Rules.follow, iterate_eq_bind (callOrGet_advances (rules_sound level)),
    bind_ok _ listed]
  exact last

/-- Where a call has more than 255 arguments, or a function or a method more than 255 parameters,
the node holds all of them, in order, and each one past the limit was reported at its first token.
The arguments are what parses without an error by itself; of the callee and the body nothing is
asked but that they are read. -/
theorem overlong_reported {level : Nat} {s : State} (live : s.halted = false) {ts : List Token}
    (closing : Terminal .rightParen) (room : maxDepth ≤ s.depth + (level + 2)) :
    (∀ (callee : Expr) (t : State) (items : List (Item Expr)) (rest : List Token)
        (opening : Terminal .leftParen) (semicolon : Terminal .semicolon),
      s.depth + 2 ≤ maxDepth → (rules level).Callee s.deeper.deeper callee t →
      t.ahead = opening.1 :: (ts ++ closing.1 :: semicolon.1 :: rest) → Separated items ts →
      (∀ item ∈ items, item.ReadsAlone (expression (rules level)) (s.depth + 2)) →
      ∃ errors, ReportsExcess items "Can't have more than 255 arguments." errors ∧
        declaration (rules (level + 2)) s =
          (some (.expression (.call callee closing.1 (items.map Item.value))),
            { t.reporting errors with ahead := rest, depth := s.depth })) ∧
    ∀ (params : List (Terminal .identifier)) (name : Terminal .identifier) (rest : List Token)
        (opening : Terminal .leftParen) (brace : Terminal .leftBrace),
      s.depth < maxDepth → Separated (params.map Item.name) ts →
      ∃ errors, ReportsExcess (params.map Item.name) "Can't have more than 255 parameters." errors ∧
        ∀ body t, block (rules (level + 1)) ((s.deeper.reporting errors).facing rest) = .ok body t →
          let declared := name.1 :: opening.1 :: (ts ++ closing.1 :: brace.1 :: rest)
          let function : Function := ⟨name.1, params.map Subtype.val, body⟩
          (∀ keyword : Terminal .funKw,
            declaration (rules (level + 2)) (s.facing (keyword.1 :: declared)) =
              (some (.function function), { t with depth := s.depth })) ∧
          (∀ methods, addMethod (rules (level + 2)) methods (s.facing declared) =
            .ok (some (methods.push function)) { t with depth := s.depth }) ∧
          s.errors.toList ++ errors <+: t.errors.toList := by
  refine ⟨fun callee t items rest opening semicolon shallow before ahead list each => ?_,
    fun params name rest opening brace shallow list => ?_⟩
  · exact ⟨_, excessErrors_reports .tooManyArguments items,
      declaration_overlong live closing room opening semicolon shallow before ahead list each⟩
  · refine ⟨_, excessErrors_reports .tooManyParameters _, fun body t run => ⟨?_, ?_, ?_⟩⟩
    · intro keyword
      have read := function_overlong live closing shallow .function name opening brace list run
      apply declaration_of_ok
      unfold declarationRule
      rw [bind_ok _ (accept_false (head_ne keyword (by decide))), if_neg Bool.false_ne_true,
        bind_ok _ (accept_true keyword.2), if_pos rfl, map_eq_pure_bind, bind_ok _ read]
      rfl
    · intro methods
      have read := function_overlong live closing shallow .method name opening brace list run
      have other : name.1.kind ≠ .rightBrace := by rw [name.2]; decide
      rw [addMethod_facing, if_neg other, bind_ok _ read]
      rfl
    · have kept := ((block_orderly (level + 1)).extends_ok run).errors
      simpa [State.reporting, State.facing, State.deeper] using kept

/-- Two arguments too many, and two parameters too many of a function without statements. -/
theorem overlong_reported_twoMore :
    let a : Terminal .identifier := ⟨⟨.identifier, "a", none, 1⟩, rfl⟩
    let opening : Terminal .leftParen := ⟨⟨.leftParen, "(", none, 1⟩, rfl⟩
    let comma : Terminal .comma := ⟨⟨.comma, ",", none, 1⟩, rfl⟩
    let closing : Terminal .rightParen := ⟨⟨.rightParen, ")", none, 1⟩, rfl⟩
    let semicolon : Terminal .semicolon := ⟨⟨.semicolon, ";", none, 1⟩, rfl⟩
    let keyword : Terminal .funKw := ⟨⟨.funKw, "fun", none, 1⟩, rfl⟩
    let brace : Terminal .leftBrace := ⟨⟨.leftBrace, "\x7b", none, 1⟩, rfl⟩
    let last : Token := ⟨.rightBrace, "\x7d", none, 1⟩
    let args := List.replicate 257 (⟨a.1, [], .reference a.1⟩ : Item Expr)
    let params := List.replicate 257 a
    let s (ts : List Token) : State := ⟨ts, .eof 1, 0, false, #[]⟩
    let call := s (a.1 :: opening.1 :: (listed comma args ++ [closing.1, semicolon.1]))
    ((rules 254).Callee call.deeper.deeper (.reference a.1)
        ⟨opening.1 :: (listed comma args ++ [closing.1, semicolon.1]), .eof 1, 2, false, #[]⟩ ∧
      Separated args (listed comma args) ∧
      (∀ item ∈ args, item.ReadsAlone (expression (rules 254)) 2) ∧
      ∃ errors : List ParseError, errors.length = 2 ∧ declaration (rules 256) call =
        (some (.expression (.call (.reference a.1) closing.1 (args.map Item.value))),
          { s [] with errors := errors.toArray })) ∧
    Separated (params.map Item.name) (listed comma (params.map Item.name)) ∧
    ∃ errors : List ParseError, errors.length = 2 ∧
      declaration (rules 256) (s (keyword.1 :: a.1 :: opening.1 ::
          (listed comma (params.map Item.name) ++ [closing.1, brace.1, last]))) =
        (some (.function ⟨a.1, params.map Subtype.val, []⟩),
          { s [] with errors := errors.toArray }) := by
  intro a opening comma closing semicolon keyword brace last args params s call
  have callee : (rules 254).Callee call.deeper.deeper (.reference a.1)
      ⟨opening.1 :: (listed comma args ++ [closing.1, semicolon.1]), .eof 1, 2, false, #[]⟩ :=
    .primary rfl
  have each : ∀ item ∈ args, item.ReadsAlone (expression (rules 254)) 2 := by
    intro item is
    obtain rfl := List.eq_of_mem_replicate is
    exact ⟨.eof 1, rfl⟩
  have list := listed_separated comma args
  have names := listed_separated comma (params.map Item.name)
  refine ⟨⟨callee, list, each, ?_⟩, names, ?_⟩
  · obtain ⟨errors, reports, run⟩ := (@overlong_reported 254 call rfl _ closing (by decide)).1
      _ _ _ [] opening semicolon (by decide) callee rfl list each
    have size : args.length = 257 := List.length_replicate
    refine ⟨errors, by rw [reports.count, size], run.trans ?_⟩
    simp [State.reporting, call, s]
  · obtain ⟨errors, reports, run⟩ := (@overlong_reported 254 (s []) rfl _ closing (by decide)).2
      params a [last] opening brace (by decide) names
    have size : (params.map Item.name).length = 257 :=
      (List.length_map _).trans List.length_replicate
    have body : block (rules 255) ((State.reporting (s []).deeper errors).facing [last]) =
        .ok [] (State.reporting (s []).deeper errors) := rfl
    refine ⟨errors, by rw [reports.count, size], ((run [] _ body).1 keyword).trans ?_⟩
    simp [State.reporting, State.deeper, s]

end LoxSyntax.Parse
