import LoxSyntax.Proofs.Parse.ProgramSoundness

namespace LoxSyntax.Parse

namespace Rule

namespace Consumes

theorem of_map_some {α : Type} {rule : Rule α} (h : Advances (some <$> rule)) : Consumes rule := by
  intro s a s' run
  apply h s a s'
  rw [map_eq_pure_bind, bind_ok _ run]
  rfl

theorem fail {α : Type} (problem : Problem) : Consumes (Rule.fail problem : Rule α) := by
  intro s a s' run
  cases run

/-- It is enough that what follows uses up a token. -/
theorem bind_right {α β : Type} {rule : Rule α} {f : α → Rule β}
    (moves : ∀ s : State, s.Extends (rule.after s)) (hf : ∀ a, Consumes (f a)) :
    Consumes (rule >>= f) := by
  intro s b s'' both
  obtain ⟨a, s', run, run'⟩ := exists_of_bind_ok both
  have moved := moves s
  rw [after_ok run] at moved
  have first := moved.ahead.length_le
  have second := hf a s' b s'' run'
  omega

theorem bind_accept {β : Type} {kind : TokenKind} {f : Bool → Rule β} {P : State → β → State → Prop}
    (htrue : (f true).Yields P) (hfalse : Consumes (f false)) :
    Consumes (Rule.accept kind >>= f) := by
  apply of_map_some
  rw [map_bind]
  exact Advances.bind_accept (htrue.map some).moves (Advances.map_some id hfalse)

end Consumes

/-- In front of this token, a result comes only with a token used up. -/
def ConsumesAt {α : Type} (t : Token) (rule : Rule α) : Prop :=
  ∀ (s : State) (a : α) (s' : State), s.ahead.head? = some t → rule s = .ok a s' →
    s'.ahead.length < s.ahead.length

theorem ConsumesAt.skip_bind {α : Type} {rule : Rule α} {P : State → α → State → Prop}
    (h : rule.Yields P) (t : Token) : ConsumesAt t (Rule.skip >>= fun _ => rule) := by
  intro s a s' next run
  have skipped : Rule.skip s = .ok () { s with ahead := s.ahead.tail } := rfl
  have moved := h.moves { s with ahead := s.ahead.tail }
  rw [bind_ok _ skipped] at run
  rw [after_ok run] at moved
  have behind : s'.ahead.length ≤ s.ahead.tail.length := moved.ahead.length_le
  obtain ⟨rest, ahead⟩ := List.head?_eq_some_iff.mp next
  rw [ahead] at behind ⊢
  exact Nat.lt_succ_of_le behind

theorem Consumes.at {α : Type} {rule : Rule α} (h : Consumes rule) (t : Token) :
    ConsumesAt t rule :=
  fun s a s' _ run => h s a s' run

theorem Consumes.bind_peek? {β : Type} {f : Option Token → Rule β} (hnone : Consumes (f none))
    (hsome : ∀ t, ConsumesAt t (f (some t))) : Consumes (Rule.peek? >>= f) := by
  intro s b s' run
  cases next : s.ahead.head? with
  | none =>
    have peeked : Rule.peek? s = .ok none s := by rw [Rule.peek?, next]
    rw [bind_ok _ peeked] at run
    exact hnone s b s' run
  | some t =>
    have peeked : Rule.peek? s = .ok (some t) s := by rw [Rule.peek?, next]
    rw [bind_ok _ peeked] at run
    exact hsome t s b s' next run

end Rule

open Rule (Consumes ConsumesAt)

theorem expressionStatement_consumes {inner : Rules} (hi : inner.Sound) :
    Consumes (expressionStatement inner) := by
  refine Consumes.bind_right (expression_reads hi).moves fun value => ?_
  exact (Consumes.expect .semicolon _).bind fun _ s => State.Extends.refl s

theorem statementBody_consumes {inner : Rules} (hi : inner.Sound) :
    Consumes (statementBody inner) := by
  have byExpression := expressionStatement_consumes hi
  refine Consumes.bind_peek? byExpression fun t => ?_
  dsimp only
  split
  case h_1 is => exact ConsumesAt.skip_bind (forStatement_reads hi ⟨t, is⟩) t
  case h_2 is => exact ConsumesAt.skip_bind (ifStatement_reads hi ⟨t, is⟩) t
  case h_3 is => exact ConsumesAt.skip_bind (printStatement_reads hi ⟨t, is⟩) t
  case h_4 is => exact ConsumesAt.skip_bind (returnStatement_reads hi ⟨t, is⟩) t
  case h_5 is => exact ConsumesAt.skip_bind (whileStatement_reads hi ⟨t, is⟩) t
  case h_6 is =>
    exact ConsumesAt.skip_bind ((block_reads (declarationRule_reads hi)).map Stmt.block) t
  case h_7 => exact byExpression.at t

theorem declarationRule_consumes {inner : Rules} (hi : inner.Sound)
    (statements : Consumes inner.statement) : Consumes (declarationRule inner) := by
  refine Consumes.bind_accept (classDeclaration_reads hi) ?_
  refine Consumes.bind_accept ((function_reads hi .function).map Stmt.function) ?_
  exact Consumes.bind_accept (varDeclaration_reads hi) statements.nested

theorem rules_statement_consumes (level : Nat) : Consumes (rules level).statement := by
  cases level with
  | zero => exact Consumes.fail .tooDeep
  | succ level => exact statementBody_consumes (rules_sound level)

/-- Recovery uses up a token, if there is one left. -/
theorem State.length_recover (s : State) (e : ParseError) :
    (s.recover e).ahead.length ≤ s.ahead.length - 1 := by
  unfold State.recover
  dsimp only
  split
  · exact Nat.zero_le _
  · rw [State.ahead_record]
    cases s.ahead with
    | nil => exact Nat.le_refl _
    | cons t rest => exact length_synchronize_cons t rest

/-- A declaration uses up a token, however it ends. -/
theorem declaration_advances (level : Nat) (s : State) (h : s.ahead ≠ []) :
    (declaration (rules level) s).2.ahead.length < s.ahead.length := by
  have sound := rules_sound level
  have moved := (declarationRule_reads sound).moves s
  have some := List.length_pos_iff.mpr h
  unfold declaration
  cases run : declarationRule (rules level) s with
  | ok a s' =>
    rw [recovering_ok run]
    exact declarationRule_consumes sound (rules_statement_consumes level) s a s' run
  | error e s' =>
    rw [Rule.after_error run] at moved
    rw [recovering_error run]
    have reached := moved.ahead.length_le
    exact Nat.lt_of_le_of_lt (s'.length_recover e) (by omega)

/-- Any bound on the declarations is as good as another that covers the tokens ahead. -/
theorem declarations_bound (level : Nat) (closes : TokenKind → Bool) (bound bound' : List Token)
    (s : State) (covers : s.ahead.length ≤ bound.length) (covers' : s.ahead.length ≤ bound'.length) :
    declarations (rules level) closes bound s = declarations (rules level) closes bound' s := by
  induction bound generalizing bound' s with
  | nil =>
    have done : s.ahead = [] := List.eq_nil_of_length_eq_zero (by simpa using covers)
    rw [declarations_nil _ _ _ _ done, declarations_nil _ _ _ _ done]
  | cons b bound ih =>
    obtain ends | ⟨t, next, stays⟩ := ends_or_next closes s
    · rw [declarations_of_ends _ _ ends, declarations_of_ends _ _ ends]
    · obtain ⟨rest, ahead⟩ := List.head?_eq_some_iff.mp next
      have shorter := declaration_advances level s (by simp [ahead])
      cases bound' with
      | nil => simp [ahead] at covers'
      | cons b' bound' =>
        rw [List.length_cons] at covers covers'
        have same := ih bound' (declaration (rules level) s).2 (by omega) (by omega)
        rw [declarations_cons _ b bound next stays, declarations_cons _ b' bound' next stays, same]

end LoxSyntax.Parse
