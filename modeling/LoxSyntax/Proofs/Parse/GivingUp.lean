import LoxSyntax.Proofs.Parse.ProgramCompleteness
import LoxSyntax.Proofs.Parse.Termination

namespace LoxSyntax

namespace Parse

/-- Errors were recorded behind those before, and none of them for the nesting. -/
def Shallow (before after : Array ParseError) : Prop :=
  ∃ new, after.toList = before.toList ++ new ∧ ∀ e ∈ new, e.problem ≠ .tooDeep

theorem Shallow.refl (errors : Array ParseError) : Shallow errors errors :=
  ⟨[], by simp, List.forall_mem_nil _⟩

theorem Shallow.trans {first second third : Array ParseError} (h : Shallow first second)
    (h' : Shallow second third) : Shallow first third := by
  obtain ⟨new, whole, others⟩ := h
  obtain ⟨new', whole', others'⟩ := h'
  exact ⟨new ++ new', by rw [whole', whole, List.append_assoc],
    List.forall_mem_append.mpr ⟨others, others'⟩⟩

namespace State

/-- The parse is not given up, and no error was recorded that would be a reason to. -/
structure GoesOn (s s' : State) : Prop where
  live : s'.halted = false
  errors : Shallow s.errors s'.errors

/-- On the way from the one state to the other, the parse was given up. -/
def GivesUp (s s' : State) : Prop := ∃ errors, Shallow s.errors errors ∧ s'.GivenUp errors

theorem GoesOn.refl {s : State} (live : s.halted = false) : s.GoesOn s := ⟨live, .refl _⟩

theorem GoesOn.trans {s s' s'' : State} (h : s.GoesOn s') (h' : s'.GoesOn s'') : s.GoesOn s'' :=
  ⟨h'.live, h.errors.trans h'.errors⟩

theorem GoesOn.givesUp {s s' s'' : State} (h : s.GoesOn s') (h' : s'.GivesUp s'') :
    s.GivesUp s'' := by
  obtain ⟨errors, others, given⟩ := h'
  exact ⟨errors, h.errors.trans others, given⟩

theorem GoesOn.record {s : State} (live : s.halted = false) {e : ParseError}
    (other : e.problem ≠ .tooDeep) : s.GoesOn (s.record e) := by
  refine ⟨by rwa [State.halted_record], [e], ?_, by simpa using other⟩
  rw [State.errors_record e live]
  simp

theorem GivesUp.ahead {s s' : State} (h : s.GivesUp s') : s'.ahead = [] := by
  obtain ⟨errors, -, given⟩ := h
  exact given.ahead

/-- One error decides whether the parse goes on behind a failure. -/
theorem GoesOn.recover {s s' : State} (h : s.GoesOn s') (e : ParseError) :
    s.GoesOn (s'.recover e) ∨ s.GivesUp (s'.recover e) := by
  by_cases deep : e.problem = .tooDeep
  · refine .inr ⟨s'.errors, h.errors, ?_⟩
    obtain ⟨t, problem⟩ := e
    cases deep
    simp only [State.recover, State.record, h.live, Bool.false_eq_true, if_false, if_true]
    exact ⟨rfl, rfl, t, rfl⟩
  · have recorded := GoesOn.record h.live deep
    refine .inl (h.trans ?_)
    simp only [State.recover, deep, if_false]
    exact ⟨recorded.live, recorded.errors⟩

end State

/-- A result leaves the parse going on; behind a failure it may have been given up. -/
def State.Leads {α : Type} (s : State) : EStateM.Result ParseError State α → Prop
  | .ok _ s' => s.GoesOn s'
  | .error _ s' => s.GoesOn s' ∨ s.GivesUp s'

/-- Where the parse is given up, the rule fails. -/
def Rule.Live {α : Type} (rule : Rule α) : Prop := ∀ s : State, s.halted = false → s.Leads (rule s)

theorem State.GoesOn.leads {α : Type} {s s' : State} (h : s.GoesOn s')
    {r : EStateM.Result ParseError State α} (h' : s'.Leads r) : s.Leads r := by
  cases r with
  | ok a t => exact h.trans h'
  | error e t => exact h'.imp h.trans h.givesUp

theorem Rule.Live.bind {α β : Type} {rule : Rule α} {f : α → Rule β} (h : rule.Live)
    (hf : ∀ a, (f a).Live) : (rule >>= f).Live := by
  intro s live
  have first := h s live
  cases run : rule s with
  | error e s' =>
    rw [run] at first
    rw [Rule.bind_error f run]
    exact first
  | ok a s' =>
    rw [run] at first
    rw [Rule.bind_ok f run]
    exact first.leads (hf a s' first.live)

theorem live_stepwise : Rule.Stepwise fun _ rule _ => rule.Live :=
  Rule.Sequential.stepwise {
    pure := fun _ _ live => .refl live
    bind := .bind
    fail := fun _ _ live => .inl (.refl live)
    look := fun _ _ _ live => ⟨live, .refl _⟩ }

/-- What is recovered from leaves no result, and a parse that was given up stays so. -/
theorem recovering_live {α : Type} {rule : Rule α} {s : State} (h : rule.Live)
    (live : s.halted = false) :
    s.GoesOn (recovering rule s).2 ∨
      (recovering rule s).1 = none ∧ s.GivesUp (recovering rule s).2 := by
  have outcome := h s live
  cases run : rule s with
  | ok a s' =>
    rw [run] at outcome
    rw [recovering_ok run]
    exact .inl outcome
  | error e s' =>
    rw [run] at outcome
    rw [recovering_error run]
    rcases outcome with on | ⟨errors, others, given⟩
    · exact (on.recover e).imp_right fun up => ⟨rfl, up⟩
    · exact .inr ⟨rfl, errors, others, given.recover e⟩

/-- Declarations are read as long as the parse goes on. The one in which it is given up is the last,
and it leaves no statement. -/
theorem declarations_live {inner : Rules} (h : (declarationRule inner).Live)
    (closes : TokenKind → Bool) (bound : List Token) (s : State) (live : s.halted = false) :
    s.GoesOn (declarations inner closes bound s).2 ∨
      ∃ t n, Declared inner closes s (declarations inner closes bound s).1 t n ∧ t.ahead ≠ [] ∧
        s.GoesOn t ∧ (declaration inner t).1 = none ∧
        t.GivesUp (declarations inner closes bound s).2 ∧
        (declarations inner closes bound s).2 = (declaration inner t).2 := by
  induction bound generalizing s with
  | nil => exact .inl (.refl live)
  | cons b bound ih =>
    obtain ends | ⟨t, next, stays⟩ := ends_or_next closes s
    · rw [declarations_of_ends _ _ ends]
      exact .inl (.refl live)
    · have first : s.GoesOn (declaration inner s).2 ∨
          (declaration inner s).1 = none ∧ s.GivesUp (declaration inner s).2 :=
        recovering_live h live
      rw [declarations_cons inner b bound next stays]
      rcases first with on | ⟨none, up⟩
      · refine (ih (declaration inner s).2 on.live).imp on.trans ?_
        rintro ⟨u, n, rounds, more, onward, none, up, last⟩
        exact ⟨u, n + 1, .next next stays rounds, more, on.trans onward, none, up, last⟩
      -- No token is left, so the loop ends with this declaration.
      · have done := declarations_nil inner closes bound _ up.ahead
        have more : s.ahead ≠ [] := by
          intro empty
          simp [empty] at next
        refine .inr ⟨s, 0, ?_, more, .refl live, none, ?_, ?_⟩
        · rw [none, done]
          exact .stay s
        · rw [done]
          exact up
        · rw [done]

/-- A block in which the parse was given up misses its closing brace. -/
theorem block_live {inner : Rules} (h : (declarationRule inner).Live) : (block inner).Live := by
  intro s live
  rw [block_eq]
  rcases declarations_live h (· == .rightBrace) s.ahead s live with
    on | ⟨t, n, -, -, on, -, up, -⟩
  · have mark : (Rule.mark .rightBrace .afterBlock).Live := live_stepwise.expect _ nofun
    have rest (body : List Stmt) : (Rule.mark .rightBrace .afterBlock >>= fun _ => pure body).Live :=
      mark.bind fun _ => live_stepwise.pure body
    exact on.leads (rest _ _ on.live)
  -- The loop gave a result, but no token is left, and so no brace.
  · have missing : Rule.mark .rightBrace .afterBlock _ = .error _ _ :=
      Rule.expect_nil .rightBrace (.noMark .rightBrace .afterBlock) up.ahead
    rw [Rule.bind_error _ missing]
    exact .inr (on.givesUp up)

theorem live_congruence : Rule.Congruence fun _ rule _ => rule.Live where
  toStepwise := live_stepwise
  note _ _ _ other _ live := .record live other
  descend s live := by
    by_cases room : s.depth < maxDepth
    · rw [Rule.descend_ok room]
      exact ⟨live, .refl _⟩
    · rw [Rule.descend_error room]
      exact .inl (.refl live)
  keepingDepth {_ rule _} inside s live := by
    have outcome := inside s live
    cases run : rule s with
    | ok a s' =>
      rw [run] at outcome
      rw [Rule.keepingDepth_ok run]
      exact ⟨outcome.live, outcome.errors⟩
    | error e s' =>
      rw [run] at outcome
      rw [Rule.keepingDepth_error run]
      exact outcome.imp (fun on => ⟨on.live, on.errors⟩) fun ⟨errors, others, given⟩ =>
        ⟨errors, others, given.halted, given.ahead, given.reported⟩
  bounded _ _ each s live := each s.ahead s live
  block _ _ := block_live

theorem declarationRule_live (level : Nat) : (declarationRule (rules level)).Live :=
  live_congruence.declarationRule (live_congruence.related level)

/-- Behind so many declarations, which leave all the statements there are, the parse is given up in
the one that starts in this state. It leaves no statement, no token to read, and all the errors. -/
structure State.GivenUpFrom (tokens : List Token) (s : State) (n : Nat) : Prop where
  declared : Declared (rules maxDepth) (fun _ => false) (State.start tokens)
    (parse tokens).statements s n
  more : s.ahead ≠ []
  shallow : ∀ e ∈ s.errors.toList, e.problem ≠ .tooDeep
  statement : (declaration (rules maxDepth) s).1 = none
  ahead : (declaration (rules maxDepth) s).2.ahead = []
  errors : (declaration (rules maxDepth) s).2.errors.toList = (parse tokens).errors

/-- Either no error is for the nesting, or the last one is, and the parse was given up for it. -/
theorem parse_givesUp (tokens : List Token) :
    (∀ e ∈ (parse tokens).errors, e.problem ≠ .tooDeep) ∨
      ∃ (before : List ParseError) (last : ParseError) (s : State) (n : Nat),
        (parse tokens).errors = before ++ [last] ∧ (∀ e ∈ before, e.problem ≠ .tooDeep) ∧
        last.problem = .tooDeep ∧ s.GivenUpFrom tokens n := by
  have run := declarations_live (declarationRule_live maxDepth) (fun _ => false)
    (State.start tokens).ahead (State.start tokens) rfl
  rcases run with on | ⟨s, n, rounds, more, on, none, up, last⟩
  · obtain ⟨new, whole, others⟩ := on.errors
    have recorded : (parse tokens).errors = new := whole
    exact .inl (recorded ▸ others)
  · obtain ⟨first, recorded, shallow⟩ := on.errors
    have before : s.errors.toList = first := recorded
    have nothing := up.ahead
    obtain ⟨errors, ⟨second, recorded', shallow'⟩, given⟩ := up
    obtain ⟨t, reported⟩ := given.reported
    have whole : (parse tokens).errors = (errors.push ⟨t, .tooDeep⟩).toList :=
      congrArg Array.toList reported
    rw [Array.toList_push, recorded', before] at whole
    exact .inr ⟨first ++ second, ⟨t, .tooDeep⟩, s, n, whole,
      List.forall_mem_append.mpr ⟨shallow, shallow'⟩, rfl,
      ⟨rounds, more, before ▸ shallow, none, last ▸ nothing, last ▸ rfl⟩⟩

end Parse

open Parse

/-- The error for the nesting ends the parse. It is recorded once at most, and nothing behind it.
The declaration in which that happens leaves no statement, and no other follows, as no token is
left; the statements are those declared in front of it. -/
theorem parse_tooDeep (tokens : List Token) :
    (parse tokens).errors.countP (·.problem = .tooDeep) ≤ 1 ∧
    ∀ e ∈ (parse tokens).errors, e.problem = .tooDeep →
      (parse tokens).errors.getLast? = some e ∧ ∃ (s : State) (n : Nat), s.GivenUpFrom tokens n := by
  rcases parse_givesUp tokens with shallow | ⟨before, last, s, n, whole, shallow, deep, given⟩
  · refine ⟨?_, fun e among deep => absurd deep (shallow e among)⟩
    rw [List.countP_eq_zero.mpr (by simpa using shallow)]
    exact Nat.zero_le 1
  · have none : before.countP (·.problem = .tooDeep) = 0 :=
      List.countP_eq_zero.mpr (by simpa using shallow)
    refine ⟨?_, fun e among is => ⟨?_, s, n, given⟩⟩
    · rw [whole, List.countP_append, none]
      simp [deep]
    · rw [whole] at among ⊢
      rcases List.mem_append.mp among with inside | atEnd
      · exact absurd is (shallow e inside)
      · rw [List.getLast?_concat, List.mem_singleton.mp atEnd]

/-- `a;` and behind it more parentheses than may nest, none of them closed. -/
def openParentheses : List Token :=
  ⟨.identifier, "a", none, 1⟩ :: ⟨.semicolon, ";", none, 1⟩ ::
    List.replicate 300 ⟨.leftParen, "(", none, 1⟩

theorem parse_tooDeep_openParentheses :
    ⟨⟨.leftParen, "(", none, 1⟩, .tooDeep⟩ ∈ (parse openParentheses).errors ∧
      (parse openParentheses).statements.length = 1 ∧
      (parse openParentheses).errors.getLast? = some ⟨⟨.leftParen, "(", none, 1⟩, .tooDeep⟩ := by
  have reported : ⟨⟨.leftParen, "(", none, 1⟩, .tooDeep⟩ ∈ (parse openParentheses).errors := by
    decide +kernel
  have last := ((parse_tooDeep openParentheses).2 _ reported rfl).1
  exact ⟨reported, by decide +kernel, last⟩

end LoxSyntax
