import LoxSyntax.Parse.Statement
import LoxSyntax.Proofs.Parse.Rule

namespace LoxSyntax.Parse

theorem recovering_ok {α : Type} {rule : Rule α} {s s' : State} {a : α} (run : rule s = .ok a s') :
    recovering rule s = (some a, s') := by
  simp only [recovering, run]

theorem recovering_error {α : Type} {rule : Rule α} {s s' : State} {e : ParseError}
    (run : rule s = .error e s') : recovering rule s = (none, s'.recover e) := by
  simp only [recovering, run]

/-- What holds across a rule, and across the recovery from what it fails with, holds across both. -/
theorem recovering_related {α : Type} {rule : Rule α} {R : State → State → Prop}
    (trans : ∀ {s s' s''}, R s s' → R s' s'' → R s s'') (moves : ∀ s, R s (rule.after s))
    (recovers : ∀ {s e s'}, rule s = .error e s' → R s' (s'.recover e)) (s : State) :
    R s (recovering rule s).2 := by
  have moved := moves s
  cases run : rule s with
  | ok a s' =>
    rw [Rule.after_ok run] at moved
    rwa [recovering_ok run]
  | error e s' =>
    rw [Rule.after_error run] at moved
    rw [recovering_error run]
    exact trans moved (recovers run)

/-- A rule that is recovered from where it fails, and so never fails itself. -/
def Rule.attempt {α : Type} (rule : Rule α) : Rule (Option α) := fun s =>
  .ok (recovering rule s).1 (recovering rule s).2

/-- The next token closes the declarations, or one more of them starts with it. -/
theorem ends_or_next (closes : TokenKind → Bool) (s : State) :
    (∀ t ∈ s.ahead.head?, closes t.kind = true) ∨
      ∃ t, s.ahead.head? = some t ∧ closes t.kind = false := by
  cases s.ahead.head? with
  | none => exact .inl nofun
  | some t =>
    cases closing : closes t.kind with
    | true => exact .inl (by simpa using closing)
    | false => exact .inr ⟨t, rfl, closing⟩

/-- Nothing is read in front of what closes the declarations, or where no token is left. -/
theorem declarations_of_ends {closes : TokenKind → Bool} {s : State} (inner : Rules)
    (bound : List Token) (ends : ∀ t ∈ s.ahead.head?, closes t.kind = true) :
    declarations inner closes bound s = ([], s) := by
  cases bound with
  | nil => rfl
  | cons _ bound =>
    cases ahead : s.ahead with
    | nil => simp only [declarations, ahead]
    | cons t rest =>
      have closing := ends t (by rw [ahead]; rfl)
      simp only [declarations, ahead, closing, if_true]

theorem declarations_nil (inner : Rules) (closes : TokenKind → Bool) (bound : List Token) (s : State)
    (done : s.ahead = []) : declarations inner closes bound s = ([], s) :=
  declarations_of_ends inner bound (by simp [done])

/-- In front of any other token one more is read, and then the others. -/
theorem declarations_cons {closes : TokenKind → Bool} {s : State} (inner : Rules) (b : Token)
    (bound : List Token) {t : Token} (next : s.ahead.head? = some t)
    (stays : closes t.kind = false) :
    declarations inner closes (b :: bound) s =
      ((declaration inner s).1.toList ++
          (declarations inner closes bound (declaration inner s).2).1,
        (declarations inner closes bound (declaration inner s).2).2) := by
  obtain ⟨rest, ahead⟩ := List.head?_eq_some_iff.mp next
  simp only [declarations, ahead, stays, Bool.false_eq_true, if_false]

/-- What holds across a declaration, and of two steps if it holds of both, holds across all of
them. -/
theorem declarations_related {inner : Rules} {R : State → State → Prop} (refl : ∀ s, R s s)
    (trans : ∀ {s s' s''}, R s s' → R s' s'' → R s s'') (each : ∀ s, R s (declaration inner s).2)
    (closes : TokenKind → Bool) (bound : List Token) (s : State) :
    R s (declarations inner closes bound s).2 := by
  induction bound generalizing s with
  | nil => exact refl s
  | cons b bound ih =>
    obtain ends | ⟨t, next, stays⟩ := ends_or_next closes s
    · rw [declarations_of_ends inner _ ends]
      exact refl s
    · rw [declarations_cons inner b bound next stays]
      exact trans (each s) (ih _)

/-- The declarations of a list, as a rule. -/
def reading (inner : Rules) (closes : TokenKind → Bool) (bound : List Token) : Rule (List Stmt) :=
  fun s => .ok (declarations inner closes bound s).1 (declarations inner closes bound s).2

theorem reading_cons (inner : Rules) (closes : TokenKind → Bool) (b : Token) (bound : List Token) :
    reading inner closes (b :: bound) = (do
      let some t ← Rule.peek? | return []
      if closes t.kind then return []
      else
        let first ← Rule.attempt (declarationRule inner)
        return first.toList ++ (← reading inner closes bound)) := by
  funext s
  have peeked : Rule.peek? s = .ok s.ahead.head? s := rfl
  rw [Rule.bind_ok _ peeked]
  unfold reading
  obtain ends | ⟨t, next, stays⟩ := ends_or_next closes s
  · rw [declarations_of_ends inner _ ends]
    cases next : s.ahead.head? with
    | none => rfl
    | some t =>
      simp only [ends t next, if_true]
      rfl
  · rw [declarations_cons inner b bound next stays, next]
    simp only [stays, Bool.false_eq_true, if_false]
    rfl

theorem blockBody_eq (inner : Rules) (s : State) :
    blockBody inner s = .ok (declarations inner (· == .rightBrace) s.ahead s).1
      (declarations inner (· == .rightBrace) s.ahead s).2 := rfl

/-- Only a missing brace fails a block. -/
theorem block_eq (inner : Rules) (s : State) :
    block inner s = (Rule.mark .rightBrace .afterBlock >>= fun _ =>
      (pure (declarations inner (· == .rightBrace) s.ahead s).1 : Rule (List Stmt)))
        (declarations inner (· == .rightBrace) s.ahead s).2 :=
  Rule.bind_ok _ (blockBody_eq inner s)

end LoxSyntax.Parse
