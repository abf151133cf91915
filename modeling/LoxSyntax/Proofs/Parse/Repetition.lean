import LoxSyntax.Proofs.Parse.Declarations

namespace LoxSyntax.Parse.Rule

/-- A result comes only with a token used up. -/
def Advances {α : Type} (rule : Rule (Option α)) : Prop :=
  ∀ (s : State) (b : α) (s' : State), rule s = .ok (some b) s' → s'.ahead.length < s.ahead.length

namespace Advances

theorem pure_none {α : Type} : Advances (pure none : Rule (Option α)) := by
  intro s b s' h
  cases h

/-- A rule that takes a token, and without one comes to nothing or to a rule that advances. -/
theorem bind_take? {α : Type} {kinds : List TokenKind} {f : Option Token → Rule (Option α)}
    (hsome : ∀ t (s : State), s.Extends ((f (some t)).after s)) (hnone : Advances (f none)) :
    Advances (Rule.take? kinds >>= f) := by
  intro s b s' run
  obtain none | ⟨t, next, -, some⟩ := take?_bind kinds f s
  · exact hnone s b s' (none ▸ run)
  · obtain ⟨rest, ahead⟩ := List.head?_eq_some_iff.mp next
    have skip : Rule.skip s = .ok () { s with ahead := rest } := by
      simp only [Rule.skip, ahead, List.tail_cons]
    rw [some, bind_ok _ skip] at run
    have moved := hsome t { s with ahead := rest }
    rw [after_ok run] at moved
    have shorter : s'.ahead.length ≤ rest.length := moved.ahead.length_le
    rw [ahead]
    exact Nat.lt_succ_of_le shorter

theorem bind_accept {α : Type} {kind : TokenKind} {f : Bool → Rule (Option α)}
    (htrue : ∀ s : State, s.Extends ((f true).after s)) (hfalse : Advances (f false)) :
    Advances (Rule.accept kind >>= f) := by
  have flat : Rule.accept kind >>= f = Rule.take? [kind] >>= fun found => f found.isSome := by
    funext s
    change EStateM.bind (EStateM.bind (Rule.take? [kind]) _) f s =
      EStateM.bind (Rule.take? [kind]) _ s
    unfold EStateM.bind
    cases Rule.take? [kind] s <;> rfl
  rw [flat]
  exact bind_take? (f := fun found => f found.isSome) (fun _ => htrue) hfalse

theorem behind {α : Type} {P : State → α → State → Prop} (kind : TokenKind) {rule : Rule α}
    (h : Yields rule P) : Advances (Rule.behind kind rule) :=
  bind_accept (h.map some).moves pure_none

end Advances

/-- A result comes only with a token used up, whatever the result. -/
def Consumes {α : Type} (rule : Rule α) : Prop :=
  ∀ (s : State) (a : α) (s' : State), rule s = .ok a s' → s'.ahead.length < s.ahead.length

namespace Consumes

theorem expect (kind : TokenKind) (problem : Problem) : Consumes (Rule.expect kind problem) := by
  intro s t s' run
  obtain ⟨found, u, taken, run⟩ := exists_of_bind_ok run
  cases found with
  | none => cases run
  | some t' =>
    cases run
    unfold Rule.take? at taken
    cases ahead : s.ahead with
    | nil => simp [ahead] at taken
    | cons t rest =>
      rw [ahead] at taken
      by_cases among : [kind].contains t.kind
      · simp only [if_pos among] at taken
        cases taken
        exact Nat.lt_succ_self _
      · simp only [if_neg among] at taken
        cases taken

theorem bind {α β : Type} {rule : Rule α} {f : α → Rule β} (h : Consumes rule)
    (hf : ∀ a (s : State), s.Extends ((f a).after s)) : Consumes (rule >>= f) := by
  intro s b s'' both
  obtain ⟨a, s', run, run'⟩ := exists_of_bind_ok both
  have moved := hf a s'
  rw [after_ok run'] at moved
  exact Nat.lt_of_le_of_lt moved.ahead.length_le (h s a s' run)

theorem nested {α : Type} {rule : Rule α} (h : Consumes rule) : Consumes (Rule.nested rule) := by
  intro s a s' run
  obtain ⟨-, t, inner, rfl⟩ := nested_eq_ok run
  exact h { s with depth := s.depth + 1 } a t inner

end Consumes

namespace Advances

theorem bind_peek? {α : Type} {f : Option Token → Rule (Option α)}
    (h : ∀ found, Advances (f found)) : Advances (Rule.peek? >>= f) :=
  fun s b s' run => h s.ahead.head? s b s' run

theorem map_some {α β : Type} {rule : Rule α} (g : α → β) (h : Consumes rule) :
    Advances ((fun a => some (g a)) <$> rule) := by
  intro s b s' run
  obtain ⟨a, inner, -⟩ := exists_of_map_ok run
  exact h s a s' inner

end Advances

theorem rounds_nil {α : Type} {step : α → Rule (Option α)} (a : α) :
    rounds step [] a = step a >>= fun found => pure (found.getD a) := by
  rw [rounds]

theorem rounds_cons {α : Type} {step : α → Rule (Option α)} (t : Token) (bound : List Token)
    (a : α) :
    rounds step (t :: bound) a = step a >>= fun found => match found with
      | some b => rounds step bound b
      | none => pure a := by
  rw [rounds]
  congr 1
  funext found
  cases found <;> rfl

/-- Where no token is ahead, a repetition does nothing. -/
theorem done_of_advances {α : Type} {step : α → Rule (Option α)} {a b : α} {s s' : State}
    (h : Advances (step a)) (done : s.ahead = []) : step a s ≠ .ok (some b) s' := by
  intro run
  have shorter := h s b s' run
  simp [done] at shorter

/-- Any bound is as good as another that covers the tokens ahead. -/
theorem rounds_bound {α : Type} {step : α → Rule (Option α)} (h : ∀ a, Advances (step a))
    (bound bound' : List Token) (a : α) (s : State) (covers : s.ahead.length ≤ bound.length)
    (covers' : s.ahead.length ≤ bound'.length) :
    rounds step bound a s = rounds step bound' a s := by
  induction bound generalizing bound' a s with
  | nil =>
    have done : s.ahead = [] := List.eq_nil_of_length_eq_zero (by simpa using covers)
    cases bound' with
    | nil => rfl
    | cons t bound' =>
      rw [rounds_nil, rounds_cons]
      refine bind_congr_at fun found s' run => ?_
      cases found with
      | none => rfl
      | some b => exact absurd run (done_of_advances (h a) done)
  | cons t bound ih =>
    cases bound' with
    | nil =>
      have done : s.ahead = [] := List.eq_nil_of_length_eq_zero (by simpa using covers')
      rw [rounds_nil, rounds_cons]
      refine bind_congr_at fun found s' run => ?_
      cases found with
      | none => rfl
      | some b => exact absurd run (done_of_advances (h a) done)
    | cons t' bound' =>
      rw [rounds_cons, rounds_cons]
      refine bind_congr_at fun found s' run => ?_
      cases found with
      | none => rfl
      | some b =>
        have shorter := h a s b s' run
        simp only [List.length_cons] at covers covers'
        exact ih bound' b s' (by omega) (by omega)

/-- A repetition ends where a step gives nothing. -/
theorem iterate_eq_bind {α : Type} {step : α → Rule (Option α)} (h : ∀ a, Advances (step a))
    (a : α) :
    iterate step a = step a >>= fun found => match found with
      | some b => iterate step b
      | none => pure a := by
  funext s
  -- One token more in the bound leaves room for the first round.
  have covers : s.ahead.length ≤ (s.stop :: s.ahead).length := by simp
  unfold iterate
  rw [rounds_bound h s.ahead (s.stop :: s.ahead) a s (Nat.le_refl _) covers, rounds_cons]
  refine bind_congr_at fun found s' run => ?_
  cases found with
  | none => rfl
  | some b =>
    have shorter := h a s b s' run
    exact rounds_bound h s.ahead s'.ahead b s' (by omega) (Nat.le_refl _)

theorem iterate_eq {α : Type} {step : α → Rule (Option α)} (h : ∀ a, Advances (step a)) (a : α)
    (s : State) :
    iterate step a s = match step a s with
      | .ok (some b) s' => iterate step b s'
      | .ok none s' => .ok a s'
      | .error e s' => .error e s' := by
  rw [iterate_eq_bind h]
  cases run : step a s with
  | error e s' => rw [bind_error _ run]
  | ok found s' =>
    rw [bind_ok _ run]
    cases found <;> rfl

/-- A repetition of steps that do the same to what stands for other results. -/
theorem iterate_map {α β : Type} {step : α → Rule (Option α)} {step' : β → Rule (Option β)}
    (g : α → β) (each : ∀ a, step' (g a) = Option.map g <$> step a) (a : α) :
    iterate step' (g a) = g <$> iterate step a := by
  have bounded (bound : List Token) (a : α) :
      rounds step' bound (g a) = g <$> rounds step bound a := by
    induction bound generalizing a with
    | nil =>
      simp only [rounds, each, map_eq_pure_bind, bind_assoc, pure_bind]
      congr 1
      funext found
      cases found <;> rfl
    | cons _ bound ih =>
      simp only [rounds, each, map_eq_pure_bind, bind_assoc, pure_bind]
      congr 1
      funext found
      cases found with
      | none => rfl
      | some b => simp only [Option.map_some, ih, map_eq_pure_bind]
  funext s
  exact congrFun (bounded s.ahead a) s

theorem iterate_moves {α : Type} {step : α → Rule (Option α)}
    (h : ∀ a (s : State), s.Extends ((step a).after s)) (advances : ∀ a, Advances (step a)) (a : α)
    (s : State) : s.Extends ((iterate step a).after s) := by
  induction length : s.ahead.length using Nat.strongRecOn generalizing a s with
  | ind n ih =>
    have first := h a s
    unfold after
    rw [iterate_eq advances]
    cases run : step a s with
    | error e s' => simpa only [after_error run] using first
    | ok found s' =>
      rw [after_ok run] at first
      cases found with
      | none => exact first
      | some b => exact first.trans (ih _ (length ▸ advances a s b s' run) b s' rfl)

namespace Yields

/-- What holds at the start of a repetition and is kept by its steps holds at the end, where a step
gave nothing. -/
theorem iterate {α : Type} {step : α → Rule (Option α)} {S : α → State → Option α → State → Prop}
    (a : α) (h : ∀ a, Yields (step a) (S a)) (advances : ∀ a, Advances (step a)) :
    Yields (Rule.iterate step a) (fun s b s' => ∀ I : α → State → Prop, I a s →
      (∀ a s b s', I a s → S a s (some b) s' → I b s') → ∃ t, I b t ∧ S b t none s') where
  moves := iterate_moves (fun a => (h a).moves) advances a
  reads := by
    intro s
    induction length : s.ahead.length using Nat.strongRecOn generalizing a s with
    | ind n ih =>
      intro b s'' run quiet I start keeps
      have first := (h a).moves s
      rw [iterate_eq advances] at run
      cases one : step a s with
      | error e s' => simp [one] at run
      | ok found s' =>
        rw [one] at run
        rw [after_ok one] at first
        cases found with
        | none =>
          cases run
          exact ⟨s, start, (h a).reads one quiet⟩
        | some c =>
          have rest := iterate_moves (fun a => (h a).moves) advances c s'
          replace run : Rule.iterate step c s' = .ok b s'' := run
          rw [after_ok run] at rest
          obtain ⟨q, q'⟩ := quiet.split first rest
          exact ih _ (length ▸ advances a s c s' one) c rfl run q' I
            (keeps a s c s' start ((h a).reads one q)) keeps

/-- Items with commas between them: what holds of the first, and is kept by a comma and one more
item, holds of all of them, and there are not too many. -/
theorem commaSeparated {α : Type} {item : Rule α} {P : State → α → State → Prop} (excess : Problem)
    (h : Yields item P) :
    Yields (Rule.commaSeparated item excess) (fun s all s' => ∀ I : List α → State → Prop,
      (∀ a s', P s a s' → I [a] s') →
      (∀ items s t between a s', I items s → t.kind = .comma → s.ahead = t :: between.ahead →
        between.depth = s.depth → P between a s' → I (items ++ [a]) s') →
      I all s' ∧ all.length ≤ maxArguments) := by
  apply ((addItem excess #[] h).bind fun first =>
    (iterate first (fun items => behind .comma (addItem excess items h))
      (fun items => Advances.behind .comma (addItem excess items h))).map Array.toList).imp
  intro s all s'' h' I one more
  obtain ⟨items, s', ⟨-, a, first, rfl⟩, all, rounds, rfl⟩ := h'
  obtain ⟨t, ⟨holds, few⟩, rfl, -⟩ :=
    rounds (fun items s => I items.toList s ∧ items.size ≤ maxArguments)
    ⟨one a s' first, by simp [maxArguments]⟩ (by
      intro items s all s' kept next
      obtain ⟨holds, -⟩ := kept
      obtain ⟨t, between, is, ahead, depth, room, a, item, rfl⟩ := next
      exact ⟨by simpa using more _ s t between a s' holds is ahead depth item, by simp; omega⟩)
  exact ⟨holds, by simpa using few⟩

end Yields

end LoxSyntax.Parse.Rule

namespace LoxSyntax.Parse

/-- Behind its last branch, an `if` has no further links. -/
theorem iterate_elseLink_closed {inner : Rules} {all : Links}
    (advances : ∀ all, (elseLink inner all).Advances) (closed : all.last.isSome = true) :
    Rule.iterate (elseLink inner) all = pure all := by
  have none : elseLink inner all = pure none := if_pos closed
  rw [Rule.iterate_eq_bind advances, none, pure_bind]

end LoxSyntax.Parse
