import LoxSyntax.Proofs.Parse.Acceptance
import LoxSyntax.Proofs.Parse.Congruence
import LoxSyntax.Proofs.Parse.Level
import LoxSyntax.Proofs.Parse.Progress

namespace LoxSyntax

namespace Parse

/-- From this depth on the rules do the same, and they never come out of it. -/
def Rule.Agree (depth : Nat) : Rule.Relation := fun _ rule rule' =>
  ∀ s : State, depth ≤ s.depth → rule s = rule' s ∧ depth ≤ (rule.after s).depth

open Rule (Agree)

theorem Rule.Agree.bind {α β : Type} {d : Nat} {rule rule' : Rule α} {f f' : α → Rule β}
    (first : Agree d α rule rule') (second : ∀ a, Agree d β (f a) (f' a)) :
    Agree d β (rule >>= f) (rule' >>= f') := by
  intro s deep
  obtain ⟨same, inside⟩ := first s deep
  cases run : rule s with
  | error e s' =>
    rw [Rule.after_error run] at inside
    rw [Rule.after_error (Rule.bind_error f run), Rule.bind_error f run,
      Rule.bind_error f' (same ▸ run)]
    exact ⟨rfl, inside⟩
  | ok a s' =>
    rw [Rule.after_ok run] at inside
    rw [Rule.after_bind f run, Rule.bind_ok f run, Rule.bind_ok f' (same ▸ run)]
    exact second a s' inside

theorem recovering_agree {α : Type} {d : Nat} {rule rule' : Rule α} (h : Agree d α rule rule')
    (s : State) (deep : d ≤ s.depth) :
    recovering rule s = recovering rule' s ∧ d ≤ (recovering rule s).2.depth := by
  obtain ⟨same, inside⟩ := h s deep
  cases run : rule s with
  | ok a s' =>
    rw [Rule.after_ok run] at inside
    rw [recovering_ok run, recovering_ok (same ▸ run)]
    exact ⟨rfl, inside⟩
  | error e s' =>
    rw [Rule.after_error run, ← s'.depth_recover e] at inside
    rw [recovering_error run, recovering_error (same ▸ run)]
    exact ⟨rfl, inside⟩

theorem agree_attempted (d : Nat) : Rule.Attempted (Agree d) where
  toStepwise := Rule.Sequential.stepwise {
    pure := fun _ _ deep => ⟨rfl, deep⟩
    bind := Agree.bind
    fail := fun _ _ deep => ⟨rfl, deep⟩
    look := fun _ _ _ deep => ⟨rfl, deep⟩ }
  bounded _ _ each s deep := each s.ahead s deep
  attempt inside s deep := by
    obtain ⟨same, kept⟩ := recovering_agree inside s deep
    unfold Rule.attempt
    exact ⟨by rw [same], kept⟩

theorem agree_congruence (d : Nat) : Rule.Congruence (Agree d) where
  toStepwise := (agree_attempted d).toStepwise
  note place problem _ _ s deep := ⟨rfl, by
    change d ≤ (s.record ⟨place s.current, problem⟩).depth
    rwa [State.depth_record]⟩
  descend s deep := by
    refine ⟨rfl, ?_⟩
    by_cases room : s.depth < maxDepth
    · rw [Rule.after_ok (Rule.descend_ok room)]
      exact Nat.le_succ_of_le deep
    · rwa [Rule.after_error (Rule.descend_error room)]
  keepingDepth inside s deep := by
    refine ⟨?_, by rwa [Rule.after_keepingDepth]⟩
    unfold Rule.keepingDepth
    rw [(inside s deep).1]
  bounded := (agree_attempted d).bounded
  block := (agree_attempted d).block

/-- A level further in, a rule is run a level deeper, unless the limit is reached. -/
theorem nested_eq {α : Type} (rule : Rule α) (s : State) :
    Rule.nested rule s = if s.depth < maxDepth then atDepth s.depth (rule s.deeper)
      else .error ⟨s.current, .tooDeep⟩ s := by
  rw [Rule.nested, keepingDepth_eq]
  by_cases room : s.depth < maxDepth
  · have down : Rule.descend s = .ok () s.deeper := Rule.descend_ok room
    rw [Rule.bind_ok _ down, if_pos room]
  · rw [Rule.bind_error _ (Rule.descend_error room), if_neg room]
    rfl

/-- At the limit, it does not matter what the rule is. -/
theorem Rule.Agree.nested {α : Type} {d : Nat} {rule rule' : Rule α}
    (h : d < maxDepth → Agree (d + 1) α rule rule') :
    Agree d α (Rule.nested rule) (Rule.nested rule') := by
  intro s deep
  unfold Rule.after
  rw [nested_eq, nested_eq]
  by_cases room : s.depth < maxDepth
  · obtain ⟨same, -⟩ := h (Nat.lt_of_le_of_lt deep room) s.deeper (Nat.succ_le_succ deep)
    rw [if_pos room, if_pos room, same]
    refine ⟨rfl, ?_⟩
    cases rule' s.deeper <;> exact deep
  · rw [if_neg room, if_neg room]
    exact ⟨rfl, deep⟩

/-- Once the levels reach to the limit, it does not matter how many more there are. -/
theorem rules_agree (level level' d : Nat) (h : maxDepth ≤ d + level) (h' : maxDepth ≤ d + level') :
    (rules level).Related (Agree d) (rules level') := by
  induction level generalizing level' d with
  | zero =>
    -- The depth is at its limit, so what the levels left would do is never run.
    have limit : ¬ d < maxDepth := by omega
    exact ⟨.nested (absurd · limit), .nested (absurd · limit), .nested (absurd · limit),
      fun _ => .nested (absurd · limit)⟩
  | succ level ih =>
    cases level' with
    | zero =>
      have limit : ¬ d < maxDepth := by omega
      exact ⟨.nested (absurd · limit), .nested (absurd · limit), .nested (absurd · limit),
        fun _ => .nested (absurd · limit)⟩
    | succ level' =>
      have below := ih level' (d + 1) (by omega) (by omega)
      have congruence := agree_congruence (d + 1)
      exact ⟨.nested fun _ => congruence.assignmentRule below,
        .nested fun _ => congruence.unaryRule below,
        .nested fun _ => congruence.statementBody below,
        fun kind => .nested fun _ => congruence.functionBody below kind⟩

/-- The state stands at this place among the tokens: ahead are those from there on, up to the end
of the program. -/
structure State.At (s : State) (tokens : List Token) (place : Nat) : Prop where
  within : place ≤ tokens.length
  ahead : s.ahead = (tokens.drop place).takeWhile (·.kind != .eof)

theorem State.start_at (tokens : List Token) : (State.start tokens).At tokens 0 :=
  ⟨Nat.zero_le _, rfl⟩

/-- Behind tokens that were used up, the state stands so much further on. -/
theorem State.At.forward {s s' : State} {tokens used : List Token} {place : Nat}
    (h : s.At tokens place) (split : s.ahead = used ++ s'.ahead) :
    s'.At tokens (place + used.length) := by
  have ahead := h.ahead
  rw [split] at ahead
  have stays : ∀ t ∈ used, (t.kind != .eof) = true := by
    have all : ((tokens.drop place).takeWhile (·.kind != .eof)).all (·.kind != .eof) = true :=
      List.all_takeWhile
    rw [← ahead, List.all_append, Bool.and_eq_true] at all
    exact List.all_eq_true.mp all.1
  obtain ⟨rest, whole⟩ : used <+: tokens.drop place :=
    (List.prefix_append used s'.ahead).trans (ahead ▸ List.takeWhile_prefix _)
  have length := congrArg List.length whole
  rw [List.length_append, List.length_drop] at length
  have within := h.within
  refine ⟨by omega, ?_⟩
  rw [← List.drop_drop, ← whole, List.drop_left]
  rw [← whole, List.takeWhile_append_of_pos stays] at ahead
  exact List.append_cancel_left ahead

/-- So many declarations behind one another, as the loop over them reads them: each starts in front
of a token that does not close them. Nothing else bounds their number. -/
inductive Declared (inner : Rules) (closes : TokenKind → Bool) :
    State → List Stmt → State → Nat → Prop where
  | stay (s : State) : Declared inner closes s [] s 0
  | next {s s' : State} {t : Token} {body : List Stmt} {n : Nat} (ahead : s.ahead.head? = some t)
      (stays : closes t.kind = false)
      (more : Declared inner closes (declaration inner s).2 body s' n) :
      Declared inner closes s ((declaration inner s).1.toList ++ body) s' (n + 1)

/-- The loop over declarations ends where they are closed, whatever bounds it beyond the tokens. -/
theorem exists_declared (level : Nat) (closes : TokenKind → Bool) (bound : List Token) (s : State)
    (covers : s.ahead.length ≤ bound.length) :
    ∃ n, Declared (rules level) closes s (declarations (rules level) closes bound s).1
        (declarations (rules level) closes bound s).2 n ∧
      ∀ t ∈ (declarations (rules level) closes bound s).2.ahead.head?, closes t.kind = true := by
  induction bound generalizing s with
  | nil =>
    have done : s.ahead = [] := List.eq_nil_of_length_eq_zero (by simpa using covers)
    rw [declarations_nil _ _ _ _ done]
    exact ⟨0, .stay s, by simp [done]⟩
  | cons b bound ih =>
    obtain ends | ⟨t, next, stays⟩ := ends_or_next closes s
    · rw [declarations_of_ends _ _ ends]
      exact ⟨0, .stay s, ends⟩
    · obtain ⟨rest, ahead⟩ := List.head?_eq_some_iff.mp next
      have shorter := declaration_advances level s (by simp [ahead])
      rw [List.length_cons] at covers
      obtain ⟨n, more, ends⟩ := ih (declaration (rules level) s).2 (by omega)
      rw [declarations_cons _ b bound next stays]
      exact ⟨n + 1, .next next stays more, ends⟩

/-- Every round uses up a token. -/
theorem Declared.length_le {closes : TokenKind → Bool} {s s' : State} {body : List Stmt}
    {n level : Nat} (h : Declared (rules level) closes s body s' n) :
    n + s'.ahead.length ≤ s.ahead.length := by
  induction h with
  | stay => omega
  | @next s s' t body n ahead _ _ ih =>
    obtain ⟨rest, whole⟩ := List.head?_eq_some_iff.mp ahead
    have shorter := declaration_advances level s (by simp [whole])
    omega

/-- What the loop gives is what it has given so far, and what it gives from there on. -/
theorem Declared.declarations_eq {closes : TokenKind → Bool} {s s' : State} {body : List Stmt}
    {n level : Nat} (h : Declared (rules level) closes s body s' n) :
    declarations (rules level) closes s.ahead s =
      (body ++ (declarations (rules level) closes s'.ahead s').1,
        (declarations (rules level) closes s'.ahead s').2) := by
  induction h with
  | stay => rfl
  | @next s s' t body n ahead stays _ ih =>
    obtain ⟨rest, whole⟩ := List.head?_eq_some_iff.mp ahead
    have shorter := declaration_advances level s (by simp [whole])
    rw [whole, List.length_cons] at shorter
    have same := declarations_bound level closes rest (declaration (rules level) s).2.ahead
      (declaration (rules level) s).2 (by omega) (Nat.le_refl _)
    rw [ih] at same
    rw [whole, declarations_cons _ t rest ahead stays, same, List.append_assoc]

/-- Some tokens were used up between the states, of which the first one stands at this place. -/
def State.Onward (tokens : List Token) (place : Nat) (s s' : State) : Prop :=
  ∃ used, used ≠ [] ∧ s.ahead = used ++ s'.ahead ∧ s'.At tokens (place + used.length)

theorem State.At.onward {tokens : List Token} {place : Nat} {s s' : State} (h : s.At tokens place)
    (suffix : s'.ahead <:+ s.ahead) (shorter : s'.ahead.length < s.ahead.length) :
    s.Onward tokens place s' := by
  obtain ⟨used, split⟩ := suffix
  refine ⟨used, ?_, split.symm, h.forward split.symm⟩
  rintro rfl
  rw [← split] at shorter
  exact Nat.lt_irrefl _ shorter

theorem State.At.length_le {tokens : List Token} {place : Nat} {s : State} (h : s.At tokens place) :
    place + s.ahead.length ≤ tokens.length := by
  have within := h.within
  have shorter := (List.takeWhile_prefix (l := tokens.drop place) (·.kind != .eof)).length_le
  rw [← h.ahead, List.length_drop] at shorter
  omega

theorem declaration_onward {tokens : List Token} {place : Nat} {s : State} (level : Nat)
    (h : s.At tokens place) (more : s.ahead ≠ []) :
    s.Onward tokens place (declaration (rules level) s).2 :=
  h.onward (recovering_moves (declarationRule_reads (rules_sound level)) s).ahead
    (declaration_advances level s more)

theorem declarations_rounds {tokens : List Token} {place : Nat} {s : State} (level : Nat)
    (h : s.At tokens place) (closes : TokenKind → Bool) :
    ∃ n, place + n ≤ tokens.length ∧
      Declared (rules level) closes s (declarations (rules level) closes s.ahead s).1
        (declarations (rules level) closes s.ahead s).2 n ∧
      ∀ t ∈ (declarations (rules level) closes s.ahead s).2.ahead.head?, closes t.kind = true := by
  obtain ⟨n, rounds, ends⟩ := exists_declared level closes s.ahead s (Nat.le_refl _)
  have few := rounds.length_le
  have inside := h.length_le
  exact ⟨n, by omega, rounds, ends⟩

/-- There is no further method only where the class body or the program ends. -/
theorem addMethod_none {s s' : State} {inner : Rules} {methods : Array Function}
    (run : addMethod inner methods s = .ok none s') :
    s' = s ∧ ∀ t ∈ s.ahead.head?, t.kind = .rightBrace := by
  have peeked : Rule.peek? s = .ok s.ahead.head? s := rfl
  unfold addMethod at run
  rw [Rule.bind_ok _ peeked] at run
  cases next : s.ahead.head? with
  | none =>
    rw [next] at run
    cases run
    exact ⟨rfl, nofun⟩
  | some t =>
    rw [next] at run
    dsimp only at run
    by_cases closing : t.kind = .rightBrace
    · rw [if_pos closing] at run
      cases run
      exact ⟨rfl, by simpa using closing⟩
    · rw [if_neg closing] at run
      obtain ⟨method, u, -, last⟩ := Rule.exists_of_bind_ok run
      cases last

/-- A round of the loop over methods uses up tokens, and the loop goes on behind them; or the class
body or the program ends, and the loop with it; or the round fails, and the loop too. -/
def MethodsRound (inner : Rules) (tokens : List Token) (place : Nat) (methods : Array Function)
    (s : State) : Prop :=
  match addMethod inner methods s with
  | .ok (some more) s' => s.Onward tokens place s' ∧
      Rule.iterate (addMethod inner) methods s = Rule.iterate (addMethod inner) more s'
  | .ok none s' => s' = s ∧ (∀ t ∈ s.ahead.head?, t.kind = .rightBrace) ∧
      Rule.iterate (addMethod inner) methods s = .ok methods s
  | .error e s' => Rule.iterate (addMethod inner) methods s = .error e s'

theorem methods_round {tokens : List Token} {place : Nat} {s : State} (level : Nat)
    (h : s.At tokens place) (methods : Array Function) :
    MethodsRound (rules level) tokens place methods s := by
  unfold MethodsRound
  have sound := rules_sound level
  have advances := addMethod_advances sound
  have moved := (addMethod_reads sound methods).moves s
  have round := Rule.iterate_eq advances methods s
  cases run : addMethod (rules level) methods s with
  | error e s' =>
    rw [run] at round
    exact round
  | ok found s' =>
    rw [run] at round
    rw [Rule.after_ok run] at moved
    cases found with
    | none =>
      obtain ⟨rfl, ends⟩ := addMethod_none run
      exact ⟨rfl, ends, round⟩
    | some more => exact ⟨h.onward moved.ahead (advances methods s more s' run), round⟩

/-- Any number of levels from the limit on, and any bound on the rounds that covers the tokens, is
as good as another. -/
theorem parse_eq_declarations (tokens : List Token) (level : Nat) (bound : List Token)
    (levels : maxDepth ≤ level) (covers : (State.start tokens).ahead.length ≤ bound.length) :
    parse tokens =
      ⟨(declarations (rules level) (fun _ => false) bound (State.start tokens)).1,
        (declarations (rules level) (fun _ => false) bound
          (State.start tokens)).2.errors.toList⟩ := by
  have related := rules_agree maxDepth level 0 (by omega) (by omega)
  have agree := (agree_attempted 0).reading _ _ ((agree_congruence 0).declarationRule related)
    (fun _ => false) (State.start tokens).ahead
  obtain ⟨same, -⟩ := agree (State.start tokens) (Nat.zero_le _)
  obtain ⟨statements, state⟩ := EStateM.Result.ok.inj same
  rw [declarations_bound level _ bound (State.start tokens).ahead _ covers (Nat.le_refl _),
    ← statements, ← state]
  rfl

end Parse

open Parse

/-- A parse comes to an end. Unless the program ends, a declaration leaves the state further on, be
it read or recovered from, and inside the tokens. So the loops over declarations end where these are
closed, after no more rounds than there are tokens, and so does the loop over methods; and no number
of levels that reaches to the limit is ever used up. -/
theorem parse_progress (tokens : List Token) :
    (∀ (level place : Nat) (s : State), s.At tokens place → s.ahead ≠ [] →
      s.Onward tokens place (declaration (rules level) s).2) ∧
    (∀ (level place : Nat) (s : State) (closes : TokenKind → Bool), s.At tokens place →
      (∀ body s' n, Declared (rules level) closes s body s' n →
        n + s'.ahead.length ≤ s.ahead.length) ∧
      ∃ n, place + n ≤ tokens.length ∧
        Declared (rules level) closes s (declarations (rules level) closes s.ahead s).1
          (declarations (rules level) closes s.ahead s).2 n ∧
        ∀ t ∈ (declarations (rules level) closes s.ahead s).2.ahead.head?, closes t.kind = true) ∧
    (∀ (level place : Nat) (s : State) (methods : Array Function), s.At tokens place →
      MethodsRound (rules level) tokens place methods s) ∧
    ∀ (level : Nat) (bound : List Token), maxDepth ≤ level →
      (State.start tokens).ahead.length ≤ bound.length →
      parse tokens =
        ⟨(declarations (rules level) (fun _ => false) bound (State.start tokens)).1,
          (declarations (rules level) (fun _ => false) bound
            (State.start tokens)).2.errors.toList⟩ :=
  ⟨fun level _ _ h => declaration_onward level h,
    fun level _ _ closes h =>
      ⟨fun _ _ _ rounds => rounds.length_le, declarations_rounds level h closes⟩,
    fun level _ _ methods h => methods_round level h methods, parse_eq_declarations tokens⟩

/-- A parenthesis that closes nothing, the end of the program, and one more token behind that. -/
def strayParen : List Token :=
  [⟨.rightParen, ")", none, 1⟩, .eof 1, ⟨.identifier, "a", none, 1⟩]

theorem parse_progress_strayParen :
    (State.start strayParen).At strayParen 0 ∧ (State.start strayParen).ahead ≠ [] ∧
      (State.start strayParen).Onward strayParen 0
        (declaration (rules maxDepth) (State.start strayParen)).2 :=
  have starts := State.start_at strayParen
  have more : (State.start strayParen).ahead ≠ [] := by decide
  ⟨starts, more, (parse_progress strayParen).1 maxDepth 0 _ starts more⟩

end LoxSyntax
