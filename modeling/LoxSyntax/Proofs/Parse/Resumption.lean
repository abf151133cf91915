import LoxSyntax.Proofs.Parse.GivingUp
import LoxSyntax.Proofs.Parse.Height

namespace LoxSyntax

namespace Parse

/-- The same state behind errors that were recorded before. -/
def State.behind (base : Array ParseError) (s : State) : State :=
  { s with errors := base ++ s.errors }

theorem State.record_behind (base : Array ParseError) (s : State) (e : ParseError) :
    (s.behind base).record e = (s.record e).behind base := by
  cases halted : s.halted <;> simp [State.record, State.behind, halted]

theorem State.recover_behind (base : Array ParseError) (s : State) (e : ParseError) :
    (s.behind base).recover e = (s.recover e).behind base := by
  have recorded := s.record_behind base e
  unfold State.recover
  rw [recorded]
  by_cases deep : e.problem = .tooDeep
  · simp [deep, State.behind]
  · simp [deep, State.behind]

/-- The outcome of a rule behind errors that were recorded before. -/
def outcomeBehind {α : Type} (base : Array ParseError) :
    EStateM.Result ParseError State α → EStateM.Result ParseError State α
  | .ok a s => .ok a (s.behind base)
  | .error e s => .error e (s.behind base)

/-- Behind errors recorded before, the second rule does what the first does without them. -/
def Rule.Unaware : Rule.Relation := fun _ rule rule' =>
  ∀ base s, rule' (s.behind base) = outcomeBehind base (rule s)

open Rule (Unaware)

theorem Rule.Unaware.bind {α β : Type} {rule rule' : Rule α} {f f' : α → Rule β}
    (first : Unaware α rule rule') (second : ∀ a, Unaware β (f a) (f' a)) :
    Unaware β (rule >>= f) (rule' >>= f') := by
  intro base s
  have run' := first base s
  cases run : rule s with
  | error e s' =>
    rw [run] at run'
    rw [Rule.bind_error f run, Rule.bind_error f' run']
    rfl
  | ok a s' =>
    rw [run] at run'
    rw [Rule.bind_ok f run, Rule.bind_ok f' run', second a base s']

theorem recovering_behind {α : Type} {rule rule' : Rule α} (h : Unaware α rule rule')
    (base : Array ParseError) (s : State) :
    recovering rule' (s.behind base) =
      ((recovering rule s).1, (recovering rule s).2.behind base) := by
  have run' := h base s
  cases run : rule s with
  | ok a s' =>
    rw [run] at run'
    rw [recovering_ok run, recovering_ok run']
  | error e s' =>
    rw [run] at run'
    rw [recovering_error run, recovering_error run', s'.recover_behind base e]

theorem unaware_attempted : Rule.Attempted Unaware where
  toStepwise := Rule.Sequential.stepwise {
    pure := fun _ _ _ => rfl
    bind := Unaware.bind
    fail := fun _ _ _ => rfl
    look := fun _ _ _ _ => rfl }
  bounded _ _ each base s := each s.ahead base s
  attempt inside base s := by
    unfold Rule.attempt
    rw [recovering_behind inside base s]
    rfl

theorem declarations_behind {inner inner' : Rules}
    (h : Unaware Stmt (declarationRule inner) (declarationRule inner')) (closes : TokenKind → Bool)
    (bound : List Token) (base : Array ParseError) (s : State) :
    declarations inner' closes bound (s.behind base) =
      ((declarations inner closes bound s).1,
        (declarations inner closes bound s).2.behind base) := by
  have all := unaware_attempted.reading _ _ h closes bound base s
  obtain ⟨statements, state⟩ := EStateM.Result.ok.inj all
  exact Prod.ext statements state

theorem unaware_congruence : Rule.Congruence Unaware where
  toStepwise := unaware_attempted.toStepwise
  note place problem _ _ base s := by
    have recorded := s.record_behind base ⟨place s.current, problem⟩
    exact congrArg (EStateM.Result.ok ()) recorded
  descend base s := by
    by_cases room : s.depth < maxDepth
    · rw [Rule.descend_ok room, Rule.descend_ok (s := s.behind base) room]
      rfl
    · rw [Rule.descend_error room, Rule.descend_error (s := s.behind base) room]
      rfl
  keepingDepth {_ rule _} inside base s := by
    unfold Rule.keepingDepth
    rw [inside base s]
    cases rule s <;> rfl
  bounded := unaware_attempted.bounded
  block := unaware_attempted.block

theorem declarationRule_unaware (level : Nat) :
    Unaware Stmt (declarationRule (rules level)) (declarationRule (rules level)) :=
  unaware_congruence.declarationRule (unaware_congruence.related level)

/-- Tokens in front of the end of the program do not change where it ends. -/
theorem State.start_stop {used rest : List Token} (inside : ∀ t ∈ used, t.kind ≠ .eof)
    (more : rest ≠ []) : (State.start (used ++ rest)).stop = (State.start rest).stop := by
  have none : used.find? (·.kind == .eof) = none := by simpa using inside
  have last : (used ++ rest).getLast? = rest.getLast? := by
    rw [List.getLast?_append, List.getLast?_eq_some_getLast more, Option.some_or]
  simp only [State.start, List.find?_append, none, Option.none_or, last]

/-- In front of the end of the program, a state with nothing open is the one in which the parse of
the rest starts, but for the errors. -/
theorem State.restart {tokens used : List Token} {s : State}
    (split : (State.start tokens).ahead = used ++ s.ahead) (more : s.ahead ≠ [])
    (stop : s.stop = (State.start tokens).stop) (level : s.depth = 0) (live : s.halted = false) :
    s = (State.start (tokens.drop used.length)).behind s.errors := by
  have place := (State.start_at tokens).forward split
  rw [Nat.zero_add] at place
  have ahead : s.ahead = (State.start (tokens.drop used.length)).ahead := place.ahead
  have rest : tokens.drop used.length ≠ [] := by
    intro none
    rw [none] at ahead
    exact more ahead
  have inside : ∀ t ∈ used, t.kind ≠ .eof := by
    intro t among
    have all : (State.start tokens).ahead.all (·.kind != .eof) = true := List.all_takeWhile
    have stays : t ∈ (State.start tokens).ahead := split ▸ List.mem_append_left _ among
    simpa using List.all_eq_true.mp all t stays
  obtain ⟨us, whole⟩ : used <+: tokens :=
    (split ▸ List.prefix_append used s.ahead : used <+: (State.start tokens).ahead).trans
      (List.takeWhile_prefix _)
  -- What was used up is in front of the end, so the rest ends at the same token.
  subst whole
  rw [List.drop_left] at ahead rest ⊢
  rw [State.start_stop inside rest] at stop
  obtain ⟨_, _, _, _, errors⟩ := s
  dsimp only at ahead stop level live
  subst ahead stop level live
  simp [State.behind, State.start]

theorem Declared.extends {level : Nat} {closes : TokenKind → Bool} {s s' : State} {body : List Stmt}
    {n : Nat} (h : Declared (rules level) closes s body s' n) : s.Extends s' := by
  induction h with
  | stay s => exact .refl s
  | @next s _ _ _ _ _ _ _ ih =>
    exact (recovering_moves (declarationRule_reads (rules_sound level)) s).trans ih

theorem Declared.depth_eq {level : Nat} {closes : TokenKind → Bool} {s s' : State}
    {body : List Stmt} {n : Nat} (h : Declared (rules level) closes s body s' n) :
    s'.depth = s.depth := by
  induction h with
  | stay => rfl
  | @next s _ _ _ _ _ _ _ ih =>
    exact ih.trans (declaration_gives (declarationRule_within (rules_bounded level)) s).1

/-- Where there is something left to read, the parse was not given up. -/
theorem Declared.goesOn {level : Nat} {closes : TokenKind → Bool} {s s' : State} {body : List Stmt}
    {n : Nat} (h : Declared (rules level) closes s body s' n) (live : s.halted = false)
    (more : s'.ahead ≠ []) : s.GoesOn s' := by
  induction h with
  | stay => exact .refl live
  | @next s s' _ _ _ _ _ behind ih =>
    have first : s.GoesOn (declaration (rules level) s).2 ∨
        (declaration (rules level) s).1 = none ∧ s.GivesUp (declaration (rules level) s).2 :=
      recovering_live (declarationRule_live level) live
    rcases first with on | ⟨-, up⟩
    · exact on.trans (ih on.live more)
    · have nothing : s'.ahead = [] := List.suffix_nil.mp (up.ahead ▸ behind.extends.ahead)
      exact absurd nothing more

end Parse

open Parse

/-- Declarations of a program do not depend on each other. Whatever was declared or recovered from
in front of one, it is read in the state in which the parse of the rest by itself starts, but for
the errors recorded so far; and those stand in front of the errors in the rest. -/
theorem parse_resumes (tokens : List Token) {before : List Stmt} {s : State} {n : Nat}
    (run : Declared (rules maxDepth) (fun _ => false) (State.start tokens) before s n)
    (more : s.ahead ≠ []) :
    let rest := tokens.drop ((State.start tokens).ahead.length - s.ahead.length)
    s = (State.start rest).behind s.errors ∧
      parse tokens =
        ⟨before ++ (parse rest).statements, s.errors.toList ++ (parse rest).errors⟩ := by
  intro rest
  have onward := run.extends
  obtain ⟨used, split⟩ := onward.ahead
  have place : rest = tokens.drop used.length := by
    have length := congrArg List.length split
    rw [List.length_append] at length
    exact congrArg tokens.drop (by omega)
  have restart := State.restart split.symm more onward.stop run.depth_eq (run.goesOn rfl more).live
  rw [← place] at restart
  have further := declarations_behind (declarationRule_unaware maxDepth) (fun _ => false)
    (State.start rest).ahead s.errors (State.start rest)
  rw [← restart] at further
  have ahead : s.ahead = (State.start rest).ahead := by
    rw [restart]
    rfl
  have whole := run.declarations_eq
  rw [ahead, further] at whole
  refine ⟨restart, ?_⟩
  simp [parse, whole, State.behind]

/-- `1 + + 2` and a statement behind it. -/
def doubledPlus : List Token :=
  [⟨.number, "1", none, 1⟩, ⟨.plus, "+", none, 1⟩, ⟨.plus, "+", none, 1⟩, ⟨.number, "2", none, 1⟩,
    ⟨.printKw, "print", none, 2⟩, ⟨.number, "3", none, 2⟩, ⟨.semicolon, ";", none, 2⟩, .eof 2]

/-- The state behind the sum, which has no value. -/
def behindDoubledPlus : State := (declaration (rules maxDepth) (State.start doubledPlus)).2

theorem parse_resumes_doubledPlus :
    Declared (rules maxDepth) (fun _ => false) (State.start doubledPlus) [] behindDoubledPlus 1 ∧
      behindDoubledPlus.ahead ≠ [] ∧
      let rest := doubledPlus.drop
        ((State.start doubledPlus).ahead.length - behindDoubledPlus.ahead.length)
      behindDoubledPlus = (State.start rest).behind behindDoubledPlus.errors ∧
        parse doubledPlus = ⟨[] ++ (parse rest).statements,
          behindDoubledPlus.errors.toList ++ (parse rest).errors⟩ := by
  have failed : (declaration (rules maxDepth) (State.start doubledPlus)).1.toList = [] := by
    decide +kernel
  have one : Declared (rules maxDepth) (fun _ => false) (State.start doubledPlus)
      ((declaration (rules maxDepth) (State.start doubledPlus)).1.toList ++ [])
      behindDoubledPlus 1 := .next rfl rfl (.stay _)
  rw [failed, List.nil_append] at one
  have more : behindDoubledPlus.ahead ≠ [] := by decide +kernel
  exact ⟨one, more, parse_resumes doubledPlus one more⟩

end LoxSyntax
