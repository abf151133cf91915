import LoxSyntax.Proofs.Parse.ProgramCompleteness
import LoxSyntax.Proofs.Parse.Termination

namespace LoxSyntax

namespace Parse

/-- An `if` as in a textbook: what is behind its `else` is a statement like any other. -/
def recursiveIf (inner : Rules) : Rule Stmt := Rule.keepingDepth do
  let (condition, body) ← guarded inner
  return .ifElse condition body (← Rule.behind .elseKw (statement inner))

/-- A statement, with that rule for `if`. No other rule for one ever starts at that keyword. -/
def recursiveBody (inner : Rules) : Rule Stmt := do
  if ← Rule.accept .ifKw then recursiveIf inner else statementBody inner

/-- The rules that may go this many levels further in, with that rule for `if`. -/
def recursiveRules : Nat → Rules
  | 0 => rules 0
  | level + 1 =>
    let inner := recursiveRules level
    ⟨assignment inner, unary inner, recursiveBody inner, functionBody inner⟩

/-- The links behind one more guarded statement. -/
def Links.inFront (guard : Expr × Stmt) (links : Links) : Links :=
  { links with guards := #[guard] ++ links.guards }

theorem Links.toElse_inFront (guard : Expr × Stmt) (links : Links) :
    (links.inFront guard).toElse = some (.ifElse guard.1 guard.2 links.toElse) := by
  simp [inFront, toElse]

/-- What is in front of them does not change how links are read. -/
theorem elseLink_inFront (inner : Rules) (guard : Expr × Stmt) (all : Links) :
    elseLink inner (all.inFront guard) =
      Option.map (Links.inFront guard) <$> elseLink inner all := by
  have pushed (last : Option Stmt) (next : Expr × Stmt) :
      (⟨(all.inFront guard).guards.push next, last⟩ : Links) =
        Links.inFront guard ⟨all.guards.push next, last⟩ := by
    simp [Links.inFront]
  have same : (all.inFront guard).last = all.last := rfl
  unfold elseLink
  rw [same]
  by_cases ended : all.last.isSome = true
  · rw [if_pos ended, if_pos ended, map_pure]
    rfl
  · rw [if_neg ended, if_neg ended, map_bind]
    congr 1
    funext follows
    cases follows with
    | false =>
      rw [if_neg Bool.false_ne_true, if_neg Bool.false_ne_true, map_pure]
      rfl
    | true =>
      rw [if_pos rfl, if_pos rfl, map_bind]
      congr 1
      funext again
      cases again with
      | false =>
        simp only [Bool.false_eq_true, if_false, map_bind, map_pure]
        rfl
      | true => simp only [if_true, map_bind, map_pure, pushed, Option.map_some]

theorem links_inFront (inner : Rules) (guard : Expr × Stmt) :
    links inner #[guard] =
      (fun rest => some (Stmt.ifElse guard.1 guard.2 rest)) <$> links inner #[] := by
  have start : (⟨#[guard], none⟩ : Links) = Links.inFront guard ⟨#[], none⟩ := by
    simp [Links.inFront]
  unfold links
  rw [start, Rule.iterate_map (Links.inFront guard) (elseLink_inFront inner guard)]
  simp only [Functor.map_map, Links.toElse_inFront]

/-- What is behind an `else`: one more `if`, a level deeper, or another statement. -/
def elseBranch (inner : Rules) : Rule Stmt := do
  if ← Rule.accept .ifKw then Rule.nested (ifStatement inner) else statement inner

/-- An `if` is its own guarded statement in front of the links. -/
theorem ifStatement_eq_links (inner : Rules) :
    ifStatement inner = Rule.keepingDepth (guarded inner >>= fun guard =>
      Stmt.ifElse guard.1 guard.2 <$> links inner #[]) := by
  unfold ifStatement links
  simp only [map_eq_pure_bind, bind_assoc, pure_bind]

/-- The loop over the links is a recursion over them. -/
theorem keepingDepth_links {inner : Rules} (advances : ∀ all, (elseLink inner all).Advances) :
    Rule.keepingDepth (links inner #[]) =
      Rule.keepingDepth (Rule.behind .elseKw (elseBranch inner)) := by
  -- A link is a level deeper than the one before it, until the depth is put back for all of them.
  have deeper : Rule.keepingDepth (Rule.descend >>= fun _ => guarded inner >>= fun guard =>
        links inner #[guard]) =
      Rule.keepingDepth (some <$> Rule.nested (ifStatement inner)) := by
    rw [keepingDepth_map, Rule.nested, keepingDepth_keepingDepth, ifStatement_eq_links,
      keepingDepth_bind_keepingDepth, ← keepingDepth_map]
    simp only [links_inFront, map_bind, Functor.map_map]
  unfold Rule.behind elseBranch
  rw [links_round inner advances]
  apply keepingDepth_bind_congr
  intro follows
  cases follows with
  | false => rfl
  | true =>
    rw [if_pos rfl, if_pos rfl, map_bind]
    apply keepingDepth_bind_congr
    intro again
    cases again with
    | false => rfl
    | true => exact deeper

/-- Behind its guarded statement, an `if` reads an `else` and one branch. -/
theorem ifStatement_eq_branch {inner : Rules} (advances : ∀ all, (elseLink inner all).Advances) :
    ifStatement inner = Rule.keepingDepth (guarded inner >>= fun guard =>
      Stmt.ifElse guard.1 guard.2 <$> Rule.behind .elseKw (elseBranch inner)) := by
  rw [ifStatement_eq_links]
  apply keepingDepth_bind_congr
  intro guard
  rw [keepingDepth_map, keepingDepth_map, keepingDepth_links advances]

section Tracking

/-- The first of these tokens is an `if` right behind an `else` of the program. -/
def LinkIn (tokens : List Token) (t : Token) (rest : List Token) : Prop :=
  ∃ front e, tokens = front ++ e :: t :: rest ∧ e.kind = .elseKw ∧ t.kind = .ifKw

/-- The state is one of a parse of these tokens, at this depth or deeper. -/
structure State.Within (tokens : List Token) (stop : Token) (d : Nat) (s : State) : Prop where
  ahead : s.ahead <:+ tokens
  stop : s.stop = stop
  depth : d ≤ s.depth

/-- The errors are the same, but that the last of them may be at a link, where it is told of the
token behind the `if` or of the `if`. -/
def AlikeErrors (tokens : List Token) (stop : Token) (errors errors' : Array ParseError) : Prop :=
  errors = errors' ∨ ∃ (before : Array ParseError) (t : Token) (rest : List Token),
    LinkIn tokens t rest ∧ errors = before.push ⟨rest.headD stop, .tooDeep⟩ ∧
      errors' = before.push ⟨t, .tooDeep⟩

/-- Both parses were given up, with such errors. -/
structure Spent (tokens : List Token) (stop : Token) (s s' : State) : Prop where
  ahead : s.ahead = []
  ahead' : s'.ahead = []
  halted : s.halted = true
  halted' : s'.halted = true
  errors : AlikeErrors tokens stop s.errors s'.errors

/-- What two rules come to: the same, or failures behind which a parse is given up. -/
inductive Matches (tokens : List Token) (stop : Token) (d : Nat) {α : Type} :
    EStateM.Result ParseError State α → EStateM.Result ParseError State α → Prop where
  | ok {a : α} {s : State} (within : s.Within tokens stop d) :
      Matches tokens stop d (.ok a s) (.ok a s)
  | error {e : ParseError} {s : State} (within : s.Within tokens stop d) :
      Matches tokens stop d (.error e s) (.error e s)
  | link {s : State} {t : Token} {rest : List Token} (link : LinkIn tokens t rest) :
      Matches tokens stop d (.error ⟨rest.headD stop, .tooDeep⟩ (s.facing rest))
        (.error ⟨t, .tooDeep⟩ (s.facing (t :: rest)))
  | spent {e e' : ParseError} {s s' : State} (spent : Spent tokens stop s s') :
      Matches tokens stop d (.error e s) (.error e' s')

/-- From this depth on, the rules come to matching outcomes. -/
def Rule.Tracks (tokens : List Token) (stop : Token) (d : Nat) : Rule.Relation :=
  fun _ rule rule' => ∀ s : State, s.Within tokens stop d → Matches tokens stop d (rule s) (rule' s)

/-- Two parses stand at the same place, or are both given up. -/
def Together (tokens : List Token) (stop : Token) (d : Nat) (s s' : State) : Prop :=
  s = s' ∧ s.Within tokens stop d ∨ Spent tokens stop s s'

open Rule (Tracks)

namespace State.Within

theorem facing {tokens : List Token} {stop : Token} {d : Nat} {s : State}
    (h : s.Within tokens stop d) {ts : List Token} (suffix : ts <:+ s.ahead) :
    (s.facing ts).Within tokens stop d :=
  ⟨suffix.trans h.ahead, h.stop, h.depth⟩

theorem deeper {tokens : List Token} {stop : Token} {d : Nat} {s : State}
    (h : s.Within tokens stop d) : s.deeper.Within tokens stop (d + 1) :=
  ⟨h.ahead, h.stop, Nat.succ_le_succ h.depth⟩

theorem record {tokens : List Token} {stop : Token} {d : Nat} {s : State}
    (h : s.Within tokens stop d) (e : ParseError) : (s.record e).Within tokens stop d :=
  ⟨by simpa using h.ahead, by simpa using h.stop, by simpa using h.depth⟩

theorem recover {tokens : List Token} {stop : Token} {d : Nat} {s : State}
    (h : s.Within tokens stop d) (e : ParseError) : (s.recover e).Within tokens stop d := by
  have recorded := h.record e
  unfold State.recover
  dsimp only
  split
  · exact ⟨List.nil_suffix, recorded.stop, recorded.depth⟩
  · exact recorded.facing (synchronize_suffix _)

end State.Within

/-- A parse that was given up stays so, whatever fails behind that. -/
theorem Spent.recover {tokens : List Token} {stop : Token} {s s' : State}
    (h : Spent tokens stop s s') (e e' : ParseError) :
    Spent tokens stop (s.recover e) (s'.recover e') := by
  have still {s : State} (ahead : s.ahead = []) (halted : s.halted = true) (e : ParseError) :
      s.recover e = s := by
    unfold State.recover State.record
    rw [if_pos halted]
    dsimp only
    split
    · cases s
      cases ahead
      cases halted
      rfl
    · rw [ahead]
      exact State.facing_eq ahead
  rw [still h.ahead h.halted e, still h.ahead' h.halted' e']
  exact h

/-- At a link past the limit, the parses are given up with errors that are alike. -/
theorem LinkIn.recover {tokens : List Token} {stop t : Token} {rest : List Token}
    (h : LinkIn tokens t rest) (s : State) :
    Spent tokens stop ((s.facing rest).recover ⟨rest.headD stop, .tooDeep⟩)
      ((s.facing (t :: rest)).recover ⟨t, .tooDeep⟩) := by
  refine ⟨rfl, rfl, rfl, rfl, ?_⟩
  cases halted : s.halted with
  | true =>
    left
    simp [State.recover, State.record, State.facing, halted]
  | false =>
    refine .inr ⟨s.errors, t, rest, h, ?_, ?_⟩
    · simp [State.recover, State.record, State.facing, halted]
    · simp [State.recover, State.record, State.facing, halted]

namespace Matches

theorem bind {α β : Type} {tokens : List Token} {stop : Token} {d : Nat} {s s' : State}
    {rule rule' : Rule α} {f f' : α → Rule β} (first : Matches tokens stop d (rule s) (rule' s'))
    (second : ∀ a, Tracks tokens stop d β (f a) (f' a)) :
    Matches tokens stop d ((rule >>= f) s) ((rule' >>= f') s') := by
  generalize run : rule s = r, run' : rule' s' = r' at first
  cases first with
  | ok within =>
    rw [Rule.bind_ok f run, Rule.bind_ok f' run']
    exact second _ _ within
  | error within =>
    rw [Rule.bind_error f run, Rule.bind_error f' run']
    exact .error within
  | link link =>
    rw [Rule.bind_error f run, Rule.bind_error f' run']
    exact .link link
  | spent spent =>
    rw [Rule.bind_error f run, Rule.bind_error f' run']
    exact .spent spent

/-- The depth may be put back. -/
theorem atDepth {α : Type} {tokens : List Token} {stop : Token} {d : Nat}
    {r r' : EStateM.Result ParseError State α} {d' k : Nat} (h : Matches tokens stop d' r r')
    (deep : d ≤ k) : Matches tokens stop d (Parse.atDepth k r) (Parse.atDepth k r') := by
  cases h with
  | ok within => exact .ok ⟨within.ahead, within.stop, deep⟩
  | error within => exact .error ⟨within.ahead, within.stop, deep⟩
  | @link s t rest link => exact .link (s := { s with depth := k }) link
  | spent spent =>
    exact .spent ⟨spent.ahead, spent.ahead', spent.halted, spent.halted', spent.errors⟩

end Matches

/-- Behind matching outcomes, recovery leaves the parses together. -/
theorem Rule.Tracks.recovering {α : Type} {tokens : List Token} {stop : Token} {d : Nat} {s : State}
    {rule rule' : Rule α} (h : Tracks tokens stop d α rule rule')
    (within : s.Within tokens stop d) :
    (Parse.recovering rule s).1 = (Parse.recovering rule' s).1 ∧
      Together tokens stop d (Parse.recovering rule s).2 (Parse.recovering rule' s).2 := by
  have outcome := h s within
  unfold Parse.recovering
  generalize rule s = r, rule' s = r' at outcome
  cases outcome with
  | ok within => exact ⟨rfl, .inl ⟨rfl, within⟩⟩
  | error within => exact ⟨rfl, .inl ⟨rfl, within.recover _⟩⟩
  | link link => exact ⟨rfl, .inr (link.recover _)⟩
  | spent spent => exact ⟨rfl, .inr (spent.recover _ _)⟩

theorem tracks_stepwise {tokens : List Token} {stop : Token} {d : Nat} :
    Rule.Stepwise (Tracks tokens stop d) :=
  Rule.Sequential.stepwise {
    pure := fun _ _ within => .ok within
    bind := fun first second s within => (first s within).bind second
    fail := fun _ _ within => .error within
    look := fun _ moves s within => .ok (within.facing (moves s.ahead)) }

theorem declarations_track {tokens : List Token} {stop : Token} {d : Nat} {s : State}
    {inner inner' : Rules}
    (h : Tracks tokens stop d Stmt (declarationRule inner) (declarationRule inner'))
    (closes : TokenKind → Bool) (bound : List Token) (within : s.Within tokens stop d) :
    (declarations inner closes bound s).1 = (declarations inner' closes bound s).1 ∧
      Together tokens stop d (declarations inner closes bound s).2
        (declarations inner' closes bound s).2 := by
  induction bound generalizing s with
  | nil => exact ⟨rfl, .inl ⟨rfl, within⟩⟩
  | cons b bound ih =>
    have first : (declaration inner s).1 = (declaration inner' s).1 ∧
      Together tokens stop d (declaration inner s).2 (declaration inner' s).2 := h.recovering within
    obtain ⟨statement, together⟩ := first
    obtain ends | ⟨t, next, stays⟩ := ends_or_next closes s
    · rw [declarations_of_ends inner _ ends, declarations_of_ends inner' _ ends]
      exact ⟨rfl, .inl ⟨rfl, within⟩⟩
    · rw [declarations_cons inner b bound next stays, declarations_cons inner' b bound next stays,
        ← statement]
      rcases together with ⟨same, inside⟩ | spent
      · obtain ⟨more, behind⟩ := ih inside
        rw [← same]
        exact ⟨by rw [more], behind⟩
      -- No token is left, so both loops end here.
      · rw [declarations_nil inner closes bound _ spent.ahead,
          declarations_nil inner' closes bound _ spent.ahead']
        exact ⟨rfl, .inr spent⟩

theorem block_tracks {tokens : List Token} {stop : Token} {d : Nat} {inner inner' : Rules}
    (h : Tracks tokens stop d Stmt (declarationRule inner) (declarationRule inner')) :
    Tracks tokens stop d (List Stmt) (block inner) (block inner') := by
  intro s within
  obtain ⟨body, together⟩ := declarations_track h (· == .rightBrace) s.ahead within
  rw [block_eq, block_eq, ← body]
  rcases together with ⟨same, inside⟩ | spent
  · rw [← same]
    have rest (body : List Stmt) : Tracks tokens stop d (List Stmt)
        (Rule.mark .rightBrace .afterBlock >>= fun _ => pure body)
        (Rule.mark .rightBrace .afterBlock >>= fun _ => pure body) :=
      tracks_stepwise.bind (tracks_stepwise.expect _ nofun) fun _ => tracks_stepwise.pure body
    exact rest _ _ inside
  · have missing : Rule.mark .rightBrace .afterBlock _ = .error _ _ :=
      Rule.expect_nil .rightBrace (.noMark .rightBrace .afterBlock) spent.ahead
    have missing' : Rule.mark .rightBrace .afterBlock _ = .error _ _ :=
      Rule.expect_nil .rightBrace (.noMark .rightBrace .afterBlock) spent.ahead'
    rw [Rule.bind_error _ missing, Rule.bind_error _ missing']
    exact .spent spent

theorem tracks_congruence {tokens : List Token} {stop : Token} {d : Nat} :
    Rule.Congruence (Tracks tokens stop d) where
  toStepwise := tracks_stepwise
  note _ _ _ _ _ within := .ok (within.record _)
  descend s within := by
    by_cases room : s.depth < maxDepth
    · rw [Rule.descend_ok room]
      exact .ok ⟨within.ahead, within.stop, Nat.le_succ_of_le within.depth⟩
    · rw [Rule.descend_error room]
      exact .error within
  keepingDepth inside s within := by
    rw [keepingDepth_eq, keepingDepth_eq]
    exact (inside s within).atDepth within.depth
  bounded _ _ each s within := each s.ahead s within
  block _ _ := block_tracks

/-- Below the limit, what is a level deeper counts; at the limit, nothing does. -/
theorem Rule.Tracks.nested {α : Type} {tokens : List Token} {stop : Token} {d : Nat}
    {rule rule' : Rule α} (h : d < maxDepth → Tracks tokens stop (d + 1) α rule rule') :
    Tracks tokens stop d α (Rule.nested rule) (Rule.nested rule') := by
  intro s within
  rw [nested_eq, nested_eq]
  by_cases room : s.depth < maxDepth
  · rw [if_pos room, if_pos room]
    have below := h (Nat.lt_of_le_of_lt within.depth room) s.deeper within.deeper
    exact below.atDepth within.depth
  · rw [if_neg room, if_neg room]
    exact .error within

theorem recursiveBody_if {t : Token} {rest : List Token} (inner : Rules) (s : State)
    (keyword : t.kind = .ifKw) :
    recursiveBody inner (s.facing (t :: rest)) = recursiveIf inner (s.facing rest) := by
  unfold recursiveBody
  rw [Rule.bind_ok _ (Rule.accept_true keyword), if_pos rfl]

-- So many levels reach to the limit, and what one of them less does with an `if` is known.
/-- Below the limit, a link and the `if` of a textbook are read a level deeper, from behind the
keyword on. Past it, each is reported at the token in front of it. -/
theorem link_matches {tokens : List Token} {stop : Token} {d : Nat} {s : State} {t : Token}
    {rest : List Token} {level n : Nat} (levels : maxDepth ≤ d + n)
    (deeper : ∀ m, n = m + 1 → Tracks tokens stop (d + 1) Stmt (ifStatement (rules level))
      (recursiveIf (recursiveRules m))) (within : (s.facing (t :: rest)).Within tokens stop d)
    (link : LinkIn tokens t rest) :
    Matches tokens stop d (Rule.nested (ifStatement (rules level)) (s.facing rest))
      (statement (recursiveRules n) (s.facing (t :: rest))) := by
  obtain ⟨front, e, -, -, keyword⟩ := id link
  have deep : d ≤ s.depth := within.depth
  by_cases room : s.depth < maxDepth
  · have left : Rule.nested (ifStatement (rules level)) (s.facing rest) =
        atDepth s.depth (ifStatement (rules level) (s.deeper.facing rest)) :=
      (nested_eq _ _).trans (if_pos room)
    have right : statement (recursiveRules n) (s.facing (t :: rest)) =
        atDepth s.depth ((recursiveRules n).statement (s.deeper.facing (t :: rest))) :=
      (nested_eq _ _).trans (if_pos room)
    obtain ⟨m, rfl⟩ : ∃ m, n = m + 1 := Nat.exists_eq_succ_of_ne_zero (by omega)
    have textbook : (recursiveRules (m + 1)).statement (s.deeper.facing (t :: rest)) =
        recursiveIf (recursiveRules m) (s.deeper.facing rest) := recursiveBody_if _ _ keyword
    have inside : (s.deeper.facing rest).Within tokens stop (d + 1) :=
      within.deeper.facing (List.suffix_cons t rest)
    rw [left, right, textbook]
    exact (deeper m rfl _ inside).atDepth deep
  · have left : Rule.nested (ifStatement (rules level)) (s.facing rest) =
        .error ⟨rest.headD stop, .tooDeep⟩ (s.facing rest) := by
      rw [← within.stop]
      exact (nested_eq _ _).trans (if_neg room)
    have right : statement (recursiveRules n) (s.facing (t :: rest)) =
        .error ⟨t, .tooDeep⟩ (s.facing (t :: rest)) :=
      (nested_eq _ _).trans (if_neg room)
    rw [left, right]
    exact .link link

/-- What is behind an `else` comes to the same in the loop and in the recursion. -/
theorem elseBranch_matches {tokens : List Token} {stop : Token} {d : Nat} {s : State}
    {level n : Nat} (levels : maxDepth ≤ d + n)
    (deeper : ∀ m, n = m + 1 → Tracks tokens stop (d + 1) Stmt (ifStatement (rules level))
      (recursiveIf (recursiveRules m)))
    (related : (rules level).Related (Tracks tokens stop d) (recursiveRules n))
    (within : s.Within tokens stop d) {front : List Token} {e : Token}
    (whole : tokens = front ++ e :: s.ahead) (keyword : e.kind = .elseKw) :
    Matches tokens stop d (elseBranch (rules level) s) (statement (recursiveRules n) s) := by
  unfold elseBranch
  rcases Rule.accept_cases .ifKw s with ⟨t, rest, ahead, isIf, accepted⟩ | ⟨-, accepted⟩
  · have here : s.facing (t :: rest) = s := State.facing_eq ahead
    have link : LinkIn tokens t rest := ⟨front, e, ahead ▸ whole, keyword, isIf⟩
    have outcome := link_matches levels deeper (here.symm ▸ within) link
    rw [here] at outcome
    rw [Rule.bind_ok _ accepted, if_pos rfl]
    exact outcome
  · rw [Rule.bind_ok _ accepted, if_neg Bool.false_ne_true]
    exact related.statement s within

theorem behindElse_tracks {tokens : List Token} {stop : Token} {d level n : Nat}
    (levels : maxDepth ≤ d + n)
    (deeper : ∀ m, n = m + 1 → Tracks tokens stop (d + 1) Stmt (ifStatement (rules level))
      (recursiveIf (recursiveRules m)))
    (related : (rules level).Related (Tracks tokens stop d) (recursiveRules n)) :
    Tracks tokens stop d (Option Stmt) (Rule.behind .elseKw (elseBranch (rules level)))
      (Rule.behind .elseKw (statement (recursiveRules n))) := by
  intro s within
  unfold Rule.behind
  rcases Rule.accept_cases .elseKw s with ⟨e, us, ahead, keyword, accepted⟩ | ⟨-, accepted⟩
  · obtain ⟨front, whole⟩ := within.ahead
    rw [ahead] at whole
    have inside : (s.facing us).Within tokens stop d :=
      within.facing (ahead ▸ List.suffix_cons e us)
    have branch := elseBranch_matches levels deeper related inside whole.symm keyword
    rw [Rule.bind_ok _ accepted, Rule.bind_ok _ accepted, if_pos rfl, if_pos rfl,
      map_eq_pure_bind, map_eq_pure_bind]
    exact branch.bind fun body => tracks_stepwise.pure (some body)
  · rw [Rule.bind_ok _ accepted, Rule.bind_ok _ accepted]
    exact .ok within

theorem ifStatement_tracks {tokens : List Token} {stop : Token} {d level n : Nat}
    (levels : maxDepth ≤ d + n)
    (deeper : ∀ m, n = m + 1 → Tracks tokens stop (d + 1) Stmt (ifStatement (rules level))
      (recursiveIf (recursiveRules m)))
    (related : (rules level).Related (Tracks tokens stop d) (recursiveRules n)) :
    Tracks tokens stop d Stmt (ifStatement (rules level)) (recursiveIf (recursiveRules n)) := by
  have congruence : Rule.Congruence (Tracks tokens stop d) := tracks_congruence
  rw [ifStatement_eq_branch (elseLink_advances (rules_sound level))]
  apply congruence.keepingDepth
  apply congruence.bind (congruence.guarded related)
  intro guard
  rw [map_eq_pure_bind]
  apply congruence.bind (behindElse_tracks levels deeper related)
  intro rest
  exact congruence.pure _

/-- Nothing but an `if` tells the bodies of statements apart. -/
theorem statementBody_tracks {tokens : List Token} {stop : Token} {d : Nat} {inner inner' : Rules}
    (related : inner.Related (Tracks tokens stop d) inner')
    (chains : Tracks tokens stop d Stmt (ifStatement inner) (recursiveIf inner')) :
    Tracks tokens stop d Stmt (statementBody inner) (recursiveBody inner') := by
  intro s within
  rcases Rule.accept_cases .ifKw s with ⟨t, rest, ahead, keyword, -⟩ | ⟨-, accepted⟩
  · have loop : statementBody inner (s.facing (t :: rest)) = ifStatement inner (s.facing rest) := by
      rw [statementBody_facing, keyword]
      exact Rule.bind_ok _ Rule.skip_eq
    have textbook : recursiveBody inner' (s.facing (t :: rest)) =
        recursiveIf inner' (s.facing rest) := recursiveBody_if inner' s keyword
    rw [State.facing_eq ahead] at loop textbook
    rw [loop, textbook]
    exact chains _ (within.facing (ahead ▸ List.suffix_cons t rest))
  · have textbook : recursiveBody inner' s = statementBody inner' s := by
      unfold recursiveBody
      rw [Rule.bind_ok _ accepted, if_neg Bool.false_ne_true]
    rw [textbook]
    exact tracks_congruence.statementBody related s within

/-- Once the levels reach to the limit, the rules with the loop and those with the recursion come to
matching outcomes. -/
theorem rules_track (tokens : List Token) (stop : Token) (n d level : Nat)
    (levels : maxDepth ≤ d + n) (levels' : maxDepth ≤ d + level) :
    (rules level).Related (Tracks tokens stop d) (recursiveRules n) ∧
      Tracks tokens stop d Stmt (ifStatement (rules level)) (recursiveIf (recursiveRules n)) := by
  have limited {d : Nat} (limit : ¬ d < maxDepth) (inner inner' : Rules) :
      inner.Related (Tracks tokens stop d) inner' :=
    ⟨.nested (absurd · limit), .nested (absurd · limit), .nested (absurd · limit),
      fun _ => .nested (absurd · limit)⟩
  induction n generalizing d level with
  | zero =>
    have related := limited (by omega : ¬ d < maxDepth) (rules level) (recursiveRules 0)
    exact ⟨related, ifStatement_tracks levels nofun related⟩
  | succ n ih =>
    have related : (rules level).Related (Tracks tokens stop d) (recursiveRules (n + 1)) := by
      cases level with
      | zero => exact limited (by omega) _ _
      | succ level =>
        obtain ⟨below, chains⟩ := ih (d + 1) level (by omega) (by omega)
        have congruence : Rule.Congruence (Tracks tokens stop (d + 1)) := tracks_congruence
        exact ⟨.nested fun _ => congruence.assignmentRule below,
          .nested fun _ => congruence.unaryRule below,
          .nested fun _ => statementBody_tracks below chains,
          fun kind => .nested fun _ => congruence.functionBody below kind⟩
    have deeper : ∀ m, n + 1 = m + 1 → Tracks tokens stop (d + 1) Stmt
        (ifStatement (rules level)) (recursiveIf (recursiveRules m)) := by
      intro m same
      obtain rfl := Nat.succ.inj same
      exact (ih (d + 1) level (by omega) (by omega)).2
    exact ⟨related, ifStatement_tracks levels deeper related⟩

end Tracking

end Parse

open Parse

/-- The parse of a program with the rule of a textbook for `if`. -/
def parseRecursively (tokens : List Token) : Parsed :=
  let start := State.start tokens
  let (statements, s) :=
    declarations (recursiveRules maxDepth) (fun _ => false) start.ahead start
  ⟨statements, s.errors.toList⟩

/-- The loop over the links of an `if` comes to the same as the recursion of a textbook: the same
statements, and the same errors in the same order. Only the last error may be told of another token,
where the nesting is too deep at an `if` behind an `else`: the loop names the token behind that
`if`, and the recursion the `if`. -/
theorem parse_elseIf (tokens : List Token) :
    (parse tokens).statements = (parseRecursively tokens).statements ∧
    ((parse tokens).errors = (parseRecursively tokens).errors ∨
      ∃ (before : List ParseError) (front rest : List Token) (e t : Token),
        (State.start tokens).ahead = front ++ e :: t :: rest ∧
        e.kind = .elseKw ∧ t.kind = .ifKw ∧
        (parse tokens).errors = before ++ [⟨rest.headD (State.start tokens).stop, .tooDeep⟩] ∧
        (parseRecursively tokens).errors = before ++ [⟨t, .tooDeep⟩]) := by
  let start := State.start tokens
  have within : start.Within start.ahead start.stop 0 := ⟨List.suffix_rfl, rfl, Nat.zero_le _⟩
  have levels : maxDepth ≤ 0 + maxDepth := Nat.le_add_left maxDepth 0
  obtain ⟨related, -⟩ := rules_track start.ahead start.stop maxDepth 0 maxDepth levels levels
  obtain ⟨statements, together⟩ := declarations_track (tracks_congruence.declarationRule related)
    (fun _ => false) start.ahead within
  refine ⟨statements, ?_⟩
  rcases together with ⟨same, -⟩ | spent
  · exact .inl (congrArg (fun s => s.errors.toList) same)
  · rcases spent.errors with same | ⟨before, t, rest, link, reported, reported'⟩
    · exact .inl (congrArg Array.toList same)
    · obtain ⟨front, e, whole, behind, keyword⟩ := link
      refine .inr ⟨before.toList, front, rest, e, t, whole, behind, keyword, ?_, ?_⟩
      · exact (congrArg Array.toList reported).trans (Array.toList_push)
      · exact (congrArg Array.toList reported').trans (Array.toList_push)

end LoxSyntax
