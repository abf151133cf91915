import LoxSyntax.Proofs.Parse.ErrorOrder
import LoxSyntax.Proofs.Parse.Pointwise

namespace LoxSyntax

namespace Parse

open Grammar
open Rule (Tries Noted)

/-- What is left out in front of the rest, from the token at which a declaration failed on. It goes
on past the first token up to a semicolon or to a token that begins a statement. -/
structure LeftOut (discarded rest : List Token) : Prop where
  plain : ∀ t ∈ discarded.tail, t.kind.beginsStatement = false
  goesOn : ∀ t ∈ discarded.dropLast, t.kind ≠ .semicolon
  ends : rest = [] ∨ rest.head?.any (·.kind.beginsStatement) = true ∨
    discarded.getLast?.any (·.kind == .semicolon) = true

theorem synchronize_leavesOut (ts : List Token) :
    ∃ discarded, ts = discarded ++ synchronize ts ∧ LeftOut discarded (synchronize ts) := by
  induction ts with
  | nil => exact ⟨[], rfl, List.forall_mem_nil _, List.forall_mem_nil _, .inl rfl⟩
  | cons t rest ih =>
    unfold synchronize
    split
    next stop =>
      have ends : rest.head?.any (·.kind.beginsStatement) = true ∨
          [t].getLast?.any (·.kind == .semicolon) = true := by
        simpa [or_comm] using stop
      exact ⟨[t], rfl, List.forall_mem_nil _, List.forall_mem_nil _, .inr ends⟩
    next goesOn =>
      obtain ⟨other, plain⟩ : t.kind ≠ .semicolon ∧
          rest.head?.any (·.kind.beginsStatement) = false := by
        simpa using goesOn
      obtain ⟨discarded, whole, left⟩ := ih
      refine ⟨t :: discarded, congrArg (t :: ·) whole, ?_⟩
      cases discarded with
      | nil =>
        rw [List.nil_append] at whole
        have ends := left.ends
        rw [← whole] at ends ⊢
        refine ⟨List.forall_mem_nil _, List.forall_mem_nil _, .inl ?_⟩
        simpa [plain] using ends
      | cons u discarded =>
        have first : u.kind.beginsStatement = false := by
          rw [whole] at plain
          exact plain
        exact ⟨List.forall_mem_cons.mpr ⟨first, left.plain⟩,
          List.forall_mem_cons.mpr ⟨other, left.goesOn⟩, left.ends⟩

/-- Recovery goes no further than behind a semicolon. -/
theorem synchronize_ne_nil (front : List Token) {semicolon : Token}
    (is : semicolon.kind = .semicolon) (last : Token) :
    synchronize (front ++ [semicolon, last]) ≠ [] := by
  intro none
  obtain ⟨discarded, whole, left⟩ := synchronize_leavesOut (front ++ [semicolon, last])
  rw [none, List.append_nil] at whole
  refine left.goesOn semicolon ?_ is
  rw [← whole]
  simp

theorem State.recover_eq {e : ParseError} (s : State) (shallow : e.problem ≠ .tooDeep) :
    s.recover e = { s.record e with ahead := synchronize s.ahead } := by
  simp only [State.recover, shallow, if_false, State.ahead_record]

/-- An error that was thrown and that the rule records is that of a declaration it tried. -/
def Accounts {α : Type} (rule : Rule α) (s : State) : Prop :=
  ∀ e ∈ (rule.after s).errors.toList, Thrown e.problem → e ∈ s.errors.toList ∨
    ∃ level d d', Tries level d rule s ∧ declarationRule (rules level) d = .error e d'

namespace Accounts

/-- A rule that records nothing. -/
theorem quiet {α : Type} {rule : Rule α} {s : State} (same : (rule.after s).errors = s.errors) :
    Accounts rule s :=
  fun _ among _ => .inl (same ▸ among)

theorem congr {α : Type} {rule : Rule α} {s : State} {rule' : Rule α} (h : Accounts rule s)
    (same : rule' s = rule s) (tries : ∀ {level d}, Tries level d rule s → Tries level d rule' s) :
    Accounts rule' s := by
  intro e among thrown
  have after : rule'.after s = rule.after s := by
    unfold Rule.after
    rw [same]
  rw [after] at among
  refine (h e among thrown).imp_right ?_
  rintro ⟨level, d, d', tried, failed⟩
  exact ⟨level, d, d', tries tried, failed⟩

theorem note {s : State} (place : Token → Token) {problem : Problem} (noted : Noted problem) :
    Accounts (Rule.note place problem) s := by
  intro e among thrown
  obtain before | rfl := State.mem_record _ among
  · exact .inl before
  · exact absurd noted thrown.1

theorem oneOf {s : State} (kinds : List TokenKind) (problem : Problem) :
    Accounts (Rule.oneOf kinds problem) s := by
  apply quiet
  by_cases among : ∃ t ∈ s.ahead.head?, t.kind ∈ kinds
  · obtain ⟨t, next, among⟩ := among
    obtain ⟨rest, ahead⟩ := List.head?_eq_some_iff.mp next
    rw [Rule.after_ok (Rule.oneOf_ok problem ahead among)]
  · push Not at among
    rw [Rule.after_error (Rule.oneOf_error problem among)]

theorem bind {α β : Type} {rule : Rule α} {s : State} {f : α → Rule β} (orderly : rule.Orderly)
    (orderly' : ∀ x, (f x).Orderly) (h : Accounts rule s)
    (h' : ∀ x s', rule s = .ok x s' → Accounts (f x) s') : Accounts (rule >>= f) s := by
  intro e among thrown
  have first (recorded : e ∈ (rule.after s).errors.toList) : e ∈ s.errors.toList ∨
      ∃ level d d', Tries level d (rule >>= f) s ∧
        declarationRule (rules level) d = .error e d' := by
    refine (h e recorded thrown).imp_right ?_
    rintro ⟨level, d, d', tried, failed⟩
    exact ⟨level, d, d', .first orderly' tried, failed⟩
  cases run : rule s with
  | error e' s' =>
    rw [Rule.after_bind_error f run] at among
    exact first among
  | ok x s' =>
    rw [Rule.after_bind f run] at among
    rcases h' x s' run e among thrown with before | ⟨level, d, d', tried, failed⟩
    · rw [← Rule.after_ok run] at before
      exact first before
    · exact .inr ⟨level, d, d', .second (orderly.extends_ok run) (orderly.live_ok run) run tried,
        failed⟩

theorem keepingDepth {α : Type} {rule : Rule α} {s : State} (h : Accounts rule s) :
    Accounts (Rule.keepingDepth rule) s := by
  intro e among thrown
  rw [Rule.after_keepingDepth] at among
  refine (h e among thrown).imp_right ?_
  rintro ⟨level, d, d', tried, failed⟩
  exact ⟨level, d, d', .keepingDepth tried, failed⟩

end Accounts

/-- An error that was thrown in a loop over declarations is that of one it tried. -/
theorem declared_accounts {level n : Nat} {closes : TokenKind → Bool} {s s' : State}
    {body : List Stmt}
    (each : FromReady (fun _ => True) (fun _ _ _ => Accounts) (.phrase .declaration) Rule.anything
      Stmt (declarationRule (rules level))) (h : Declared (rules level) closes s body s' n)
    (live : s.ahead ≠ [] → s.halted = false) {e : ParseError} (among : e ∈ s'.errors.toList)
    (thrown : Thrown e.problem) : e ∈ s.errors.toList ∨
      ∃ level' d d', TriedFrom level closes s level' d ∧
        declarationRule (rules level') d = .error e d' := by
  induction h with
  | stay => exact .inl among
  | @next s s' t body n next stays others ih =>
    have live' := live (Tries.ne_nil_of_next next)
    have one : Declared (rules level) closes s _ _ 1 := .next next stays (.stay _)
    rcases ih (fun more => (one.goesOn live' more).live) among with before |
      ⟨level', d, d', tried, failed⟩
    · cases run : declarationRule (rules level) s with
      | ok a s'' =>
        rw [declaration_of_ok run] at before
        refine (each.holds live' trivial e (by rwa [Rule.after_ok run]) thrown).imp_right ?_
        rintro ⟨level', d, d', tried, failed⟩
        exact ⟨level', d, d', .inside (.stay s) next stays tried, failed⟩
      | error e' s'' =>
        rw [declaration_of_error run] at before
        rcases mem_recover before with before | rfl
        · refine (each.holds live' trivial e (by rwa [Rule.after_error run]) thrown).imp_right ?_
          rintro ⟨level', d, d', tried, failed⟩
          exact ⟨level', d, d', .inside (.stay s) next stays tried, failed⟩
        · exact .inr ⟨level, s, s'', .outermost (.stay s) next stays, run⟩
    · exact .inr ⟨level', d, d', tried.later next stays, failed⟩

theorem block_accounts {level : Nat} {s : State}
    (each : FromReady (fun _ => True) (fun _ _ _ => Accounts) (.phrase .declaration) Rule.anything
      Stmt (declarationRule (rules level))) (live : s.halted = false) :
    Accounts (block (rules level)) s := by
  intro e among thrown
  obtain ⟨body, n, t, read, outcome⟩ := block_outcome level s
  have recorded : e ∈ t.errors.toList := by
    rcases outcome with ⟨brace, rest, -, -, run⟩ | ⟨-, run⟩
    · rwa [Rule.after_ok run] at among
    · rwa [Rule.after_error run] at among
  refine (declared_accounts each read (fun _ => live) recorded thrown).imp_right ?_
  rintro ⟨level', d, d', tried, failed⟩
  exact ⟨level', d, d', tried.tries.ofBlock, failed⟩

theorem accounts_pointwise : Pointwise (fun _ => True) fun _ _ _ => Accounts where
  stays _ := trivial
  widen h _ := h
  congr := .congr
  still run _ _ errors _ _ := .quiet (by rw [Rule.after_ok run, errors])
  limit run _ := .quiet (by rw [Rule.after_error run])
  note place _ noted _ _ _ := .note place noted
  oneOf _ _ _ _ := .oneOf _ _
  bind _ orderly orderly' h h' _ _ :=
    .bind orderly orderly' h fun x s' run => h' x s' run trivial
  keepingDepth := .keepingDepth
  block each _ live _ := block_accounts each live

/-- Every error that was thrown, and not for the nesting, is that of a declaration that was
tried. -/
theorem thrown_tried {tokens : List Token} {e : ParseError} (among : e ∈ (parse tokens).errors)
    (thrown : Thrown e.problem) :
    ∃ level d s', TriedIn tokens level d ∧ declarationRule (rules level) d = .error e s' := by
  obtain ⟨n, read, -⟩ := exists_declared maxDepth (fun _ => false) (State.start tokens).ahead
    (State.start tokens) (Nat.le_refl _)
  have descent := accounts_pointwise.descent
  have each := descent.declarationRule (descent.descends maxDepth)
  exact (declared_accounts each read (fun _ => rfl) among thrown).resolve_left List.not_mem_nil

end Parse

open Parse

/-- The errors that are thrown are those of the declarations that fail. A declaration that fails,
and not for the nesting, is recovered from behind the token at which it failed. What is left out
behind that one token holds none that begins a statement. The failure is reported, and where the
block does not end, the next declaration is read from there, and what it reports stays reported. -/
theorem parse_recovers (tokens : List Token) :
    (∀ e ∈ (parse tokens).errors, Thrown e.problem →
      ∃ level d s', TriedIn tokens level d ∧ declarationRule (rules level) d = .error e s') ∧
    ∀ {level d s' e}, TriedIn tokens level d → declarationRule (rules level) d = .error e s' →
      e.problem ≠ .tooDeep →
      let resumed := (declaration (rules level) d).2
      e.token = s'.current ∧
      (∃ discarded, s'.ahead = discarded ++ resumed.ahead ∧ LeftOut discarded resumed.ahead) ∧
      (s'.halted = false → e ∈ (parse tokens).errors) ∧
      ∀ t, resumed.ahead.head? = some t → t.kind ≠ .rightBrace →
        TriedIn tokens level resumed ∧
          (declaration (rules level) resumed).2.errors.toList <+: (parse tokens).errors := by
  refine ⟨fun e among thrown => thrown_tried among thrown, ?_⟩
  intro level d s' e tried failed shallow resumed
  have recovered : resumed = s'.recover e := congrArg Prod.snd (declaration_of_error failed)
  have reported : resumed.errors.toList <+: (parse tokens).errors := tried.errors_prefix
  rw [State.recover_eq s' shallow] at recovered
  refine ⟨(declarationRule_records (rules_ordered level)).fails failed, ?_, fun live => ?_,
    fun t next stays => ?_⟩
  · rw [recovered]
    exact synchronize_leavesOut s'.ahead
  · apply reported.subset
    rw [recovered]
    simp [State.errors_record e live]
  · have further : TriedIn tokens level resumed := tried.next next stays
    exact ⟨further, further.errors_prefix⟩

theorem parse_recovers_doubledPlus :
    TriedIn doubledPlus maxDepth (State.start doubledPlus) ∧
      ∃ e s', declarationRule (rules maxDepth) (State.start doubledPlus) = .error e s' ∧
        e.problem ≠ .tooDeep ∧ e ∈ (parse doubledPlus).errors ∧
        TriedIn doubledPlus maxDepth behindDoubledPlus := by
  have tried : TriedIn doubledPlus maxDepth (State.start doubledPlus) :=
    .outermost (t := ⟨.number, "1", none, 1⟩) (.stay _) rfl rfl
  have failed : declarationRule (rules maxDepth) (State.start doubledPlus) =
      .error ⟨⟨.plus, "+", none, 1⟩, .noExpression⟩
        ⟨(State.start doubledPlus).ahead.drop 2, .eof 2, 0, false, #[]⟩ := rfl
  have recovered := (parse_recovers doubledPlus).2 tried failed nofun
  exact ⟨tried, _, _, failed, nofun, recovered.2.2.1 rfl,
    (recovered.2.2.2 ⟨.printKw, "print", none, 2⟩ (by decide +kernel) nofun).1⟩

/-- A variable without a value or a semicolon, and a statement behind it. -/
def valuelessVar : List Token :=
  [⟨.varKw, "var", none, 1⟩, ⟨.identifier, "x", none, 1⟩, ⟨.equal, "=", none, 1⟩,
    ⟨.printKw, "print", none, 2⟩, ⟨.number, "1", none, 2⟩, ⟨.semicolon, ";", none, 2⟩, .eof 2]

/-- The token at which the declaration fails begins a statement, and is left out with all of it. -/
theorem parse_recovers_valuelessVar :
    TokenKind.printKw.beginsStatement = true ∧
      declarationRule (rules maxDepth) (State.start valuelessVar) =
        .error ⟨⟨.printKw, "print", none, 2⟩, .noExpression⟩
          ⟨(State.start valuelessVar).ahead.drop 3, .eof 2, 0, false, #[]⟩ ∧
      (declaration (rules maxDepth) (State.start valuelessVar)).2.ahead = [] ∧
      parse valuelessVar = ⟨[], [⟨⟨.printKw, "print", none, 2⟩, .noExpression⟩]⟩ := by
  exact ⟨rfl, rfl, rfl, rfl⟩

end LoxSyntax
