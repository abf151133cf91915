import LoxSyntax.Proofs.Parse.Pointwise
import LoxSyntax.Proofs.Parse.Recovery

namespace LoxSyntax

namespace Parse

open Grammar
open Ebnf (line)
open Rule (Tries Noted)

/-- Every such phrase opens so many more braces than it closes. -/
def Nets (e : Ebnf) (c : Int) : Prop := ∀ w, Derives e w → total brace w = c

theorem Nets.first {a b : Ebnf} {c c' : Int} (h : Nets (.seq a b) c) (h' : Nets b c')
    (some : Productive b) : Nets a (c - c') := by
  intro u first
  obtain ⟨v, second⟩ := some
  have both := h (u ++ v) (.seq first second)
  rw [total_append, h' v second] at both
  omega

theorem nets_of_closing {e : Ebnf} (closes : Rule.closing e = true) :
    ∃ c, Nets e c ∧ c ≤ 0 ∧ Productive e := by
  obtain ⟨-, some⟩ := (Bool.and_eq_true _ _).mp closes
  cases even : e.braces with
  | none => simp [even] at some
  | some c => exact ⟨c, fun _ h => h.braces even, by simpa [even] using some, .of_braces even⟩

namespace State

/-- No error is recorded for the nesting. -/
def Flat (s : State) : Prop := ∀ e ∈ s.errors.toList, e.problem ≠ .tooDeep

/-- No error is recorded for a block. -/
def Closed (s : State) : Prop := ∀ e ∈ s.errors.toList, e.problem ≠ unclosed

theorem Closed.push {s s' : State} {e : ParseError} (closed : s.Closed)
    (grown : s'.errors = s.errors.push e) (other : e.problem ≠ unclosed) : s'.Closed := by
  intro e' among
  rw [grown, Array.toList_push] at among
  rcases List.mem_append.mp among with before | new
  · exact closed e' before
  · rw [List.mem_singleton.mp new]
    exact other

theorem Extends.flat {s s' : State} (h : s.Extends s') (flat : s'.Flat) : s.Flat :=
  fun e among => flat e (h.errors.subset among)

end State

/-- A declaration that fails, and not for the nesting, closes as many braces as it opens, together
with what is left out behind it. -/
def KeepsBraces (level : Nat) (d : State) : Prop :=
  ∀ e d', declarationRule (rules level) d = .error e d' → e.problem ≠ .tooDeep →
    tally brace (declaration (rules level) d).2.ahead = tally brace d.ahead

/-- The rule opens so many more braces than it closes, and misses none that closes a block. -/
structure Tidy {α : Type} (c : Int) (rule : Rule α) (s : State) : Prop where
  reads {x : α} {s' : State} (run : rule s = .ok x s') :
    tally brace s.ahead = c + tally brace s'.ahead
  fails {e : ParseError} {s' : State} (run : rule s = .error e s') : e.problem ≠ unclosed
  closed : (rule.after s).Closed

/-- Where all that is tried keeps the braces, and enough of them are closed ahead, the rule is tidy
unless the parse is given up for the nesting. -/
def Tidies {α : Type} (e : Ebnf) (rule : Rule α) (s : State) : Prop :=
  ∀ c, Nets e c → tally brace s.ahead ≤ c →
    (∀ level d, Tries level d rule s → KeepsBraces level d) → (rule.after s).Flat → Tidy c rule s

namespace Tidies

theorem mono {α : Type} {e e' : Ebnf} {rule : Rule α} {s : State} (h : Tidies e rule s)
    (less : ∀ w, Derives e w → Derives e' w) : Tidies e' rule s :=
  fun c even => h c fun w derives => even w (less w derives)

theorem congr {α : Type} {e : Ebnf} {rule : Rule α} {s : State} {rule' : Rule α}
    (h : Tidies e rule s) (same : rule' s = rule s)
    (tries : ∀ {level d}, Tries level d rule s → Tries level d rule' s) : Tidies e rule' s := by
  have after : rule'.after s = rule.after s := by
    unfold Rule.after
    rw [same]
  intro c even within keeps flat
  rw [after] at flat
  have tidy := h c even within (fun level d tried => keeps level d (tries tried)) flat
  exact ⟨fun run => tidy.reads (same ▸ run), fun run => tidy.fails (same ▸ run),
    after ▸ tidy.closed⟩

/-- A rule that uses up nothing. -/
theorem still {α : Type} {e : Ebnf} {rule : Rule α} {s : State} {x : α} {s' : State}
    (run : rule s = .ok x s') (ahead : s'.ahead = s.ahead) (closed : s'.Closed)
    (null : Derives e []) : Tidies e rule s := by
  intro c even _ _ _
  have none : 0 = c := even [] null
  refine ⟨fun run' => ?_, fun run' => ?_, by rwa [Rule.after_ok run]⟩
  · cases run.symm.trans run'
    rw [ahead, ← none, Int.zero_add]
  · cases run.symm.trans run'

theorem fails {α : Type} {e : Ebnf} {rule : Rule α} {s : State} {error : ParseError}
    (run : rule s = .error error s) (closed : s.Closed) (other : error.problem ≠ unclosed) :
    Tidies e rule s := by
  intro c even _ _ _
  refine ⟨fun run' => ?_, fun run' => ?_, by rwa [Rule.after_error run]⟩
  · cases run.symm.trans run'
  · cases run.symm.trans run'
    exact other

theorem bind {α β : Type} {a b : Ebnf} {rule : Rule α} {s : State} {f : α → Rule β}
    (orderly : rule.Orderly) (orderly' : ∀ x, (f x).Orderly) (h : Tidies a rule s)
    (h' : ∀ x s', rule s = .ok x s' → s'.Closed → Tidies b (f x) s')
    (closes : Rule.closing b = true) : Tidies (.seq a b) (rule >>= f) s := by
  intro c even within keeps flat
  obtain ⟨c', even', closing, some⟩ := nets_of_closing closes
  have first := h (c - c') (even.first even' some) (by omega)
    fun level d tried => keeps level d (.first orderly' tried)
  cases run : rule s with
  | error error s' =>
    rw [Rule.after_bind_error f run] at flat
    have tidy := first flat
    refine ⟨fun run' => ?_, fun run' => ?_, ?_⟩
    · simp [Rule.bind_error f run] at run'
    · rw [Rule.bind_error f run] at run'
      cases run'
      exact tidy.fails run
    · rw [Rule.after_bind_error f run]
      exact tidy.closed
  | ok x s' =>
    rw [Rule.after_bind f run] at flat
    have tidy := first (by
      rw [Rule.after_ok run]
      exact ((orderly' x).moves s').flat flat)
    have closed := tidy.closed
    rw [Rule.after_ok run] at closed
    have used := tidy.reads run
    have tidy' := h' x s' run closed c' even' (by omega)
      (fun level d tried => keeps level d
        (.second (orderly.extends_ok run) (orderly.live_ok run) run tried)) flat
    refine ⟨fun run' => ?_, fun run' => ?_, by rw [Rule.after_bind f run]; exact tidy'.closed⟩
    · rw [Rule.bind_ok f run] at run'
      have used' := tidy'.reads run'
      omega
    · rw [Rule.bind_ok f run] at run'
      exact tidy'.fails run'

theorem note {s : State} (place : Token → Token) {problem : Problem} (noted : Noted problem)
    (live : s.halted = false) (closed : s.Closed) : Tidies .empty (Rule.note place problem) s := by
  have other : problem ≠ unclosed := by
    rcases noted with rfl | rfl | rfl <;> simp
  have recorded : s.record ⟨place s.current, problem⟩ =
      { s with errors := s.errors.push ⟨place s.current, problem⟩ } := by
    simp [State.record, live]
  have run : Rule.note place problem s =
      .ok () { s with errors := s.errors.push ⟨place s.current, problem⟩ } :=
    congrArg (EStateM.Result.ok ()) recorded
  exact still run rfl (closed.push rfl other) .empty

theorem oneOf {s : State} {kinds : List TokenKind} {problem : Problem} (other : problem ≠ unclosed)
    (closed : s.Closed) : Tidies (.mark kinds) (Rule.oneOf kinds problem) s := by
  by_cases among : ∃ t ∈ s.ahead.head?, t.kind ∈ kinds
  · obtain ⟨t, next, among⟩ := among
    obtain ⟨rest, ahead⟩ := List.head?_eq_some_iff.mp next
    have run := Rule.oneOf_ok problem ahead among
    intro c even _ _ _
    have one : brace t.kind = c := by simpa using even [t.kind] (.mark among)
    refine ⟨fun run' => ?_, fun run' => ?_, by rwa [Rule.after_ok run]⟩
    · cases run.symm.trans run'
      rw [ahead, tally_cons, one]
    · cases run.symm.trans run'
  · push Not at among
    exact .fails (Rule.oneOf_error problem among) closed other

theorem keepingDepth {α : Type} {e : Ebnf} {rule : Rule α} {s : State} (h : Tidies e rule s) :
    Tidies e (Rule.keepingDepth rule) s := by
  intro c even within keeps flat
  rw [Rule.after_keepingDepth] at flat
  have tidy := h c even within (fun level d tried => keeps level d (.keepingDepth tried)) flat
  refine ⟨fun run => ?_, fun run => ?_, ?_⟩
  · obtain ⟨t, inner, rfl⟩ := Rule.keepingDepth_eq_ok run
    have used : tally brace s.ahead = c + tally brace t.ahead := tidy.reads inner
    exact used
  · obtain ⟨t, inner, rfl⟩ := Rule.keepingDepth_eq_error run
    exact tidy.fails inner
  · rw [Rule.after_keepingDepth]
    exact tidy.closed

end Tidies

/-- The rule is tidy, wherever no error is recorded for a block. -/
abbrev Balances := FromReady State.Closed fun _ e _ => Tidies e

/-- Where nothing is recorded for the nesting, the parse goes on. -/
theorem Rule.Orderly.live_of_flat {α : Type} {rule : Rule α} {s : State} (orderly : rule.Orderly)
    (live : s.halted = false) (flat : (rule.after s).Flat) : (rule.after s).halted = false := by
  have outcome := orderly.live s live
  cases run : rule s with
  | ok a s' =>
    rw [run] at outcome
    rw [Rule.after_ok run]
    exact outcome.live
  | error e s' =>
    rw [run] at outcome
    rw [Rule.after_error run] at flat ⊢
    rcases outcome with on | ⟨errors, -, given⟩
    · exact on.live
    · obtain ⟨t, reported⟩ := given.reported
      exact absurd rfl (flat ⟨t, .tooDeep⟩ (by simp [reported]))

/-- The declaration closes as many braces as it opens, the parse goes on behind it, and no block in
it misses its brace. -/
structure Passes (s s' : State) : Prop where
  braces : tally brace s'.ahead = tally brace s.ahead
  live : s'.halted = false
  closed : s'.Closed

theorem declaration_passes {level : Nat} {s : State}
    (each : Balances (.phrase .declaration) Rule.anything Stmt (declarationRule (rules level)))
    (live : s.halted = false) (closed : s.Closed) (within : tally brace s.ahead ≤ 0)
    (keeps : KeepsBraces level s)
    (inside : ∀ level' d, Tries level' d (declarationRule (rules level)) s → KeepsBraces level' d)
    (flat : (declaration (rules level) s).2.Flat) : Passes s (declaration (rules level) s).2 := by
  have flat' := (declaration_after (rules level) s).flat flat
  have tidy := each.holds live closed 0 (fun _ h => h.braces rfl) within inside flat'
  have live' := each.orderly.live_of_flat live flat'
  cases run : declarationRule (rules level) s with
  | ok a s' =>
    have used := tidy.reads run
    rw [Int.zero_add] at used
    have closed' := tidy.closed
    rw [Rule.after_ok run] at live' closed'
    rw [declaration_of_ok run]
    exact ⟨used.symm, live', closed'⟩
  | error e s' =>
    have recovered : (declaration (rules level) s).2 = s'.recover e :=
      congrArg Prod.snd (declaration_of_error run)
    rw [Rule.after_error run] at live'
    have errors := errors_recover live' e
    have shallow : e.problem ≠ .tooDeep := by
      rw [recovered] at flat
      exact flat e (by simp [errors])
    have closed' : s'.Closed := Rule.after_error run ▸ tidy.closed
    refine ⟨keeps e s' run shallow, ?_, ?_⟩
    · rw [recovered, State.recover_eq s' shallow]
      exact (s'.halted_record e).trans live'
    · rw [recovered]
      exact closed'.push errors (tidy.fails run)

theorem declared_passes {level n : Nat} {closes : TokenKind → Bool} {s s' : State}
    {body : List Stmt}
    (each : Balances (.phrase .declaration) Rule.anything Stmt (declarationRule (rules level)))
    (h : Declared (rules level) closes s body s' n) (live : s.halted = false) (closed : s.Closed)
    (within : tally brace s.ahead ≤ 0)
    (keeps : ∀ level' d, TriedFrom level closes s level' d → KeepsBraces level' d)
    (flat : s'.Flat) : Passes s s' := by
  induction h with
  | stay => exact ⟨rfl, live, closed⟩
  | @next s s' t body n next stays others ih =>
    have first := declaration_passes each live closed within
      (keeps level s (.outermost (.stay s) next stays))
      (fun level' d tried => keeps level' d (.inside (.stay s) next stays tried))
      (others.extends.flat flat)
    have second := ih first.live first.closed (by rw [first.braces]; exact within)
      (fun level' d tried => keeps level' d (tried.later next stays)) flat
    exact ⟨second.braces.trans first.braces, second.live, second.closed⟩

/-- Where enough braces are closed ahead, and those inside are kept, a block comes to its own. -/
theorem block_tidy {level : Nat} {s : State}
    (each : Balances (.phrase .declaration) Rule.anything Stmt (declarationRule (rules level)))
    (live : s.halted = false) (closed : s.Closed) (within : tally brace s.ahead ≤ -1)
    (keeps : ∀ level' d, Tries level' d (blockBody (rules level)) s → KeepsBraces level' d)
    (flat : ((Parse.block (rules level)).after s).Flat) :
    Tidy (-1) (Parse.block (rules level)) s := by
  obtain ⟨body, n, t, read, outcome⟩ := block_outcome level s
  have flat' : t.Flat := by
    rcases outcome with ⟨brace, rest, -, -, run⟩ | ⟨-, run⟩
    · rwa [Rule.after_ok run] at flat
    · rwa [Rule.after_error run] at flat
  have passes := declared_passes each read live closed (by omega)
    (fun level' d tried => keeps level' d tried.tries) flat'
  have braces := passes.braces
  rcases outcome with ⟨brace, rest, ahead, isBrace, run⟩ | ⟨ahead, -⟩
  · refine ⟨fun run' => ?_, fun run' => ?_, ?_⟩
    · cases run.symm.trans run'
      rw [ahead, tally_cons, isBrace] at braces
      exact braces.symm
    · cases run.symm.trans run'
    · rw [Rule.after_ok run]
      exact passes.closed
  · rw [ahead, tally_nil] at braces
    omega

theorem block_tidies {level : Nat} {s : State}
    (each : Balances (.phrase .declaration) Rule.anything Stmt (declarationRule (rules level)))
    (live : s.halted = false) (closed : s.Closed) :
    Tidies (line [.phrase .declarations, .mark [.rightBrace]]) (Parse.block (rules level)) s := by
  intro c even within keeps flat
  obtain rfl : -1 = c := by
    have none : Derives (.phrase .declarations) [] := .phrase .none
    have one : Derives (line [.phrase .declarations, .mark [.rightBrace]]) ([] ++ [.rightBrace]) :=
      none.seq (derives_seq_empty.mpr (.mark (List.mem_singleton_self _)))
    simpa [brace] using even _ one
  exact block_tidy each live closed within (fun level' d tried => keeps level' d tried.ofBlock) flat

theorem tidies_pointwise : Pointwise State.Closed fun _ e _ => Tidies e where
  stays closed := closed
  widen h narrows := h.mono narrows.1
  congr := .congr
  still run closed ahead _ null _ := .still run ahead closed null
  limit run closed := .fails run closed (by simp)
  note place _ noted _ := .note place noted
  oneOf _ other _ := .oneOf other
  bind _ orderly orderly' h h' _ closes := .bind orderly orderly' h h' closes
  keepingDepth := .keepingDepth
  block each _ := block_tidies each

/-- All braces are closed, and nowhere more than were opened. -/
structure Balanced (ts : List Token) : Prop where
  all : tally brace ts = 0
  within {front : List Token} (h : front <+: ts) : 0 ≤ tally brace front

/-- In front of a block, which is all there is. -/
def State.atBlock (opening : Token) (body : List Token) (closing stop : Token) : State where
  ahead := opening :: (body ++ [closing])
  stop := stop
  depth := 0
  halted := false
  errors := #[]

/-- Behind the brace that opens the block. -/
def State.insideBlock (body : List Token) (closing stop : Token) : State where
  ahead := body ++ [closing]
  stop := stop
  depth := 1
  halted := false
  errors := #[]

/-- Only the last brace closes what is open in front of a balanced list. -/
theorem Balanced.last {body : List Token} {closing : Token} (balanced : Balanced body)
    (closes : closing.kind = .rightBrace) {t : Token} {rest : List Token}
    (suffix : t :: rest <:+ body ++ [closing]) (even : tally brace rest = 0) :
    t :: rest = [closing] := by
  obtain none | ⟨front, whole, inside⟩ := List.suffix_concat_iff.mp suffix
  · cases none
  · cases front with
    | nil => exact whole
    | cons u front =>
      rw [List.cons_append] at whole
      obtain ⟨rfl, rfl⟩ := List.cons.inj whole
      obtain ⟨before, rfl⟩ := inside
      have opened : 0 ≤ tally brace (before ++ [t]) := balanced.within ⟨front, by simp⟩
      have all := balanced.all
      have ends : brace closing.kind = -1 := by rw [closes]; rfl
      simp only [tally_append, tally_cons, tally_nil] at opened all even
      omega

theorem start_block {body : List Token} {opening closing stop : Token}
    (opens : opening.kind = .leftBrace) (closes : closing.kind = .rightBrace)
    (ends : stop.kind = .eof) (inside : ∀ t ∈ body, t.kind ≠ .eof) :
    State.start (opening :: (body ++ [closing, stop])) =
      .atBlock opening body closing stop := by
  have all : ∀ t ∈ opening :: (body ++ [closing]), t.kind ≠ .eof := by
    intro t among
    rcases List.mem_cons.mp among with rfl | among
    · simp [opens]
    · rcases List.mem_append.mp among with among | among
      · exact inside t among
      · simp [List.mem_singleton.mp among, closes]
  have closed := State.start_closed all ends []
  rwa [List.cons_append, List.append_assoc] at closed

/-- A brace opens a block, which is read a level further in. -/
theorem declarationRule_brace {body : List Token} {opening closing stop : Token}
    (opens : opening.kind = .leftBrace) :
    declarationRule (rules maxDepth) (State.atBlock opening body closing stop) =
      atDepth 0 ((Stmt.block <$> block (rules (maxDepth - 1)))
        (State.insideBlock body closing stop)) := by
  obtain ⟨kind, lexeme, literal, line⟩ := opening
  dsimp only at opens
  subst opens
  have nested : declarationRule (rules maxDepth)
      (.atBlock ⟨.leftBrace, lexeme, literal, line⟩ body closing stop) =
      Rule.nested (statementBody (rules (maxDepth - 1)))
        (.atBlock ⟨.leftBrace, lexeme, literal, line⟩ body closing stop) := rfl
  rw [nested, nested_eq]
  rfl

theorem after_brace {body : List Token} {opening closing stop : Token}
    (opens : opening.kind = .leftBrace) :
    (declarationRule (rules maxDepth)).after
        (State.atBlock opening body closing stop) =
      { (block (rules (maxDepth - 1))).after (State.insideBlock body closing stop) with
        depth := 0 } := by
  unfold Rule.after
  rw [declarationRule_brace opens, map_eq_pure_bind]
  cases run : block (rules (maxDepth - 1)) (State.insideBlock body closing stop) with
  | ok declared t => rw [Rule.bind_ok _ run]; rfl
  | error e t => rw [Rule.bind_error _ run]; rfl

/-- Where the closing brace is the last token, the block is the whole program. -/
theorem parse_brace {body : List Token} {opening closing stop : Token}
    (opens : opening.kind = .leftBrace)
    (start : State.start (opening :: (body ++ [closing, stop])) =
      .atBlock opening body closing stop) {declared : List Stmt} {t : State}
    (run : block (rules (maxDepth - 1)) (State.insideBlock body closing stop) =
      .ok declared { t with ahead := [] }) :
    parse (opening :: (body ++ [closing, stop])) = ⟨[.block declared], t.errors.toList⟩ := by
  have first : declaration (rules maxDepth) (State.atBlock opening body closing stop) =
      (some (.block declared), { t with ahead := [], depth := 0 }) := by
    apply declaration_of_ok
    rw [declarationRule_brace opens, map_eq_pure_bind, Rule.bind_ok _ run]
    rfl
  have one : Declared (rules maxDepth) (fun _ => false) _ _ _ 1 :=
    .next (t := opening) (s := .atBlock opening body closing stop) rfl rfl (.stay _)
  have whole := one.declarations_eq
  rw [first] at whole
  simp [parse, start, whole, declarations]

/-- What is recorded for the block stays recorded. -/
theorem block_recorded {body : List Token} {opening closing stop : Token}
    (opens : opening.kind = .leftBrace)
    (start : State.start (opening :: (body ++ [closing, stop])) =
      .atBlock opening body closing stop) :
    ((block (rules (maxDepth - 1))).after (State.insideBlock body closing stop)).errors.toList <+:
      (parse (opening :: (body ++ [closing, stop]))).errors := by
  have tried : TriedIn (opening :: (body ++ [closing, stop])) maxDepth
      (.atBlock opening body closing stop) := by
    rw [← start]
    exact .outermost (.stay _) (by rw [start]; rfl) rfl
  have after := declaration_after (rules maxDepth) (.atBlock opening body closing stop)
  rw [after_brace opens] at after
  exact after.errors.trans tried.errors_prefix

theorem balanced_of_plain {body : List Token} (plain : ∀ t ∈ body, brace t.kind = 0) :
    Balanced body :=
  ⟨tally_plain plain, fun front =>
    Int.le_of_eq (tally_plain fun t among => plain t (front.subset among)).symm⟩

theorem tally_suffix {body : List Token} {closing : Token} (plain : ∀ t ∈ body, brace t.kind = 0)
    (closes : closing.kind = .rightBrace) {ts : List Token} (suffix : ts <:+ body ++ [closing])
    (more : ts ≠ []) : tally brace ts = -1 := by
  obtain ⟨front, rfl, inside⟩ := (List.suffix_concat_iff.mp suffix).resolve_left more
  have none : tally brace front = 0 := tally_plain fun t among => plain t (inside.subset among)
  simp [none, closes, brace]

/-- In front of a semicolon and a last token, recovery leaves the last one. -/
theorem synchronize_leaves {body : List Token} {closing semicolon : Token} {s : State}
    (ahead : s.ahead <:+ body ++ [closing]) (ends : body.getLast? = some semicolon)
    (isSemicolon : semicolon.kind = .semicolon) (away : s.current ≠ closing ∧ s.current ≠ s.stop) :
    synchronize s.ahead ≠ [] := by
  obtain none | ⟨front, whole, inside⟩ := List.suffix_concat_iff.mp ahead
  · exact absurd (by rw [State.current, none]; rfl) away.2
  · rcases List.eq_nil_or_concat front with rfl | ⟨front, u, rfl⟩
    · exact absurd (by rw [State.current, whole]; rfl) away.1
    · obtain ⟨before, rfl⟩ := inside
      obtain rfl : u = semicolon := by simpa [← List.append_assoc] using ends
      rw [whole]
      simpa using synchronize_ne_nil front isSemicolon closing

/-- In a body without braces that ends with a semicolon, recovery keeps the brace behind it, unless
something fails there. -/
theorem keepsBraces_of_plain {body : List Token} {opening closing stop : Token}
    (plain : ∀ t ∈ body, brace t.kind = 0) {semicolon : Token} (opens : opening.kind = .leftBrace)
    (closes : closing.kind = .rightBrace)
    (start : State.start (opening :: (body ++ [closing, stop])) =
      .atBlock opening body closing stop) (ends : body.getLast? = some semicolon)
    (isSemicolon : semicolon.kind = .semicolon)
    (shallow : ∀ e ∈ (parse (opening :: (body ++ [closing, stop]))).errors, e.problem ≠ .tooDeep)
    (away : ∀ e ∈ (parse (opening :: (body ++ [closing, stop]))).errors,
      e.token ≠ closing ∧ e.token ≠ stop) {level : Nat} {d : State}
    (tried : Rule.Tries level d (blockBody (rules (maxDepth - 1)))
      (State.insideBlock body closing stop)) : KeepsBraces level d := by
  intro e d' failed other
  have orderly := Rule.declarationRule_orderly level
  have moved : (State.insideBlock body closing stop).Extends d' :=
    tried.extends_.trans (orderly.extends_error failed)
  have recorded : (declaration (rules level) d).2.errors.toList <+:
      (parse (opening :: (body ++ [closing, stop]))).errors :=
    tried.ofBlock.kept.errors.trans (block_recorded opens start)
  have live : d'.halted = false := by
    have on := orderly.live_of_flat (tried.live rfl) fun e' among =>
      shallow e' (((declaration_after (rules level) d).errors.trans recorded).subset among)
    rwa [Rule.after_error failed] at on
  rw [declaration_of_error failed] at recorded ⊢
  have reported : e ∈ (parse (opening :: (body ++ [closing, stop]))).errors :=
    recorded.subset (by rw [errors_recover live]; simp)
  have place : e.token = d'.current := (declarationRule_records (rules_ordered level)).fails failed
  have left : synchronize d'.ahead ≠ [] := by
    refine synchronize_leaves moved.ahead ends isSemicolon ?_
    rw [← place, moved.stop]
    exact away e reported
  rw [State.recover_eq d' other]
  have suffix := (synchronize_suffix d'.ahead).trans moved.ahead
  exact (tally_suffix plain closes suffix left).trans
    (tally_suffix plain closes tried.extends_.ahead tried.more).symm

end Parse

open Parse Grammar

/-- A block is read up to its own closing brace, as long as the declarations in it that fail keep
the braces: no brace is missed, and the block is all there is, of what was declared in it. -/
theorem parse_block {body : List Token} {opening closing stop : Token}
    (opens : opening.kind = .leftBrace) (closes : closing.kind = .rightBrace)
    (ends : stop.kind = .eof) (inside : ∀ t ∈ body, t.kind ≠ .eof) (balanced : Balanced body)
    (shallow : ∀ e ∈ (parse (opening :: (body ++ [closing, stop]))).errors, e.problem ≠ .tooDeep)
    (keeps : ∀ level d, Rule.Tries level d (blockBody (rules (maxDepth - 1)))
      (State.insideBlock body closing stop) → KeepsBraces level d) :
    (∀ e ∈ (parse (opening :: (body ++ [closing, stop]))).errors,
      e.problem ≠ .noMark .rightBrace .afterBlock) ∧
    ∃ declared n s', Declared (rules (maxDepth - 1)) (· == .rightBrace)
        (State.insideBlock body closing stop) declared s' n ∧ s'.ahead = [closing] ∧
      parse (opening :: (body ++ [closing, stop])) = ⟨[.block declared], s'.errors.toList⟩ := by
  have start := start_block opens closes ends inside
  have descent := tidies_pointwise.descent
  have each := descent.declarationRule (descent.descends (maxDepth - 1))
  have flat : ((block (rules (maxDepth - 1))).after (State.insideBlock body closing stop)).Flat :=
    fun e among => shallow e ((block_recorded opens start).subset among)
  have within : tally brace (body ++ [closing]) = -1 := by
    simp [balanced.all, closes, brace]
  have closed : (State.insideBlock body closing stop).Closed := by
    simp [State.Closed, State.insideBlock]
  have tidy := block_tidy each rfl closed (Int.le_of_eq within) keeps flat
  obtain ⟨declared, n, t, read, outcome⟩ := block_outcome (maxDepth - 1)
    (State.insideBlock body closing stop)
  rcases outcome with ⟨last, rest, ahead, -, run⟩ | ⟨-, run⟩
  · have even : tally brace rest = 0 := by
      have used : tally brace (body ++ [closing]) = -1 + tally brace rest := tidy.reads run
      omega
    obtain ⟨rfl, rfl⟩ : last = closing ∧ rest = [] := by
      have suffix : last :: rest <:+ body ++ [closing] := ahead ▸ read.extends.ahead
      simpa using balanced.last closes suffix even
    have whole := parse_brace opens start run
    have done := tidy.closed
    rw [Rule.after_ok run] at done
    rw [whole]
    exact ⟨done, declared, n, t, read, ahead, rfl⟩
  · exact absurd rfl (tidy.fails run)

/-- A sum without a value, and a statement behind it. -/
def doubledPlusBody : List Token :=
  [⟨.number, "1", none, 1⟩, ⟨.plus, "+", none, 1⟩, ⟨.plus, "+", none, 2⟩,
    ⟨.semicolon, ";", none, 2⟩, ⟨.printKw, "print", none, 2⟩, ⟨.number, "3", none, 2⟩,
    ⟨.semicolon, ";", none, 2⟩]

theorem parse_block_doubledPlus :
    Balanced doubledPlusBody ∧
      ∃ declared n s', Declared (rules (maxDepth - 1)) (· == .rightBrace)
          (State.insideBlock doubledPlusBody ⟨.rightBrace, "\x7d", none, 3⟩ (.eof 3)) declared
          s' n ∧
        s'.ahead = [⟨.rightBrace, "\x7d", none, 3⟩] ∧
        s'.errors.toList = [⟨⟨.plus, "+", none, 2⟩, .noExpression⟩] := by
  have plain : ∀ t ∈ doubledPlusBody, brace t.kind = 0 := by decide
  have errors : (parse (⟨.leftBrace, "\x7b", none, 1⟩ ::
      (doubledPlusBody ++ [⟨.rightBrace, "\x7d", none, 3⟩, .eof 3]))).errors =
      [⟨⟨.plus, "+", none, 2⟩, .noExpression⟩] := by decide +kernel
  have balanced := balanced_of_plain plain
  have shallow : ∀ e ∈ (parse (⟨.leftBrace, "\x7b", none, 1⟩ ::
      (doubledPlusBody ++ [⟨.rightBrace, "\x7d", none, 3⟩, .eof 3]))).errors,
      e.problem ≠ .tooDeep := by
    rw [errors]
    decide
  obtain ⟨-, declared, n, s', read, ahead, whole⟩ := parse_block rfl rfl rfl (by decide) balanced
    shallow fun level d => keepsBraces_of_plain plain rfl rfl rfl rfl rfl shallow
      (by rw [errors]; decide)
  exact ⟨balanced, declared, n, s', read, ahead, by rw [← errors, whole]⟩

/-- A sum without its second value. -/
def openSum : List Token :=
  [⟨.printKw, "print", none, 1⟩, ⟨.number, "1", none, 1⟩, ⟨.plus, "+", none, 1⟩]

/-- The brace at which the sum fails is left out, so the block misses it. -/
theorem parse_block_openSum :
    Balanced openSum ∧ (∀ t ∈ openSum, t.kind ≠ .eof) ∧
      parse (⟨.leftBrace, "\x7b", none, 1⟩ ::
          (openSum ++ [⟨.rightBrace, "\x7d", none, 1⟩, .eof 1])) =
        ⟨[], [⟨⟨.rightBrace, "\x7d", none, 1⟩, .noExpression⟩,
          ⟨.eof 1, .noMark .rightBrace .afterBlock⟩]⟩ :=
  ⟨balanced_of_plain (by decide), by decide, rfl⟩

end LoxSyntax
