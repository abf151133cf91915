import LoxSyntax.Proofs.Parse.ErrorOrder
import LoxSyntax.Proofs.Parse.Pointwise

namespace LoxSyntax

namespace Parse

open Grammar
open Ebnf (line)
open Rule (Tries Noted)

def kindsOf (ts : List Token) : List TokenKind := ts.map (·.kind)

theorem kindsOf_append (ts us : List Token) : kindsOf (ts ++ us) = kindsOf ts ++ kindsOf us :=
  List.map_append

/-- Nothing is recorded so far. -/
def State.Clean (s : State) : Prop := s.errors.toList = []

theorem State.Extends.clean {s s' : State} (h : s.Extends s') (clean : s'.Clean) : s.Clean :=
  List.prefix_nil.mp (clean ▸ h.errors)

/-- The first error stays the first one. -/
theorem State.Extends.first {s s' : State} (h : s.Extends s') (some : ¬ s.Clean) :
    s'.errors.toList.head? = s.errors.toList.head? := by
  obtain ⟨new, whole⟩ := h.errors
  rw [← whole]
  unfold State.Clean at some
  cases front : s.errors.toList with
  | nil => exact absurd front some
  | cons e es => rfl

/-- Where nothing is recorded, the parse is not given up. -/
theorem State.Extends.live {s s' : State} (h : s.Extends s') (live : s.halted = false)
    (clean : s'.Clean) : s'.halted = false := by
  by_contra up
  have grown := h.reported live (by simpa using up)
  have none : s'.errors.size = 0 := by
    rw [← Array.length_toList, clean]
    rfl
  omega

/-- Such a phrase was read between the states. Where the next token stands behind what was read,
and the phrase and its context in front of it, it is the context that starts there. -/
def Read (e : Ebnf) (follow : Option TokenKind → Bool) (s s' : State) : Prop :=
  ∃ x, s.ahead = x ++ s'.ahead ∧ Derives e (kindsOf x) ∧
    ∀ K r, Context follow K → r.head? = s'.next → after e K (kindsOf x ++ r) → K r

/-- What was used up starts such a phrase, but behind it the next token is wrong: there it stands
neither in the phrase nor in any context of it. -/
def Wrong (e : Ebnf) (follow : Option TokenKind → Bool) (s s' : State) : Prop :=
  ∃ v, s.ahead = v ++ s'.ahead ∧ (∃ w, Derives e (kindsOf v ++ w)) ∧
    ∀ K r, Context follow K → r.head? = s'.next → ¬ after e K (kindsOf v ++ r)

theorem head?_kindsOf_append {s s' : State} {x : List Token} {r : List TokenKind}
    (ahead : s.ahead = x ++ s'.ahead) (next : r.head? = s'.next) :
    (kindsOf x ++ r).head? = s.next := by
  unfold State.next at next ⊢
  cases x with
  | nil =>
    rw [ahead]
    exact next
  | cons t x =>
    rw [ahead]
    rfl

/-- A phrase that can stand behind another one, where these may be next in between. -/
structure Joins (b : Ebnf) (follow between : Option TokenKind → Bool) : Prop where
  leads : ∀ next, b.leads follow next = true → between next = true
  plain : b.plain = true
  productive : Productive b

theorem Joins.of_closing {b : Ebnf} {follow between : Option TokenKind → Bool}
    (leads : ∀ next, b.leads follow next = true → between next = true)
    (closes : Rule.closing b = true) : Joins b follow between := by
  obtain ⟨plain, some⟩ := (Bool.and_eq_true _ _).mp closes
  cases even : b.braces with
  | none => simp [even] at some
  | some c => exact ⟨leads, plain, .of_braces even⟩

theorem Joins.push {b : Ebnf} {follow between : Option TokenKind → Bool} {K : List TokenKind → Prop}
    (h : Joins b follow between) (context : Context follow K) : Context between (after b K) :=
  context.push h.leads h.plain

theorem Read.trans {a b : Ebnf} {follow between : Option TokenKind → Bool} {s s' s'' : State}
    (h : Read a between s s') (h' : Read b follow s' s'') (joins : Joins b follow between) :
    Read (.seq a b) follow s s'' := by
  obtain ⟨x, ahead, first, one⟩ := h
  obtain ⟨y, ahead', second, other⟩ := h'
  refine ⟨x ++ y, by rw [ahead, ahead', List.append_assoc],
    kindsOf_append x y ▸ .seq first second, ?_⟩
  intro K r context next behind
  rw [after_seq, kindsOf_append, List.append_assoc] at behind
  exact other K r context next
    (one _ _ (joins.push context) (head?_kindsOf_append ahead' next) behind)

theorem Read.wrong {a b : Ebnf} {follow between : Option TokenKind → Bool} {s s' s'' : State}
    (h : Read a between s s') (h' : Wrong b follow s' s'') (joins : Joins b follow between) :
    Wrong (.seq a b) follow s s'' := by
  obtain ⟨x, ahead, first, one⟩ := h
  obtain ⟨v, ahead', ⟨w, second⟩, none⟩ := h'
  refine ⟨x ++ v, by rw [ahead, ahead', List.append_assoc], ⟨w, ?_⟩, ?_⟩
  · rw [kindsOf_append, List.append_assoc]
    exact .seq first second
  · intro K r context next behind
    rw [after_seq, kindsOf_append, List.append_assoc] at behind
    exact none K r context next
      (one _ _ (joins.push context) (head?_kindsOf_append ahead' next) behind)

/-- What is wrong in a phrase is wrong in front of another one. -/
theorem Wrong.inFront {a b : Ebnf} {follow between : Option TokenKind → Bool} {s s' : State}
    (h : Wrong a between s s') (joins : Joins b follow between) : Wrong (.seq a b) follow s s' := by
  obtain ⟨v, ahead, ⟨w, first⟩, none⟩ := h
  obtain ⟨u, second⟩ := joins.productive
  refine ⟨v, ahead, ⟨w ++ u, ?_⟩, fun K r context next behind => ?_⟩
  · rw [← List.append_assoc]
    exact .seq first second
  · rw [after_seq] at behind
    exact none _ r (joins.push context) next behind

theorem Read.widen {e e' : Ebnf} {follow : Option TokenKind → Bool} {s s' : State}
    (h : Read e follow s s') (narrows : Narrows e e' follow s) : Read e' follow s s' := by
  obtain ⟨x, ahead, derives, one⟩ := h
  refine ⟨x, ahead, narrows.1 _ derives, fun K r context next behind => one K r context next ?_⟩
  exact narrows.2 K _ context (head?_kindsOf_append ahead next) behind

theorem Wrong.widen {e e' : Ebnf} {follow : Option TokenKind → Bool} {s s' : State}
    (h : Wrong e follow s s') (narrows : Narrows e e' follow s) : Wrong e' follow s s' := by
  obtain ⟨v, ahead, ⟨w, derives⟩, none⟩ := h
  refine ⟨v, ahead, ⟨w, narrows.1 _ derives⟩, fun K r context next behind => ?_⟩
  exact none K r context next (narrows.2 K _ context (head?_kindsOf_append ahead next) behind)

/-- Such a declaration was tried by the rule and failed with the error, before any other was
recorded, and at a token that is wrong in the phrase that the rule reads. -/
def Explains {α : Type} (e : Ebnf) (follow : Option TokenKind → Bool) (rule : Rule α) (s : State)
    (error : ParseError) : Prop :=
  ∃ level d d', Tries level d rule s ∧ declarationRule (rules level) d = .error error d' ∧
    d'.Clean ∧ Wrong e follow s d'

/-- What the rule does from a state in which nothing is recorded. It reads such a phrase, or fails
at a wrong token, unless something is recorded on the way; and so with what is recorded first. -/
structure Foresees {α : Type} (e : Ebnf) (follow : Option TokenKind → Bool) (rule : Rule α)
    (s : State) : Prop where
  reads {x : α} {s' : State} (run : rule s = .ok x s') (clean : s'.Clean) : Read e follow s s'
  fails {error : ParseError} {s' : State} (run : rule s = .error error s') (clean : s'.Clean)
    (shallow : error.problem ≠ .tooDeep) : Wrong e follow s s'
  reports {error : ParseError} (first : (rule.after s).errors.toList.head? = some error)
    (thrown : Thrown error.problem) : Explains e follow rule s error

namespace Foresees

theorem widen {α : Type} {e e' : Ebnf} {follow : Option TokenKind → Bool} {rule : Rule α}
    {s : State} (h : Foresees e follow rule s) (narrows : Narrows e e' follow s) :
    Foresees e' follow rule s where
  reads run clean := (h.reads run clean).widen narrows
  fails run clean shallow := (h.fails run clean shallow).widen narrows
  reports first thrown := by
    obtain ⟨level, d, d', tries, failed, clean, wrong⟩ := h.reports first thrown
    exact ⟨level, d, d', tries, failed, clean, wrong.widen narrows⟩

theorem congr {α : Type} {e : Ebnf} {follow : Option TokenKind → Bool} {rule : Rule α} {s : State}
    {rule' : Rule α} (h : Foresees e follow rule s) (same : rule' s = rule s)
    (tries : ∀ {level d}, Tries level d rule s → Tries level d rule' s) :
    Foresees e follow rule' s where
  reads run clean := h.reads (same ▸ run) clean
  fails run clean shallow := h.fails (same ▸ run) clean shallow
  reports first thrown := by
    have after : rule'.after s = rule.after s := by
      unfold Rule.after
      rw [same]
    rw [after] at first
    obtain ⟨level, d, d', tried, failed, clean, wrong⟩ := h.reports first thrown
    exact ⟨level, d, d', tries tried, failed, clean, wrong⟩

/-- Where nothing is recorded there is nothing to explain. -/
theorem of_clean {α : Type} {e : Ebnf} {follow : Option TokenKind → Bool} {rule : Rule α}
    {s : State} (clean : (rule.after s).Clean)
    (reads : ∀ x s', rule s = .ok x s' → Read e follow s s')
    (fails : ∀ error s', rule s = .error error s' → error.problem ≠ .tooDeep →
      Wrong e follow s s') : Foresees e follow rule s where
  reads run _ := reads _ _ run
  fails run _ := fails _ _ run
  reports first := by
    rw [clean] at first
    cases first

/-- A rule that does nothing. -/
theorem still {α : Type} {e : Ebnf} {follow : Option TokenKind → Bool} {rule : Rule α} {s : State}
    {x : α} {s' : State} (run : rule s = .ok x s') (ahead : s'.ahead = s.ahead) (clean : s'.Clean)
    (null : Derives e []) (only : ∀ K r, Context follow K → r.head? = s.next → after e K r → K r) :
    Foresees e follow rule s := by
  refine of_clean ?_ (fun y t run' => ?_) (fun error t run' => ?_)
  · rwa [Rule.after_ok run]
  · cases run.symm.trans run'
    refine ⟨[], ahead.symm, null, fun K r context next behind => only K r context ?_ behind⟩
    rwa [State.next, ahead] at next
  · cases run.symm.trans run'

theorem keepingDepth {α : Type} {e : Ebnf} {follow : Option TokenKind → Bool} {rule : Rule α}
    {s : State} (h : Foresees e follow rule s) : Foresees e follow (Rule.keepingDepth rule) s where
  reads run clean := by
    obtain ⟨t, inner, rfl⟩ := Rule.keepingDepth_eq_ok run
    have read : Read e follow s t := h.reads inner clean
    exact read
  fails run clean shallow := by
    obtain ⟨t, inner, rfl⟩ := Rule.keepingDepth_eq_error run
    have wrong : Wrong e follow s t := h.fails inner clean shallow
    exact wrong
  reports first thrown := by
    rw [Rule.after_keepingDepth] at first
    obtain ⟨level, d, d', tried, failed, clean, wrong⟩ := h.reports first thrown
    exact ⟨level, d, d', .keepingDepth tried, failed, clean, wrong⟩

theorem bind {α β : Type} {a b : Ebnf} {follow between : Option TokenKind → Bool} {s : State}
    {rule : Rule α} {f : α → Rule β} (live : s.halted = false) (moves : s.Extends (rule.after s))
    (orderly' : ∀ x, (f x).Orderly) (h : Foresees a between rule s)
    (h' : ∀ x s', rule s = .ok x s' → s'.Clean → Foresees b follow (f x) s')
    (joins : Joins b follow between) : Foresees (.seq a b) follow (rule >>= f) s where
  reads {y s''} run clean := by
    obtain ⟨x, s', first, second⟩ := Rule.exists_of_bind_ok run
    have between := ((orderly' x).extends_ok second).clean clean
    exact (h.reads first between).trans ((h' x s' first between).reads second clean) joins
  fails {error s''} run clean shallow := by
    obtain first | ⟨x, s', first, second⟩ := Rule.exists_of_bind_error run
    · exact (h.fails first clean shallow).inFront joins
    · have between := ((orderly' x).extends_error second).clean clean
      exact (h.reads first between).wrong ((h' x s' first between).fails second clean shallow) joins
  reports {error} recorded thrown := by
    have inFront (same : (rule.after s).errors.toList.head? = some error) :
        Explains (.seq a b) follow (rule >>= f) s error := by
      obtain ⟨level, d, d', tried, failed, clean, wrong⟩ := h.reports same thrown
      exact ⟨level, d, d', .first orderly' tried, failed, clean, wrong.inFront joins⟩
    cases first : rule s with
    | error error' s' =>
      rw [Rule.after_bind_error f first] at recorded
      exact inFront recorded
    | ok x s' =>
      rw [Rule.after_bind f first] at recorded
      by_cases clean : s'.Clean
      · obtain ⟨level, d, d', tried, failed, clean', wrong⟩ :=
          (h' x s' first clean).reports recorded thrown
        rw [Rule.after_ok first] at moves
        exact ⟨level, d, d', .second moves (fun _ => moves.live live clean) first tried, failed,
          clean', (h.reads first clean).wrong wrong joins⟩
      · rw [((orderly' x).moves s').first clean, ← Rule.after_ok first] at recorded
        exact inFront recorded

theorem limit {α : Type} {e : Ebnf} {follow : Option TokenKind → Bool} {rule : Rule α} {s : State}
    (run : rule s = .error ⟨s.current, .tooDeep⟩ s) (clean : s.Clean) :
    Foresees e follow rule s := by
  refine of_clean ?_ (fun x s' run' => ?_) (fun error s' run' shallow => ?_)
  · rwa [Rule.after_error run]
  · cases run.symm.trans run'
  · cases run.symm.trans run'
    exact absurd rfl shallow

theorem note {follow : Option TokenKind → Bool} {s : State} (place : Token → Token)
    {problem : Problem} (noted : Noted problem) (live : s.halted = false) (clean : s.Clean) :
    Foresees .empty follow (Rule.note place problem) s := by
  have recorded : ((Rule.note place problem).after s).errors.toList =
      [⟨place s.current, problem⟩] := by
    change (s.record ⟨place s.current, problem⟩).errors.toList = _
    unfold State.Clean at clean
    simp [State.errors_record _ live, clean]
  refine ⟨fun run none => ?_, fun run => ?_, fun first thrown => ?_⟩
  · rw [State.Clean, ← Rule.after_ok run, recorded] at none
    cases none
  · cases run
  · rw [recorded] at first
    cases first
    exact absurd noted thrown.1

theorem oneOf {follow : Option TokenKind → Bool} {s : State} {kinds : List TokenKind}
    {problem : Problem} (some : kinds ≠ []) (clean : s.Clean) :
    Foresees (.mark kinds) follow (Rule.oneOf kinds problem) s := by
  by_cases other : ∀ t ∈ s.ahead.head?, t.kind ∉ kinds
  · have run := Rule.oneOf_error problem other
    refine of_clean ?_ (fun t s' run' => ?_) (fun error s' run' _ => ?_)
    · rwa [Rule.after_error run]
    · cases run.symm.trans run'
    · cases run.symm.trans run'
      refine ⟨[], rfl, ⟨_, .mark (kinds.head_mem some)⟩, ?_⟩
      rintro K r - next ⟨x, y, whole, derives, -⟩
      obtain ⟨k, among, rfl⟩ := derives_mark.mp derives
      have whole : r = [k] ++ y := whole
      have first : s.next = Option.some k := by
        rw [← next, whole, List.singleton_append, List.head?_cons]
      obtain ⟨t, is, rfl⟩ := Option.map_eq_some_iff.mp first
      exact other t is among
  · push Not at other
    obtain ⟨t, next, among⟩ := other
    obtain ⟨rest, ahead⟩ := List.head?_eq_some_iff.mp next
    have run := Rule.oneOf_ok problem ahead among
    refine of_clean ?_ (fun t' s' run' => ?_) (fun error s' run' => ?_)
    · rwa [Rule.after_ok run]
    · cases run.symm.trans run'
      refine ⟨[t], ahead, .mark among, ?_⟩
      rintro K r - - ⟨x, y, whole, derives, behind⟩
      obtain ⟨k, -, rfl⟩ := derives_mark.mp derives
      cases whole
      exact behind
    · cases run.symm.trans run'

end Foresees

/-- The rule foresees what may become of its phrase, wherever nothing is recorded yet. -/
abbrev Predicts := FromReady State.Clean @Foresees

theorem joins_declarations {closes : TokenKind → Bool} :
    Joins (.many (.phrase .declaration)) (·.all closes) Rule.anything :=
  ⟨fun _ _ => rfl, rfl, .many⟩

/-- A declaration behind which nothing is recorded was read. -/
theorem declaration_clean {level : Nat} {s : State} (live : s.halted = false)
    (clean : (declaration (rules level) s).2.Clean) :
    ∃ a, declarationRule (rules level) s = .ok a (declaration (rules level) s).2 := by
  have moved := (declarationRule_reads (rules_sound level)).moves s
  cases run : declarationRule (rules level) s with
  | ok a t => exact ⟨a, by rw [declaration_of_ok run]⟩
  | error e t =>
    rw [declaration_of_error run] at clean
    rw [Rule.after_error run] at moved
    have same : (t.recover e).errors.size = s.errors.size := by
      rw [← Array.length_toList, ← Array.length_toList, clean,
        (moved.trans (.recover t e)).clean clean]
    exact absurd ⟨live, same⟩ (State.not_quiet_recover e moved)

/-- Declarations behind which nothing is recorded were read. -/
theorem declared_read {level n : Nat} {closes : TokenKind → Bool} {s s' : State} {body : List Stmt}
    (each : Predicts (.phrase .declaration) Rule.anything Stmt (declarationRule (rules level)))
    (h : Declared (rules level) closes s body s' n) (live : s.halted = false) (clean : s'.Clean)
    (apart : ∀ k, closes k = true → Ebnf.starts (.phrase .declaration) k = false)
    (ends : s'.next.all closes = true) :
    Read (.many (.phrase .declaration)) (·.all closes) s s' := by
  induction h with
  | stay s =>
    refine ⟨[], rfl, .none, fun K r context next behind => ?_⟩
    refine (after_many.mp behind).resolve_right fun more => ?_
    have starts : r.head?.any _ = true := more.starts rfl
    rw [next] at starts
    cases first : s.next with
    | none => simp [first] at starts
    | some k =>
      rw [first] at starts ends
      have other := apart k ends
      exact absurd (starts.symm.trans other) nofun
  | @next s s' t _ _ next stays others ih =>
    have clean' := others.extends.clean clean
    obtain ⟨a, run⟩ := declaration_clean live clean'
    have first := (each.holds live (((each.orderly.extends_ok run)).clean clean')).reads run clean'
    have second := ih (each.orderly.live_ok run live) clean ends
    have other : s.next.all closes = false := by
      simp [State.next, next, stays]
    exact (first.trans second joins_declarations).widen (.many other)

/-- The first error in a declaration is that of itself, or of one inside. -/
theorem declaration_explains {level : Nat} {s : State}
    (each : Predicts (.phrase .declaration) Rule.anything Stmt (declarationRule (rules level)))
    (live : s.halted = false) (clean : s.Clean) {error : ParseError}
    (first : (declaration (rules level) s).2.errors.toList.head? = some error)
    (thrown : Thrown error.problem) :
    ∃ level' d d', (level' = level ∧ d = s ∨ Tries level' d (declarationRule (rules level)) s) ∧
      declarationRule (rules level') d = .error error d' ∧ d'.Clean ∧
      Wrong (.phrase .declaration) Rule.anything s d' := by
  have foreseen := each.holds live clean
  have inside (same : ((declarationRule (rules level)).after s).errors.toList.head? = some error) :
      ∃ level' d d', (level' = level ∧ d = s ∨ Tries level' d (declarationRule (rules level)) s) ∧
        declarationRule (rules level') d = .error error d' ∧ d'.Clean ∧
        Wrong (.phrase .declaration) Rule.anything s d' := by
    obtain ⟨level', d, d', tried, failed, clean', wrong⟩ := foreseen.reports same thrown
    exact ⟨level', d, d', .inr tried, failed, clean', wrong⟩
  cases run : declarationRule (rules level) s with
  | ok a s' =>
    apply inside
    rw [declaration_of_ok run] at first
    rwa [Rule.after_ok run]
  | error e s' =>
    rw [declaration_of_error run] at first
    by_cases clean' : s'.Clean
    · have live' := (each.orderly.extends_error run).live live clean'
      have only : (s'.recover e).errors.toList = [e] := by
        rw [errors_recover live' e, Array.toList_push, clean', List.nil_append]
      rw [only] at first
      cases first
      exact ⟨level, s, s', .inl ⟨rfl, rfl⟩, run, clean', foreseen.fails run clean' thrown.2⟩
    · apply inside
      rw [(State.Extends.recover s' e).first clean'] at first
      rwa [Rule.after_error run]

/-- The first error in declarations is that of one of them, or of one inside. -/
theorem declared_explains {level n : Nat} {closes : TokenKind → Bool} {s s' : State}
    {body : List Stmt}
    (each : Predicts (.phrase .declaration) Rule.anything Stmt (declarationRule (rules level)))
    (h : Declared (rules level) closes s body s' n) (live : s.halted = false) (clean : s.Clean)
    {error : ParseError} (first : s'.errors.toList.head? = some error)
    (thrown : Thrown error.problem) :
    ∃ level' d d', TriedFrom level closes s level' d ∧
      declarationRule (rules level') d = .error error d' ∧ d'.Clean ∧
      Wrong (.many (.phrase .declaration)) (·.all closes) s d' := by
  induction h with
  | stay =>
    rw [clean] at first
    cases first
  | @next s s' t _ _ next stays others ih =>
    have other : s.next.all closes = false := by
      simp [State.next, next, stays]
    by_cases clean' : (declaration (rules level) s).2.Clean
    · obtain ⟨a, run⟩ := declaration_clean live clean'
      obtain ⟨level', d, d', tried, failed, clean'', wrong⟩ :=
        ih (each.orderly.live_ok run live) clean' first
      have one := (each.holds live clean).reads run clean'
      exact ⟨level', d, d', tried.later next stays, failed, clean'',
        (one.wrong wrong joins_declarations).widen (.many other)⟩
    · rw [others.extends.first clean'] at first
      obtain ⟨level', d, d', tried, failed, clean'', wrong⟩ :=
        declaration_explains each live clean first thrown
      refine ⟨level', d, d', ?_, failed, clean'',
        (wrong.inFront joins_declarations).widen (.many other)⟩
      rcases tried with ⟨rfl, rfl⟩ | tried
      · exact .outermost (.stay _) next stays
      · exact .inside (.stay s) next stays tried

theorem blockBody_foresees {level : Nat} {s : State}
    (each : Predicts (.phrase .declaration) Rule.anything Stmt (declarationRule (rules level)))
    (live : s.halted = false) (clean : s.Clean) :
    Foresees (.many (.phrase .declaration)) (·.all (· == .rightBrace)) (blockBody (rules level))
      s := by
  obtain ⟨n, read, ends⟩ := exists_declared level (· == .rightBrace) s.ahead s (Nat.le_refl _)
  have run := blockBody_eq (rules level) s
  refine ⟨fun run' clean' => ?_, fun run' => ?_, fun first thrown => ?_⟩
  · cases run.symm.trans run'
    refine declared_read each read live clean' (by decide) ?_
    unfold State.next
    cases next : (declarations (rules level) (· == .rightBrace) s.ahead s).2.ahead.head? with
    | none => rfl
    | some t => exact ends t next
  · cases run.symm.trans run'
  · rw [Rule.after_ok run] at first
    obtain ⟨level', d, d', tried, failed, clean', wrong⟩ :=
      declared_explains each read live clean first thrown
    exact ⟨level', d, d', tried.tries, failed, clean', wrong⟩

theorem block_foresees {level : Nat} {s : State}
    (each : Predicts (.phrase .declaration) Rule.anything Stmt (declarationRule (rules level)))
    (live : s.halted = false) (clean : s.Clean) :
    Foresees (line [.phrase .declarations, .mark [.rightBrace]]) Rule.anything
      (block (rules level)) s := by
  have closing (body : List Stmt) {s : State} (live : s.halted = false) (clean : s.Clean) :
      Foresees (line [.mark [.rightBrace]]) Rule.anything
        (Rule.mark .rightBrace .afterBlock >>= fun _ => Pure.pure body) s :=
    .bind live ((Rule.oneOf_orderly _ _).moves s) (fun _ => Rule.pure_orderly body)
      (.oneOf (List.cons_ne_nil _ _) clean)
      (fun _ s' _ clean' => .still rfl rfl clean' .empty fun K r _ _ behind => by
        rwa [List.foldr_nil, after_empty] at behind)
      ⟨fun _ => id, rfl, .empty⟩
  have moves : s.Extends ((blockBody (rules level)).after s) :=
    declarations_moves (declarationRule_reads (rules_sound level)) _ _ s
  have whole := Foresees.bind live moves Rule.closeBlock_orderly
    (blockBody_foresees each live clean)
    (fun body s' run clean' => closing body
      ((Rule.after_ok run ▸ moves : s.Extends s').live live clean') clean')
    (.of_closing (by decide) rfl)
  exact whole.widen (.of_alike fun w => by
    simp only [line, List.foldr_cons, derives_seq, derives_phrase, loose])

theorem foresees_pointwise : Pointwise State.Clean @Foresees where
  stays clean := clean
  widen := .widen
  congr := .congr
  still run clean ahead _ null only := .still run ahead clean null only
  limit := .limit
  note place _ noted _ := .note place noted
  oneOf some _ := .oneOf some
  bind live orderly orderly' h h' leads closes :=
    .bind live (orderly.moves _) orderly' h h' (.of_closing leads closes)
  keepingDepth := .keepingDepth
  block each _ live clean := block_foresees each live clean

end Parse

open Parse Grammar

/-- The first error is at the earliest wrong token. If it was thrown, and not for the nesting, then
it is that of a declaration that failed before anything was recorded. What is in front of the token
at which that failed starts a program, and with this token it starts none; or, at the end, it is
none. -/
theorem parse_firstError {tokens : List Token} {first : ParseError} {others : List ParseError}
    (errors : (parse tokens).errors = first :: others) (thrown : Thrown first.problem) :
    ∃ level d s' before rest, TriedIn tokens level d ∧
      declarationRule (rules level) d = .error first s' ∧ s'.errors = #[] ∧
      tokens.takeWhile (·.kind != .eof) = before ++ rest ∧ s'.ahead = rest ∧
      first.token = rest.headD (State.start tokens).stop ∧
      (∃ more, Derives (.phrase .declarations) (kindsOf before ++ more)) ∧
      ∀ program, Derives (.phrase .declarations) program →
        match rest with
        | [] => program ≠ kindsOf before
        | t :: _ => ¬ kindsOf before ++ [t.kind] <+: program := by
  obtain ⟨n, read, -⟩ := exists_declared maxDepth (fun _ => false) (State.start tokens).ahead
    (State.start tokens) (Nat.le_refl _)
  have descent := foresees_pointwise.descent
  have each := descent.declarationRule (descent.descends maxDepth)
  have recorded : (declarations (rules maxDepth) (fun _ => false) (State.start tokens).ahead
      (State.start tokens)).2.errors.toList.head? = some first := congrArg List.head? errors
  obtain ⟨level, d', s', triedIn, failed, clean, wrong⟩ :=
    declared_explains each read rfl rfl recorded thrown
  have onward := (declarationRule_reads (rules_sound level)).moves d'
  rw [Rule.after_error failed] at onward
  have located : first.token = s'.current :=
    (declarationRule_records (rules_ordered level)).fails failed
  rw [State.current, onward.stop, triedIn.extends_.stop] at located
  obtain ⟨before, split, ⟨more, viable⟩, none⟩ := wrong
  have refused (r : List TokenKind) (first : r.head? = s'.next) :
      ¬ Derives (.phrase .declarations) (kindsOf before ++ r) := fun derives =>
    none (· = []) r (context_end rfl) first
      ⟨_, [], (List.append_nil _).symm, derives_phrase.mp derives, rfl⟩
  refine ⟨level, d', s', before, s'.ahead, triedIn, failed, Array.toList_inj.mp clean, split, rfl,
    located, ⟨more, .phrase viable⟩, fun program derives => ?_⟩
  unfold State.next at refused
  cases rest : s'.ahead with
  | nil =>
    rintro rfl
    exact refused [] (by rw [rest]; rfl) (by rwa [List.append_nil])
  | cons t rest =>
    rintro ⟨others, rfl⟩
    rw [List.append_assoc] at derives
    exact refused ([t.kind] ++ others) (by rw [rest]; rfl) derives

/-- `print (1 + ; 2`, with an operand missing in front of the semicolon. -/
def missingOperand : List Token :=
  [⟨.printKw, "print", none, 1⟩, ⟨.leftParen, "(", none, 1⟩, ⟨.number, "1", none, 1⟩,
    ⟨.plus, "+", none, 1⟩, ⟨.semicolon, ";", none, 1⟩, ⟨.number, "2", none, 1⟩, .eof 1]

theorem parse_firstError_missingOperand :
    (parse missingOperand).errors = [⟨⟨.semicolon, ";", none, 1⟩, .noExpression⟩,
      ⟨.eof 1, .noMark .semicolon .afterExpression⟩] ∧ Thrown .noExpression ∧
    ∃ before rest, missingOperand.takeWhile (·.kind != .eof) = before ++ rest ∧
      ⟨.semicolon, ";", none, 1⟩ = rest.headD (State.start missingOperand).stop ∧
      (∃ more, Derives (.phrase .declarations) (kindsOf before ++ more)) ∧
      ∀ program, Derives (.phrase .declarations) program →
        match rest with
        | [] => program ≠ kindsOf before
        | t :: _ => ¬ kindsOf before ++ [t.kind] <+: program := by
  have errors : (parse missingOperand).errors = [⟨⟨.semicolon, ";", none, 1⟩, .noExpression⟩,
      ⟨.eof 1, .noMark .semicolon .afterExpression⟩] := by
    decide +kernel
  have thrown : Thrown .noExpression := by
    refine ⟨?_, nofun⟩
    rintro (is | is | is) <;> cases is
  obtain ⟨level, d, s', before, rest, -, -, -, split, -, located, viable, refused⟩ :=
    parse_firstError errors thrown
  exact ⟨errors, thrown, before, rest, split, located, viable, refused⟩

end LoxSyntax
