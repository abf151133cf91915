import LoxSyntax.Proofs.Parse.Descent
import LoxSyntax.Proofs.Parse.Resumption

namespace LoxSyntax.Parse

open Grammar

/-- Thrown, and not for the nesting. -/
def Thrown (problem : Problem) : Prop := ¬ Rule.Noted problem ∧ problem ≠ .tooDeep

/-- A block was left without its closing brace. -/
abbrev unclosed : Problem := .noMark .rightBrace .afterBlock

/-- One more declaration behind others. -/
theorem Declared.snoc {n : Nat} {closes : TokenKind → Bool} {s d : State} {t : Token}
    {body : List Stmt} {inner : Rules} (h : Declared inner closes s body d n)
    (next : d.ahead.head? = some t) (stays : closes t.kind = false) :
    Declared inner closes s (body ++ (declaration inner d).1.toList) (declaration inner d).2
      (n + 1) := by
  induction h with
  | stay s =>
    have one := Declared.next next stays (.stay (declaration inner s).2)
    rwa [List.append_nil] at one
  | next first others _ ih =>
    rw [List.append_assoc]
    exact .next first others (ih next)

/-- The loop goes on from there. -/
theorem Declared.kept {level n : Nat} {closes : TokenKind → Bool} {s d : State} {t : Token}
    {body : List Stmt} (h : Declared (rules level) closes s body d n)
    (next : d.ahead.head? = some t) (stays : closes t.kind = false) :
    (declaration (rules level) d).2.Extends (declarations (rules level) closes s.ahead s).2 := by
  rw [(h.snoc next stays).declarations_eq]
  exact declarations_moves (declarationRule_reads (rules_sound level)) closes _ _

theorem declaration_of_ok {s : State} {inner : Rules} {s' : State} {a : Stmt}
    (run : declarationRule inner s = .ok a s') : declaration inner s = (some a, s') :=
  recovering_ok run

theorem declaration_of_error {s : State} {inner : Rules} {s' : State} {e : ParseError}
    (run : declarationRule inner s = .error e s') : declaration inner s = (none, s'.recover e) :=
  recovering_error run

theorem declaration_after (inner : Rules) (s : State) :
    ((declarationRule inner).after s).Extends (declaration inner s).2 := by
  cases run : declarationRule inner s with
  | ok a s' =>
    rw [Rule.after_ok run, declaration_of_ok run]
    exact .refl s'
  | error e s' =>
    rw [Rule.after_error run, declaration_of_error run]
    exact .recover s' e

theorem mem_recover {s : State} {e e' : ParseError} (among : e ∈ (s.recover e').errors.toList) :
    e ∈ s.errors.toList ∨ e = e' := by
  rw [State.errors_recover] at among
  exact State.mem_record e' among

theorem errors_recover {s : State} (live : s.halted = false) (e : ParseError) :
    (s.recover e).errors = s.errors.push e := by
  rw [State.errors_recover, State.errors_record e live]

/-- A block ends with the first brace that closes none of its declarations, or fails at the end. -/
theorem block_outcome (level : Nat) (s : State) :
    ∃ body n t, Declared (rules level) (· == .rightBrace) s body t n ∧
      ((∃ brace rest, t.ahead = brace :: rest ∧ brace.kind = .rightBrace ∧
          block (rules level) s = .ok body { t with ahead := rest }) ∨
        (t.ahead = [] ∧ block (rules level) s = .error ⟨t.current, unclosed⟩ t)) := by
  obtain ⟨n, read, ends⟩ := exists_declared level (· == .rightBrace) s.ahead s (Nat.le_refl _)
  rw [block_eq]
  generalize (declarations (rules level) (· == .rightBrace) s.ahead s).1 = body at read ⊢
  generalize (declarations (rules level) (· == .rightBrace) s.ahead s).2 = t at read ends ⊢
  refine ⟨body, n, t, read, ?_⟩
  cases ahead : t.ahead with
  | nil => exact .inr ⟨rfl, Rule.bind_error _ (Rule.expect_nil .rightBrace unclosed ahead)⟩
  | cons brace rest =>
    have isBrace : brace.kind = .rightBrace := by simpa [ahead] using ends
    have marked := Rule.oneOf_ok unclosed ahead (List.mem_singleton.mpr isBrace)
    exact .inl ⟨brace, rest, rfl, isBrace, Rule.bind_ok _ marked⟩

namespace Rule

/-- A rule only moves on, and it fails where the parse is given up. -/
structure Orderly {α : Type} (rule : Rule α) : Prop where
  moves (s : State) : s.Extends (rule.after s)
  live : rule.Live

theorem Orderly.of_yields {α : Type} {rule : Rule α} {Q : State → α → State → Prop}
    (h : rule.Yields Q) (live : rule.Live) : rule.Orderly :=
  ⟨h.moves, live⟩

theorem Orderly.extends_ok {α : Type} {rule : Rule α} (h : rule.Orderly) {s s' : State} {a : α}
    (run : rule s = .ok a s') : s.Extends s' := by
  have moved := h.moves s
  rwa [after_ok run] at moved

theorem Orderly.extends_error {α : Type} {rule : Rule α} (h : rule.Orderly) {s s' : State}
    {e : ParseError} (run : rule s = .error e s') : s.Extends s' := by
  have moved := h.moves s
  rwa [after_error run] at moved

theorem Orderly.live_ok {α : Type} {rule : Rule α} (h : rule.Orderly) {s s' : State} {a : α}
    (run : rule s = .ok a s') (live : s.halted = false) : s'.halted = false := by
  have outcome := h.live s live
  rw [run] at outcome
  exact outcome.live

theorem Orderly.yields {α : Type} {rule : Rule α} (h : rule.Orderly) :
    rule.Yields fun _ _ _ => True :=
  ⟨h.moves, fun _ _ => trivial⟩

theorem choose_first {α : Type} {p : Option TokenKind → Bool} {rule other : Rule α} {s : State}
    (is : p s.next = true) : Rule.choose p rule other s = rule s := if_pos is

theorem choose_second {α : Type} {p : Option TokenKind → Bool} {rule other : Rule α} {s : State}
    (is : p s.next = false) : Rule.choose p rule other s = other s :=
  if_neg (Bool.eq_false_iff.mp is)

theorem after_choose {α : Type} (p : Option TokenKind → Bool) (rule other : Rule α) (s : State) :
    (Rule.choose p rule other).after s = if p s.next then rule.after s else other.after s := by
  unfold after
  cases is : p s.next with
  | true => rw [choose_first is, if_pos rfl]
  | false => rw [choose_second is, if_neg Bool.false_ne_true]

theorem Orderly.choose {α : Type} {rule other : Rule α} (p : Option TokenKind → Bool)
    (h : rule.Orderly) (h' : other.Orderly) : (Rule.choose p rule other).Orderly where
  moves s := by
    rw [after_choose]
    split
    · exact h.moves s
    · exact h'.moves s
  live s live := by
    unfold Rule.choose
    split
    · exact h.live s live
    · exact h'.live s live

theorem Orderly.bind {α β : Type} {rule : Rule α} {f : α → Rule β} (h : rule.Orderly)
    (hf : ∀ a, (f a).Orderly) : (rule >>= f).Orderly :=
  ⟨after_bind_related State.Extends.trans h.moves fun a => (hf a).moves,
    h.live.bind fun a => (hf a).live⟩

theorem pure_orderly {α : Type} (a : α) : (pure a : Rule α).Orderly :=
  .of_yields (.pure a) (live_stepwise.pure a)

theorem fail_orderly {α : Type} (problem : Problem) : (Rule.fail problem : Rule α).Orderly :=
  ⟨State.Extends.refl, fun _ live => .inl (.refl live)⟩

theorem note_orderly (place : Token → Token) {problem : Problem} (noted : Noted problem) :
    (Rule.note place problem).Orderly := by
  have own : problem.OfGrammar := by
    rcases noted with rfl | rfl | rfl <;> nofun
  have other : problem ≠ .tooDeep := by
    rcases noted with rfl | rfl | rfl <;> nofun
  exact ⟨fun s => State.Extends.record s _, live_congruence.note place own other⟩

theorem descend_orderly : Rule.descend.Orderly := .of_yields .descend live_congruence.descend

theorem Orderly.map {α β : Type} {rule : Rule α} (g : α → β) (h : rule.Orderly) :
    (g <$> rule).Orderly := by
  rw [map_eq_pure_bind]
  exact h.bind fun a => pure_orderly (g a)

theorem oneOf_orderly (kinds : List TokenKind) (problem : Problem) :
    (Rule.oneOf kinds problem).Orderly := by
  refine Orderly.bind (.of_yields (.take? kinds) (live_stepwise.take? kinds)) fun found => ?_
  cases found with
  | none => exact fail_orderly problem
  | some t => exact pure_orderly t

theorem keepingDepth_orderly {α : Type} {rule : Rule α} (h : rule.Orderly) :
    (Rule.keepingDepth rule).Orderly :=
  ⟨h.yields.keepingDepth.moves, @live_congruence.keepingDepth _ rule rule h.live⟩

theorem Orderly.iterate {α : Type} {step : α → Rule (Option α)} (each : ∀ x, (step x).Orderly)
    (advances : ∀ x, (step x).Advances) (x : α) : (Rule.iterate step x).Orderly :=
  ⟨iterate_moves (fun x => (each x).moves) advances x,
    @Congruence.iterate _ _ live_congruence step step (fun x => (each x).live) x⟩

theorem declarationRule_orderly (level : Nat) : (declarationRule (rules level)).Orderly :=
  .of_yields (declarationRule_reads (rules_sound level)) (declarationRule_live level)

/-- What a block does behind its declarations. -/
theorem closeBlock_orderly (body : List Stmt) : (Rule.mark .rightBrace .afterBlock >>= fun _ =>
    Pure.pure body : Rule (List Stmt)).Orderly :=
  (oneOf_orderly _ _).bind fun _ => pure_orderly body

theorem block_orderly (level : Nat) : (Parse.block (rules level)).Orderly :=
  .of_yields (block_reads (declarationRule_reads (rules_sound level)))
    (block_live (declarationRule_live level))

theorem elseLink_orderly {inner : Rules} (guard : (guarded inner).Orderly)
    (branch : (statement inner).Orderly) (links : Links) : (elseLink inner links).Orderly := by
  have accept (kind : TokenKind) : (Rule.accept kind).Orderly :=
    .of_yields (.accept kind) (live_stepwise.accept kind)
  unfold elseLink
  split
  · exact pure_orderly none
  · refine (accept .elseKw).bind fun follows => ?_
    split
    · refine (accept .ifKw).bind fun again => ?_
      split
      · exact descend_orderly.bind fun _ => guard.bind fun _ => pure_orderly _
      · exact branch.bind fun _ => pure_orderly _
    · exact pure_orderly none

/-- On the way, from the state `s`, the rule tries to read a declaration at this level from the
state `d`. A rule that goes on behind another one only moves on, so that nothing of it is taken
back. -/
inductive Tries (level : Nat) (d : State) : {α : Type} → Rule α → State → Prop where
  | first {α β : Type} {rule : Rule α} {f : α → Rule β} {s : State} (orderly : ∀ a, (f a).Orderly)
      (h : Tries level d rule s) : Tries level d (rule >>= f) s
  | second {α β : Type} {rule : Rule α} {f : α → Rule β} {s s' : State} {a : α}
      (moved : s.Extends s') (live : s.halted = false → s'.halted = false)
      (run : rule s = .ok a s') (h : Tries level d (f a) s') : Tries level d (rule >>= f) s
  | choice {α : Type} {p : Option TokenKind → Bool} {rule other : Rule α} {s : State}
      (h : Tries level d (if p s.next then rule else other) s) :
      Tries level d (Rule.choose p rule other) s
  | keepingDepth {α : Type} {rule : Rule α} {s : State} (h : Tries level d rule s) :
      Tries level d (Rule.keepingDepth rule) s
  | block {s : State} {t : Token} {body : List Stmt} {n : Nat}
      (read : Declared (rules level) (· == .rightBrace) s body d n) (ahead : d.ahead.head? = some t)
      (stays : (t.kind == .rightBrace) = false) : Tries level d (blockBody (rules level)) s
  | inside {outer : Nat} {s d' : State} {t : Token} {body : List Stmt} {n : Nat}
      (read : Declared (rules outer) (· == .rightBrace) s body d' n)
      (ahead : d'.ahead.head? = some t) (stays : (t.kind == .rightBrace) = false)
      (h : Tries level d (declarationRule (rules outer)) d') :
      Tries level d (blockBody (rules outer)) s

namespace Tries

/-- What is tried in front of the brace that closes a block, the block tries. -/
theorem ofBlock {level : Nat} {d s : State} {outer : Nat}
    (h : Tries level d (blockBody (rules outer)) s) : Tries level d (Parse.block (rules outer)) s :=
  .first closeBlock_orderly h

theorem ne_nil_of_next {d : State} {t : Token} (next : d.ahead.head? = some t) : d.ahead ≠ [] := by
  intro none
  rw [none] at next
  cases next

theorem more {α : Type} {level : Nat} {d s : State} {rule : Rule α} (h : Tries level d rule s) :
    d.ahead ≠ [] := by
  induction h with
  | block _ next _ => exact ne_nil_of_next next
  | _ => assumption

/-- What is tried is ahead of where the rule is run. -/
theorem extends_ {α : Type} {level : Nat} {d s : State} {rule : Rule α} (h : Tries level d rule s) :
    s.Extends d := by
  induction h with
  | second moved _ _ _ ih => exact moved.trans ih
  | block read _ _ => exact read.extends
  | inside read _ _ _ ih => exact read.extends.trans ih
  | _ => assumption

/-- Nothing is tried once the parse was given up. -/
theorem live {α : Type} {level : Nat} {d s : State} {rule : Rule α} (h : Tries level d rule s)
    (live : s.halted = false) : d.halted = false := by
  induction h with
  | first _ _ ih | choice _ ih | keepingDepth _ ih => exact ih live
  | second _ stays _ _ ih => exact ih (stays live)
  | block read next _ => exact (read.goesOn live (ne_nil_of_next next)).live
  | inside read next _ _ ih => exact ih (read.goesOn live (ne_nil_of_next next)).live

/-- What becomes of a declaration is not taken back. -/
theorem kept {α : Type} {level : Nat} {d s : State} {rule : Rule α} (h : Tries level d rule s) :
    (declaration (rules level) d).2.Extends (rule.after s) := by
  induction h with
  | @first _ _ rule f s orderly _ ih =>
    cases run : rule s with
    | error e s' => rwa [after_bind_error f run]
    | ok a s' =>
      rw [after_ok run] at ih
      rw [after_bind f run]
      exact ih.trans ((orderly a).moves s')
  | @second _ _ rule f s s' a _ _ run _ ih => rwa [after_bind f run]
  | @choice _ p rule other s _ ih =>
    rw [after_choose]
    split <;> simp_all
  | @keepingDepth _ rule s _ ih =>
    rw [after_keepingDepth]
    exact ih.withDepth (declaration (rules level) d).2.depth s.depth
  | block read next stays => exact read.kept next stays
  | @inside outer s d' t body n read next stays _ ih =>
    exact ih.trans ((declaration_after (rules outer) d').trans (read.kept next stays))

/-- Behind a declaration that was tried, the next one is. -/
theorem next {α : Type} {level : Nat} {d s : State} {rule : Rule α} (h : Tries level d rule s)
    {t : Token} (more : (declaration (rules level) d).2.ahead.head? = some t)
    (stays : (t.kind == .rightBrace) = false) :
    Tries level (declaration (rules level) d).2 rule s := by
  induction h with
  | first orderly _ ih => exact .first orderly ih
  | second moved stays run _ ih => exact .second moved stays run ih
  | choice _ ih => exact .choice ih
  | keepingDepth _ ih => exact .keepingDepth ih
  | block read before inside => exact .block (read.snoc before inside) more stays
  | inside read before inside _ ih => exact .inside read before inside ih

end Tries

end Rule

/-- From the state `s`, a loop over declarations tries to read one at this level from the state
`d`: one of its own, or one inside of these. -/
inductive TriedFrom (outer : Nat) (closes : TokenKind → Bool) (s : State) : Nat → State → Prop where
  | outermost {d : State} {t : Token} {body : List Stmt} {n : Nat}
      (read : Declared (rules outer) closes s body d n) (ahead : d.ahead.head? = some t)
      (stays : closes t.kind = false) : TriedFrom outer closes s outer d
  | inside {level : Nat} {d d' : State} {t : Token} {body : List Stmt} {n : Nat}
      (read : Declared (rules outer) closes s body d n) (ahead : d.ahead.head? = some t)
      (stays : closes t.kind = false) (h : Rule.Tries level d' (declarationRule (rules outer)) d) :
      TriedFrom outer closes s level d'

namespace TriedFrom

/-- What is tried behind the first declaration is tried. -/
theorem later {outer level : Nat} {closes : TokenKind → Bool} {s d : State} {t : Token}
    (next : s.ahead.head? = some t) (stays : closes t.kind = false)
    (h : TriedFrom outer closes (declaration (rules outer) s).2 level d) :
    TriedFrom outer closes s level d := by
  cases h with
  | outermost read ahead goesOn => exact .outermost (.next next stays read) ahead goesOn
  | inside read ahead goesOn h => exact .inside (.next next stays read) ahead goesOn h

/-- What the declarations of a block try, the block tries. -/
theorem tries {outer level : Nat} {s d : State} (h : TriedFrom outer (· == .rightBrace) s level d) :
    Rule.Tries level d (blockBody (rules outer)) s := by
  cases h with
  | outermost read ahead stays => exact .block read ahead stays
  | inside read ahead stays h => exact .inside read ahead stays h

theorem extends_ {outer level : Nat} {closes : TokenKind → Bool} {s d : State}
    (h : TriedFrom outer closes s level d) : s.Extends d := by
  cases h with
  | outermost read _ _ => exact read.extends
  | inside read _ _ h => exact read.extends.trans h.extends_

/-- What becomes of a declaration is not taken back. -/
theorem kept {outer level : Nat} {closes : TokenKind → Bool} {s d : State}
    (h : TriedFrom outer closes s level d) :
    (declaration (rules level) d).2.Extends (declarations (rules outer) closes s.ahead s).2 := by
  cases h with
  | outermost read ahead stays => exact read.kept ahead stays
  | inside read ahead stays h =>
    exact h.kept.trans ((declaration_after _ _).trans (read.kept ahead stays))

end TriedFrom

/-- The parse of the tokens tries to read a declaration at this level from the state: one of the
program, or one inside of it. -/
abbrev TriedIn (tokens : List Token) : Nat → State → Prop :=
  TriedFrom maxDepth (fun _ => false) (State.start tokens)

/-- The errors that were recorded by the end of a declaration stay the first ones. -/
theorem TriedIn.errors_prefix {tokens : List Token} {level : Nat} {d : State}
    (h : TriedIn tokens level d) :
    (declaration (rules level) d).2.errors.toList <+: (parse tokens).errors :=
  h.kept.errors

/-- Behind a declaration that was tried the next one is, unless the block ends there. -/
theorem TriedIn.next {tokens : List Token} {level : Nat} {d : State} (h : TriedIn tokens level d)
    {t : Token} (more : (declaration (rules level) d).2.ahead.head? = some t)
    (stays : t.kind ≠ .rightBrace) : TriedIn tokens level (declaration (rules level) d).2 := by
  cases h with
  | outermost read ahead goesOn => exact .outermost (read.snoc ahead goesOn) more rfl
  | inside read ahead goesOn h =>
    exact .inside read ahead goesOn (h.next more (beq_false_of_ne stays))

end LoxSyntax.Parse
