import LoxSyntax.Proofs.Grammar.Ebnf
import LoxSyntax.Proofs.Parse.Congruence
import LoxSyntax.Proofs.Parse.ExpressionCompleteness
import LoxSyntax.Proofs.Parse.Progress

namespace LoxSyntax.Parse

open Grammar
open Ebnf (line optional)

/-- The kind of the next token, if there is one. -/
def State.next (s : State) : Option TokenKind := s.ahead.head?.map (·.kind)

namespace Rule

/-- Goes one of two ways, as the next token tells. -/
def choose {α : Type} (p : Option TokenKind → Bool) (rule other : Rule α) : Rule α := fun s =>
  if p s.next then rule s else other s

/-- Uses up a token of one of these kinds, or fails with the problem. -/
def oneOf (kinds : List TokenKind) (problem : Problem) : Rule Token := do
  let some t ← take? kinds | fail problem
  return t

theorem oneOf_ok {kinds : List TokenKind} (problem : Problem) {s : State} {t : Token}
    {rest : List Token} (ahead : s.ahead = t :: rest) (among : t.kind ∈ kinds) :
    oneOf kinds problem s = .ok t { s with ahead := rest } := by
  have some : take? kinds s = .ok (some t) { s with ahead := rest } := by
    simp [take?, ahead, among]
  rw [oneOf, bind_ok _ some]
  rfl

theorem oneOf_error {kinds : List TokenKind} (problem : Problem) {s : State}
    (other : ∀ t ∈ s.ahead.head?, t.kind ∉ kinds) :
    oneOf kinds problem s = .error ⟨s.current, problem⟩ s := by
  have none : take? kinds s = .ok none s := by
    unfold take?
    cases ahead : s.ahead with
    | nil => rfl
    | cons t rest => simpa [ahead] using other
  rw [oneOf, bind_ok _ none]
  rfl

/-- Where a token is taken if it is there, it is looked at first. -/
theorem take?_eq_choose {β : Type} (kinds : List TokenKind) (problem : Problem)
    (f : Option Token → Rule β) :
    take? kinds >>= f =
      choose (·.any kinds.contains) (oneOf kinds problem >>= fun t => f (some t)) (f none) := by
  funext s
  unfold choose State.next
  cases ahead : s.ahead with
  | nil =>
    have none : take? kinds s = .ok none s := by simp only [take?, ahead]
    rw [bind_ok f none]
    rfl
  | cons t rest =>
    by_cases among : kinds.contains t.kind = true
    · have some : take? kinds s = .ok (some t) { s with ahead := rest } := by
        simp only [take?, ahead, if_pos among]
      have one : oneOf kinds problem s = .ok t { s with ahead := rest } :=
        oneOf_ok problem ahead (by simpa using among)
      rw [bind_ok f some]
      simp only [List.head?_cons, Option.map_some, Option.any_some, among, if_true, bind_ok _ one]
    · have none : take? kinds s = .ok none s := by simp only [take?, ahead, if_neg among]
      rw [bind_ok f none]
      simp only [List.head?_cons, Option.map_some, Option.any_some, among]
      rfl

theorem accept_eq_choose {β : Type} (kind : TokenKind) (problem : Problem) (f : Bool → Rule β) :
    accept kind >>= f =
      choose (·.any [kind].contains) (oneOf [kind] problem >>= fun _ => f true) (f false) := by
  have flat : accept kind >>= f = take? [kind] >>= fun found => f found.isSome := by
    rw [accept, bind_assoc]
    rfl
  rw [flat, take?_eq_choose [kind] problem]
  rfl

theorem isNext_eq_choose {β : Type} (kind : TokenKind) (f : Bool → Rule β) :
    isNext kind >>= f = choose (·.any [kind].contains) (f true) (f false) := by
  funext s
  unfold choose State.next
  change f (s.ahead.head?.any (·.kind == kind)) s = _
  cases s.ahead with
  | nil => rfl
  | cons t rest =>
    by_cases is : t.kind = kind
    · simp [is]
    · have differs : (t.kind == kind) = false := by simpa using is
      simp [is, differs]

theorem bind_choose {α β : Type} (p : Option TokenKind → Bool) (rule other : Rule α)
    (f : α → Rule β) : choose p rule other >>= f = choose p (rule >>= f) (other >>= f) := by
  funext s
  change EStateM.bind (choose p rule other) f s = if p s.next then EStateM.bind rule f s
    else EStateM.bind other f s
  unfold EStateM.bind choose
  cases p s.next <;> rfl

theorem map_choose {α β : Type} (g : α → β) (p : Option TokenKind → Bool) (rule other : Rule α) :
    g <$> choose p rule other = choose p (g <$> rule) (g <$> other) := by
  simp only [map_eq_pure_bind, bind_choose]

/-- A repetition that looks at the next token goes on or ends. -/
theorem iterate_eq_choose {α : Type} {step : α → Rule (Option α)} {x : α} {body : Rule α}
    {goesOn : Option TokenKind → Bool} (advances : ∀ x, (step x).Advances)
    (shape : step x = choose goesOn (some <$> body) (pure none)) :
    iterate step x = choose goesOn (body >>= iterate step) (pure x) := by
  rw [iterate_eq_bind advances, shape, bind_choose, bind_map_left, pure_bind]

/-- Of two ways to go on, and none. -/
theorem choose_some {α : Type} (p q : Option TokenKind → Bool) (rule other : Rule α) :
    choose p (some <$> rule) (choose q (some <$> other) (pure none)) =
      choose (fun next => p next || q next) (some <$> choose p rule other) (pure none) := by
  rw [map_choose]
  funext s
  unfold choose
  by_cases first : p s.next = true
  · simp [first]
  · simp [first]

/-- One more link, from its `if` on. -/
def elseIf (inner : Rules) (links : Links) : Rule Links :=
  oneOf [.ifKw] .noExpression >>= fun _ => descend >>= fun _ =>
    (fun guard => { links with guards := links.guards.push guard }) <$> guarded inner

/-- The last branch. -/
def lastElse (inner : Rules) (links : Links) : Rule Links :=
  (fun body => { links with last := some body }) <$> statement inner

theorem elseIf_last {inner : Rules} {links links' : Links} {s s' : State}
    (run : elseIf inner links s = .ok links' s') : links'.last = links.last := by
  obtain ⟨_, t, -, run⟩ := exists_of_bind_ok run
  obtain ⟨_, t', -, run⟩ := exists_of_bind_ok run
  rw [map_eq_pure_bind] at run
  obtain ⟨guard, u, -, made⟩ := exists_of_bind_ok run
  cases made
  rfl

theorem lastElse_last {inner : Rules} {links links' : Links} {s s' : State}
    (run : lastElse inner links s = .ok links' s') : links'.last.isSome = true := by
  rw [lastElse, map_eq_pure_bind] at run
  obtain ⟨body, t, -, made⟩ := exists_of_bind_ok run
  cases made
  rfl

theorem elseLink_eq_choose {inner : Rules} {links : Links} (open_ : links.last = none) :
    elseLink inner links = choose (·.any [TokenKind.elseKw].contains)
      (some <$> (oneOf [.elseKw] .noExpression >>= fun _ =>
        choose (·.any [TokenKind.ifKw].contains) (elseIf inner links) (lastElse inner links)))
      (pure none) := by
  unfold elseLink
  rw [open_, if_neg (by simp), accept_eq_choose .elseKw .noExpression, if_pos rfl,
    if_neg Bool.false_ne_true, accept_eq_choose .ifKw .noExpression, if_pos rfl,
    if_neg Bool.false_ne_true]
  simp only [map_eq_pure_bind, elseIf, lastElse, open_, bind_choose, bind_assoc, pure_bind]

/-- The links from here on, read or not as the next tokens tell. -/
theorem iterate_elseLink {inner : Rules} {links : Links}
    (advances : ∀ links, (elseLink inner links).Advances) (open_ : links.last = none) :
    iterate (elseLink inner) links = choose (·.any [TokenKind.elseKw].contains)
      (oneOf [.elseKw] .noExpression >>= fun _ => choose (·.any [TokenKind.ifKw].contains)
        (elseIf inner links >>= iterate (elseLink inner))
        (lastElse inner links >>= iterate (elseLink inner)))
      (pure links) := by
  rw [iterate_eq_choose advances (elseLink_eq_choose open_), bind_assoc]
  simp only [bind_choose]

/-- A property of rules, each of them with the phrase that it reads and what may be next behind. -/
abbrev Property :=
  Ebnf → (Option TokenKind → Bool) → (α : Type) → Rule α → Prop

/-- Whether a phrase closes as many braces as it opens, or more, and no `else` is put into it. -/
def closing (e : Ebnf) : Bool := e.plain && e.braces.any (· ≤ 0)

/-- A token of one of these kinds may be asked for in front of the rest: its absence is another
problem than a block without its closing brace. -/
def asks (kinds : List TokenKind) (problem : Problem) (rest : Ebnf) : Bool :=
  !kinds.isEmpty && problem != .noMark .rightBrace .afterBlock && closing rest

/-- Anything may be next. -/
def anything : Option TokenKind → Bool := fun _ => true

/-- Nothing but tokens of this kind may be next. -/
def only (kind : TokenKind) : Option TokenKind → Bool := (· == some kind)

/-- What is reported without giving up a rule. -/
def Noted (problem : Problem) : Prop :=
  problem = .invalidTarget ∨ problem = .tooManyArguments ∨ problem = .tooManyParameters

/-- The property holds of the primitive rules and of what is put together of rules that have it.
Where rules run one behind the other, what may be next behind the first leads up to the second;
where a rule goes one of two ways, the next token belongs to one of them only. -/
structure Descent (P : Property) : Prop where
  alike {e e' : Ebnf} {follow : Option TokenKind → Bool} {α : Type} {rule : Rule α}
    (h : P e follow α rule) (same : ∀ w, Derives e w ↔ Derives e' w) : P e' follow α rule
  pure {follow : Option TokenKind → Bool} {α : Type} (a : α) : P .empty follow α (Pure.pure a)
  tooDeep {e : Ebnf} {follow : Option TokenKind → Bool} {α : Type} :
    P e follow α (Rule.fail .tooDeep)
  note {follow : Option TokenKind → Bool} (place : Token → Token) {problem : Problem}
    (noted : Noted problem) : P .empty follow Unit (note place problem)
  descend {follow : Option TokenKind → Bool} : P .empty follow Unit descend
  oneOf {kinds : List TokenKind} {follow : Option TokenKind → Bool} {problem : Problem}
    (some : kinds ≠ []) (other : problem ≠ .noMark .rightBrace .afterBlock) :
    P (.mark kinds) follow Token (oneOf kinds problem)
  bind {a b : Ebnf} {between follow : Option TokenKind → Bool} {α β : Type} {rule : Rule α}
    {f : α → Rule β} (first : P a between α rule) (second : ∀ x, P b follow β (f x))
    (leads : ∀ next, b.leads follow next = true → between next = true)
    (closes : closing b = true) : P (.seq a b) follow β (rule >>= f)
  choose {a b : Ebnf} {follow : Option TokenKind → Bool} {α : Type} {rule other : Rule α}
    {p : Option TokenKind → Bool} (first : P a follow α rule) (second : P b follow α other)
    (decides : ∀ next,
      if p next then b.leads follow next = false else a.leads follow next = false) :
    P (.alt a b) follow α (choose p rule other)
  iterate {a : Ebnf} {between follow : Option TokenKind → Bool} {α : Type}
    {step : α → Rule (Option α)} {body : α → Rule α} {goesOn : Option TokenKind → Bool}
    (shape : ∀ x, step x = Rule.choose goesOn (some <$> body x) (Pure.pure none))
    (advances : ∀ x, (step x).Advances) (each : ∀ x, P a between α (body x))
    (leads : ∀ next, (Ebnf.many a).leads follow next = true → between next = true)
    (decides : ∀ next, if goesOn next then follow next = false else next.any a.starts = false)
    (solid : a.nullable = false) (closes : closing (.many a) = true) (x : α) :
    P (.many a) follow α (iterate step x)
  keepingDepth {e : Ebnf} {follow : Option TokenKind → Bool} {α : Type} {rule : Rule α}
    (inside : P e follow α rule) : P e follow α (keepingDepth rule)
  block {level : Nat}
    (each : P (.phrase .declaration) anything Stmt (declarationRule (rules level))) :
    P (line [.phrase .declarations, .mark [.rightBrace]]) anything (List Stmt) (block (rules level))
  chain {inner : Rules} {links : Links} (open_ : links.last = none)
    (advances : ∀ links, (elseLink inner links).Advances)
    (guard : P (line [.mark [.leftParen], .phrase (.expr .expression), .mark [.rightParen],
      .phrase .statement]) anything (Expr × Stmt) (guarded inner))
    (branch : P (.phrase .statement) anything Stmt (statement inner)) :
    P (.phrase .elseTail) anything Links (Rule.iterate (elseLink inner) links)

namespace Descent

theorem leads_empty {follow : Option TokenKind → Bool} (next : Option TokenKind) :
    Ebnf.empty.leads follow next = follow next := by
  cases next <;> simp [Ebnf.leads, Ebnf.starts, Ebnf.nullable]

theorem production {α : Type} {P : Property} (h : Descent P) {follow : Option TokenKind → Bool}
    {rule : Rule α} {n : Symbol} (inside : P (loose n) follow α rule) :
    P (.phrase n) follow α rule :=
  h.alike inside fun _ => ⟨.phrase, fun | .phrase d => d⟩

/-- The last rule of several. -/
theorem last {α : Type} {P : Property} (h : Descent P) {e : Ebnf} {follow : Option TokenKind → Bool}
    {rule : Rule α} (inside : P e follow α rule) : P (line [e]) follow α rule :=
  h.alike inside fun _ => derives_seq_empty.symm

theorem map {α β : Type} {P : Property} (h : Descent P) {e : Ebnf}
    {follow : Option TokenKind → Bool} {rule : Rule α} (g : α → β) (inside : P e follow α rule) :
    P e follow β (g <$> rule) := by
  rw [map_eq_pure_bind]
  refine h.alike (h.bind inside (fun x => h.pure (g x)) (fun next behind => ?_) rfl)
    (fun _ => derives_seq_empty)
  rwa [leads_empty] at behind

/-- Less may be next. -/
theorem narrow {α : Type} {P : Property} (h : Descent P) {e : Ebnf}
    {follow : Option TokenKind → Bool} {rule : Rule α} {between : Option TokenKind → Bool}
    (inside : P e between α rule) (less : ∀ next, follow next = true → between next = true) :
    P e follow α rule := by
  have given (x : α) : P .empty follow α (Pure.pure x) := h.pure x
  have same := h.bind inside given
    (fun next behind => less next (by rwa [leads_empty] at behind)) rfl
  rw [bind_pure] at same
  exact h.alike same (fun _ => derives_seq_empty)

/-- The last rule, and what is made of it. -/
theorem finish {α β : Type} {P : Property} (h : Descent P) {e : Ebnf}
    {follow : Option TokenKind → Bool} {rule : Rule α} (g : α → β) (inside : P e follow α rule) :
    P (line [e]) follow β (rule >>= fun x => Pure.pure (g x)) := by
  have made := h.last (h.map g inside)
  rwa [map_eq_pure_bind] at made

/-- A rule that uses up nothing, and another. -/
theorem silent {α β : Type} {P : Property} (h : Descent P) {e : Ebnf}
    {follow : Option TokenKind → Bool} {first : Rule α} {f : α → Rule β}
    (before : P .empty (e.leads follow) α first) (inside : ∀ x, P e follow β (f x))
    (closes : closing e = true) : P e follow β (first >>= f) :=
  h.alike (h.bind before inside (fun _ => id) closes) fun _ => derives_empty_seq

theorem nested {α : Type} {P : Property} (h : Descent P) {e : Ebnf}
    {follow : Option TokenKind → Bool} {rule : Rule α} (inside : P e follow α rule)
    (closes : closing e = true) : P e follow α (Rule.nested rule) :=
  h.keepingDepth (h.silent h.descend (fun _ => inside) closes)

/-- A token of one of these kinds, and what stands behind it. -/
theorem token {α : Type} {P : Property} (h : Descent P) {b : Ebnf}
    {follow : Option TokenKind → Bool} {kinds : List TokenKind} {problem : Problem}
    {f : Token → Rule α} (inside : ∀ t, P b follow α (f t)) (asked : asks kinds problem b = true) :
    P (.seq (.mark kinds) b) follow α (Rule.oneOf kinds problem >>= f) := by
  obtain ⟨⟨some, other⟩, closes⟩ : (kinds ≠ [] ∧ problem ≠ .noMark .rightBrace .afterBlock) ∧
      closing b = true := by
    simpa [asks] using asked
  exact h.bind (h.oneOf some other) inside (fun _ => id) closes

theorem mark {α : Type} {P : Property} (h : Descent P) {b : Ebnf} {follow : Option TokenKind → Bool}
    {kind : TokenKind} {place : Place} {f : Token → Rule α} (inside : ∀ t, P b follow α (f t))
    (asked : asks [kind] (.noMark kind place) b = true) :
    P (.seq (.mark [kind]) b) follow α (Rule.mark kind place >>= f) :=
  h.token inside asked

theorem name {α : Type} {P : Property} (h : Descent P) {b : Ebnf} {follow : Option TokenKind → Bool}
    {role : NameRole} {f : Token → Rule α} (inside : ∀ t, P b follow α (f t))
    (asked : asks [.identifier] (.noName role) b = true) :
    P (.seq (.mark [.identifier]) b) follow α (Rule.name role >>= f) :=
  h.token inside asked

theorem leads_mark {b : Ebnf} {follow : Option TokenKind → Bool} (kinds : List TokenKind)
    (next : Option TokenKind) :
    (Ebnf.seq (.mark kinds) b).leads follow next = next.any kinds.contains := by
  cases next <;> simp [Ebnf.leads, Ebnf.starts, Ebnf.nullable]

theorem behind {α : Type} {P : Property} (h : Descent P) {e : Ebnf}
    {follow : Option TokenKind → Bool} {rule : Rule α} {kind : TokenKind}
    (inside : P e follow α rule) (other : follow (some kind) = false)
    (asked : asks [kind] .noExpression (line [e]) = true) :
    P (optional (line [.mark [kind], e])) follow (Option α) (Rule.behind kind rule) := by
  unfold Rule.behind
  rw [accept_eq_choose kind .noExpression]
  refine h.choose (h.token (fun _ => h.last (h.map some inside)) asked) (h.pure none) ?_
  intro next
  rw [leads_empty, line, List.foldr_cons, leads_mark]
  cases next with
  | none => rfl
  | some k =>
    by_cases is : k = kind
    · simp [is, other]
    · simp [is]

theorem before {α : Type} {P : Property} (h : Descent P) {e : Ebnf} {rule : Rule α}
    {kind : TokenKind} (inside : P e (only kind) α rule)
    (apart : e.leads (only kind) (some kind) = false) :
    P (optional e) (only kind) (Option α) (Rule.before kind rule) := by
  unfold Rule.before
  rw [isNext_eq_choose]
  have either : P (.alt .empty e) (only kind) (Option α)
      (Rule.choose (·.any [kind].contains) (Pure.pure none) (some <$> rule)) := by
    refine h.choose (h.pure none) (h.map some inside) fun next => ?_
    rw [leads_empty]
    cases next with
    | none => rfl
    | some k =>
      by_cases is : k = kind
      · simpa [is] using apart
      · simp [is, only]
  exact h.alike either fun _ => derives_alt_comm

theorem addItem {α : Type} {P : Property} (h : Descent P) {e : Ebnf} {rule : Rule α}
    {excess : Problem} {between : Option TokenKind → Bool} (noted : Noted excess)
    (inside : P e between α rule) (closes : closing e = true) (items : Array α) :
    P e between (Array α) (Rule.addItem rule excess items) := by
  have count : P .empty (e.leads between) Unit (Rule.checkCount items.size excess) := by
    rw [checkCount_eq_ite]
    split
    · exact h.note id noted
    · exact h.pure ()
  have pushed := h.map items.push inside
  rw [map_eq_pure_bind] at pushed
  exact h.silent count (fun _ => pushed) closes

theorem commaSeparated {α : Type} {P : Property} (h : Descent P) {e : Ebnf} {rule : Rule α}
    {excess : Problem} {between : Option TokenKind → Bool} {Q : State → α → State → Prop}
    (noted : Noted excess) (inside : P e between α rule) (reads : rule.Yields Q)
    (comma : between (some .comma) = true) (ends : between (some .rightParen) = true)
    (plain : e.plain = true) (even : e.braces = some 0) :
    P (line [e, .many (line [.mark [.comma], e])]) (only .rightParen) (List α)
      (Rule.commaSeparated rule excess) := by
  have closes : closing (line [e]) = true := by
    simp [closing, line, Ebnf.plain, Ebnf.braces, plain, even]
  have item := h.addItem noted inside (by simp [closing, plain, even])
  let body (items : Array α) : Rule (Array α) :=
    Rule.oneOf [.comma] .noExpression >>= fun _ => Rule.addItem rule excess items
  let goesOn : Option TokenKind → Bool := (·.any [TokenKind.comma].contains)
  have shape (items : Array α) : Rule.behind .comma (Rule.addItem rule excess items) =
      Rule.choose goesOn (some <$> body items) (Pure.pure none) := by
    rw [Rule.behind, accept_eq_choose .comma .noExpression, map_bind]
    rfl
  have each (items : Array α) : P (line [.mark [.comma], e]) between (Array α) (body items) :=
    h.token (fun _ => h.last (item items)) (by simpa [asks, line] using closes)
  have leads (next : Option TokenKind) :
      (Ebnf.many (line [.mark [.comma], e])).leads (only .rightParen) next = true →
        between next = true := by
    cases next with
    | none => simp [Ebnf.leads, Ebnf.starts, only]
    | some k =>
      intro one
      have either : k = .comma ∨ k = .rightParen := by
        simpa [Ebnf.leads, Ebnf.starts, Ebnf.nullable, line, only] using one
      rcases either with rfl | rfl <;> assumption
  have decides (next : Option TokenKind) : if goesOn next then only .rightParen next = false
      else next.any (line [.mark [.comma], e]).starts = false := by
    cases next with
    | none => rfl
    | some k =>
      by_cases is : k = .comma
      · simp [goesOn, is, only]
      · simp [goesOn, is, Ebnf.starts, Ebnf.nullable, line]
  have others (first : Array α) : P (.many (line [.mark [.comma], e])) (only .rightParen) (Array α)
      (Rule.iterate (fun items => Rule.behind .comma (Rule.addItem rule excess items)) first) :=
    h.iterate shape (fun items => .behind .comma (.addItem excess items reads)) each leads decides
      rfl (by simp [closing, line, Ebnf.plain, Ebnf.braces, brace, plain, even]) first
  unfold Rule.commaSeparated
  refine h.bind (item #[]) (fun first => ?_) (fun next => ?_) ?_
  · exact h.finish Array.toList (others first)
  · intro one
    apply leads
    simpa [Ebnf.leads, Ebnf.starts, Ebnf.nullable] using one
  · simp [closing, Ebnf.plain, Ebnf.braces, line, brace, plain, even]

end Descent

end Rule

open Rule (Property Descent anything only)

/-- What may be next behind an expression of this grade: nothing that carries it further. -/
def ends (g : Grade) : Option TokenKind → Bool := (·.all fun k => strength k < g.rank)

/-- Rules that have the property where they are run a level further in. -/
structure Rules.Descends (P : Property) (inner : Rules) : Prop where
  sound : inner.Sound
  assignment : P (.phrase (.expr .assignment)) (ends .assignment) Expr
    (Rule.nested inner.assignment)
  unary : P (.phrase (.expr .unary)) (ends .unary) Expr (Rule.nested inner.unary)
  statement : P (.phrase .statement) anything Stmt (Rule.nested inner.statement)
  function (kind : FunctionKind) :
    P (.phrase .function) anything Function (Rule.nested (inner.function kind))

namespace Rule.Descent

theorem expression {P : Property} (h : Descent P) {inner : Rules} (hi : inner.Descends P) :
    P (.phrase (.expr .expression)) (ends .expression) Expr (expression inner) :=
  h.production hi.assignment

/-- An expression in front of a mark. -/
theorem expressionThen {P : Property} (h : Descent P) {inner : Rules} (hi : inner.Descends P)
    {α : Type} {b : Ebnf} {follow : Option TokenKind → Bool} {f : Expr → Rule α}
    (inside : ∀ e, P b follow α (f e))
    (leads : ∀ next, b.leads follow next = true → ends .expression next = true)
    (closes : closing b = true) :
    P (.seq (.phrase (.expr .expression)) b) follow α (Parse.expression inner >>= f) :=
  h.bind (h.expression hi) inside leads closes

theorem arguments {P : Property} (h : Descent P) {inner : Rules} (hi : inner.Descends P) :
    P (.phrase .arguments) (only .rightParen) (Option (List Expr))
    (Rule.before .rightParen (Rule.commaSeparated (Parse.expression inner) .tooManyArguments)) := by
  refine h.production (h.before (h.production ?_) (by decide))
  exact h.commaSeparated (.inr (.inl rfl)) (h.expression hi) (expression_reads hi.sound) rfl rfl rfl
    rfl

theorem finishCall {P : Property} (h : Descent P) {inner : Rules} (hi : inner.Descends P)
    (callee : Expr) :
    P (line [.phrase .arguments, .mark [.rightParen]]) anything Expr (finishCall inner callee) :=
  h.bind (h.arguments hi) (fun _ => h.mark (fun _ => h.pure _) rfl) (by decide) rfl

theorem callRule {P : Property} (h : Descent P) {inner : Rules} (hi : inner.Descends P)
    (inside : P (.phrase (.expr .primary)) (ends .primary) Expr (primary inner)) :
    P (.phrase (.expr .call)) (ends .call) Expr (call inner) := by
  let body (left : Expr) : Rule Expr := Rule.choose (·.any [TokenKind.leftParen].contains)
    (Rule.oneOf [.leftParen] .noExpression >>= fun _ => Parse.finishCall inner left)
    (Rule.oneOf [.dot] .noExpression >>= fun _ => .get left <$> Rule.name .ofProperty)
  have shape (left : Expr) : callOrGet inner left =
      Rule.choose (fun next => next.any [TokenKind.leftParen].contains ||
        next.any [TokenKind.dot].contains) (some <$> body left) (Pure.pure none) := by
    have called : some <$> (Rule.oneOf [.leftParen] .noExpression >>= fun _ =>
        Parse.finishCall inner left) =
        (Rule.oneOf [.leftParen] .noExpression >>= fun _ => some <$> Parse.finishCall inner left) :=
      map_bind ..
    have got : some <$> (Rule.oneOf [.dot] .noExpression >>= fun _ =>
        Expr.get left <$> Rule.name .ofProperty) =
        (Rule.oneOf [.dot] .noExpression >>= fun _ =>
          some <$> Expr.get left <$> Rule.name .ofProperty) :=
      map_bind ..
    rw [← choose_some, called, got, callOrGet, accept_eq_choose .leftParen .noExpression,
      Rule.behind, accept_eq_choose .dot .noExpression]
    rfl
  have each (left : Expr) : P (Ebnf.oneOf
      (line [.mark [.leftParen], .phrase .arguments, .mark [.rightParen]])
      [line [.mark [.dot], .mark [.identifier]]]) anything Expr (body left) := by
    have property : P (.mark [.identifier]) anything Token (Rule.name .ofProperty) :=
      h.oneOf (by simp) (by simp)
    exact h.choose (h.token (fun _ => h.finishCall hi left) rfl)
      (h.token (fun _ => h.last (h.map (Expr.get left) property)) rfl) (by decide)
  have steps (e : Expr) : P (.many (Ebnf.oneOf
      (line [.mark [.leftParen], .phrase .arguments, .mark [.rightParen]])
      [line [.mark [.dot], .mark [.identifier]]])) (ends .call) Expr
      (Rule.iterate (callOrGet inner) e) :=
    h.iterate shape (callOrGet_advances hi.sound) each (fun _ _ => rfl) (by decide) rfl rfl e
  exact h.production (h.bind inside (fun e => h.last (steps e)) (by decide) rfl)

/-- The primary expressions of one token. -/
def leaf (t : Token) : Expr :=
  match t.kind with
  | .falseKw => .constant (.bool false)
  | .trueKw => .constant (.bool true)
  | .nilKw => .constant .nil
  | .number | .string => .constant (t.literal.elim .nil .literal)
  | .thisKw => .this t
  | _ => .reference t

theorem primary_eq_choose {inner : Rules} : primary inner =
    Rule.choose (fun next => !next.any [TokenKind.superKw, .leftParen].contains)
      (Rule.oneOf [.falseKw, .trueKw, .nilKw, .number, .string, .thisKw, .identifier] .noExpression
        >>= fun t => Pure.pure (leaf t))
      (Rule.choose (·.any [TokenKind.superKw].contains)
        (Rule.oneOf [.superKw] .noExpression >>= fun t => Rule.mark .dot .afterSuper >>= fun _ =>
          Rule.name .ofSuperclassMethod >>= fun method => Pure.pure (.super t method))
        (Rule.oneOf [.leftParen] .noExpression >>= fun _ => Parse.expression inner >>= fun e =>
          Rule.mark .rightParen .afterExpression >>= fun _ => Pure.pure (.grouping e))) := by
  funext s
  obtain ⟨ahead, stop, depth, halted, errors⟩ := s
  cases ahead with
  | nil => rfl
  | cons t rest =>
    obtain ⟨kind, lexeme, literal, place⟩ := t
    cases kind <;> rfl

theorem primaryRule {P : Property} (h : Descent P) {inner : Rules} (hi : inner.Descends P) :
    P (.phrase (.expr .primary)) (ends .primary) Expr (primary inner) := by
  rw [primary_eq_choose]
  refine h.production (h.choose (h.map leaf (h.oneOf (by simp) (by simp)))
    (h.choose ?_ ?_ (by decide)) (by decide))
  · exact h.token (fun _ => h.mark (fun _ => h.name (fun _ => h.pure _) rfl) rfl) rfl
  · exact h.token (fun _ => h.expressionThen hi (fun _ => h.mark (fun _ => h.pure _) rfl)
      (by decide) rfl) rfl

theorem unaryRule {P : Property} (h : Descent P) {inner : Rules} (hi : inner.Descends P) :
    P (.phrase (.expr .unary)) (ends .unary) Expr (unary inner) := by
  unfold unary
  rw [take?_eq_choose [.bang, .minus] .noExpression]
  exact h.production (h.choose
    (h.token (fun operator => h.finish (Expr.unary operator) hi.unary) rfl)
    (h.callRule hi (h.primaryRule hi)) (by decide))

/-- Every level of operators, the tightest first. -/
theorem leftAssociative {P : Property} (h : Descent P) {inner : Rules} (hi : inner.Descends P)
    (level : Precedence)
    (inside : P (.phrase (.expr level.tighter)) (ends level.tighter) Expr
      (inner.expr level.tighter)) :
    P (.phrase (.expr (.binary level))) (ends (.binary level)) Expr
      (inner.expr (.binary level)) := by
  let body (left : Expr) : Rule Expr :=
    Rule.oneOf level.operators .noExpression >>= fun operator =>
      inner.expr level.tighter >>= fun right => Pure.pure (level.node left operator right)
  have shape (left : Expr) :
      foldOperand level.operators (inner.expr level.tighter) level.node left =
        Rule.choose (·.any level.operators.contains) (some <$> body left) (Pure.pure none) := by
    have folded : some <$> body left = (Rule.oneOf level.operators .noExpression >>= fun operator =>
        inner.expr level.tighter >>= fun right =>
          Pure.pure (some (level.node left operator right))) := by
      simp only [body, map_bind, map_pure]
    rw [folded, foldOperand, take?_eq_choose level.operators .noExpression]
  have each (left : Expr) : P (line [.mark level.operators, .phrase (.expr level.tighter)])
      (ends level.tighter) Expr (body left) :=
    h.token (fun operator => h.finish (level.node left operator) inside) (by cases level <;> rfl)
  have steps (left : Expr) : P (.many (line [.mark level.operators, .phrase (.expr level.tighter)]))
      (ends (.binary level)) Expr
      (Rule.iterate (foldOperand level.operators (inner.expr level.tighter) level.node) left) :=
    h.iterate shape
      (foldOperand_advances level.operators (operand_reads hi.sound level) level.node) each
      (by cases level <;> decide) (by cases level <;> decide) rfl (by cases level <;> rfl) left
  rw [Rules.expr_binary]
  refine h.production (h.bind inside (fun left => h.last (steps left)) ?_ ?_)
  · cases level <;> decide
  · cases level <;> rfl

theorem disjunctionRule {P : Property} (h : Descent P) {inner : Rules} (hi : inner.Descends P) :
    P (.phrase (.expr (.binary .disjunction))) (ends (.binary .disjunction)) Expr
      (disjunction inner) :=
  h.leftAssociative hi .disjunction <| h.leftAssociative hi .conjunction <|
    h.leftAssociative hi .equality <| h.leftAssociative hi .comparison <|
    h.leftAssociative hi .term <| h.leftAssociative hi .factor <| h.unaryRule hi

theorem assignmentRule {P : Property} (h : Descent P) {inner : Rules} (hi : inner.Descends P) :
    P (.phrase (.expr .assignment)) (ends .assignment) Expr (assignment inner) := by
  unfold assignment
  refine h.production (h.bind (h.disjunctionRule hi) (fun target => ?_) (by decide) rfl)
  rw [take?_eq_choose [.equal] .noExpression]
  refine h.last (h.choose (h.token (fun equal => ?_) rfl) (h.pure target) (by decide))
  refine h.bind hi.assignment (fun value => ?_) (fun next behind => ?_) rfl
  · cases target with
    | reference name => exact h.pure (Expr.assign name value)
    | get object name => exact h.pure (Expr.set object name value)
    | _ => exact h.silent (h.note (fun _ => equal) (.inl rfl)) (fun _ => h.pure _) rfl
  · rwa [List.foldr_nil, leads_empty] at behind

theorem binding {P : Property} (h : Descent P) {inner : Rules} (hi : inner.Descends P) :
    P (.phrase .binding) anything Stmt (varDeclaration inner) := by
  have initializer : P (.phrase .initializer) (only .semicolon) (Option Expr)
      (Rule.behind .equal (Parse.expression inner)) :=
    h.production (h.behind (h.narrow (h.expression hi) (by decide)) rfl rfl)
  exact h.production (h.name (fun _ => h.bind initializer (fun _ => h.mark (fun _ => h.pure _) rfl)
    (by decide) rfl) rfl)

theorem exprStmt {P : Property} (h : Descent P) {inner : Rules} (hi : inner.Descends P) :
    P (.phrase .exprStmt) anything Stmt (expressionStatement inner) :=
  h.production (h.expressionThen hi (fun _ => h.mark (fun _ => h.pure _) rfl) (by decide) rfl)

/-- An expression that may be left out in front of a mark. -/
theorem optionalExpression {P : Property} (h : Descent P) {inner : Rules} (hi : inner.Descends P)
    {kind : TokenKind} (leads : ends .expression (some kind) = true)
    (apart : startsExpr kind = false) :
    P (.phrase .optional) (only kind) (Option Expr)
      (Rule.before kind (Parse.expression inner)) := by
  refine h.production (h.before (h.narrow (h.expression hi) fun next is => ?_) ?_)
  · obtain rfl : next = some kind := by simpa [only] using is
    exact leads
  · simp [Ebnf.leads, Ebnf.starts, Ebnf.nullable, Symbol.starts, Symbol.nullable, apart]

theorem printForm {P : Property} (h : Descent P) {inner : Rules} (hi : inner.Descends P) :
    P (line [.phrase (.expr .expression), .mark [.semicolon]]) anything Stmt
    (printStatement inner) :=
  h.expressionThen hi (fun _ => h.mark (fun _ => h.pure _) rfl) (by decide) rfl

theorem returnForm {P : Property} (h : Descent P) {inner : Rules} (hi : inner.Descends P)
    (keyword : Token) :
    P (line [.phrase .optional, .mark [.semicolon]]) anything Stmt
      (returnStatement inner keyword) :=
  h.bind (h.optionalExpression hi rfl rfl) (fun _ => h.mark (fun _ => h.pure _) rfl) (by decide) rfl

theorem whileForm {P : Property} (h : Descent P) {inner : Rules} (hi : inner.Descends P) :
    P (line [.mark [.leftParen], .phrase (.expr .expression), .mark [.rightParen],
    .phrase .statement]) anything Stmt (whileStatement inner) :=
  h.mark (fun _ => h.expressionThen hi (fun _ => h.mark (fun _ => h.finish _ hi.statement) rfl)
    (by decide) rfl) rfl

theorem forInit {P : Property} (h : Descent P) {inner : Rules} (hi : inner.Descends P) :
    P (.phrase .forInit) anything (Option Stmt) (forInitializer inner) := by
  unfold forInitializer
  rw [accept_eq_choose .semicolon .noExpression, if_pos rfl, if_neg Bool.false_ne_true,
    accept_eq_choose .varKw .noExpression, if_pos rfl, if_neg Bool.false_ne_true]
  have semicolon : P (.mark [.semicolon]) anything Token (Rule.oneOf [.semicolon] .noExpression) :=
    h.oneOf (by simp) (by simp)
  have none := h.map (fun _ => (none : Option Stmt)) semicolon
  rw [map_eq_pure_bind] at none
  exact h.production (h.choose none (h.choose
    (h.token (fun _ => h.last (h.map some (h.binding hi))) rfl) (h.map some (h.exprStmt hi))
    (by decide)) (by decide))

theorem forForm {P : Property} (h : Descent P) {inner : Rules} (hi : inner.Descends P) :
    P (line [.mark [.leftParen], .phrase .forInit, .phrase .optional,
    .mark [.semicolon], .phrase .optional, .mark [.rightParen], .phrase .statement]) anything Stmt
    (forStatement inner) := by
  refine h.mark (fun _ => h.bind (h.forInit hi) (fun _ => ?_) (by decide) rfl) rfl
  refine h.bind (h.optionalExpression hi rfl rfl) (fun _ => ?_) (by decide) rfl
  refine h.mark (fun _ =>
    h.bind (h.optionalExpression hi rfl rfl) (fun _ => ?_) (by decide) rfl) rfl
  exact h.mark (fun _ => h.finish _ hi.statement) rfl

theorem guard {P : Property} (h : Descent P) {inner : Rules} (hi : inner.Descends P) :
    P (line [.mark [.leftParen], .phrase (.expr .expression), .mark [.rightParen],
    .phrase .statement]) anything (Expr × Stmt) (guarded inner) :=
  h.mark (fun _ => h.expressionThen hi (fun _ => h.mark (fun _ => h.finish _ hi.statement) rfl)
    (by decide) rfl) rfl

theorem ifForm {P : Property} (h : Descent P) {inner : Rules} (hi : inner.Descends P) :
    P (line [.mark [.leftParen], .phrase (.expr .expression), .mark [.rightParen],
    .phrase .statement, .phrase .elseTail]) anything Stmt (ifStatement inner) := by
  have links : P (.phrase .elseTail) anything Links (Rule.iterate (elseLink inner) ⟨#[], none⟩) :=
    h.chain rfl (elseLink_advances hi.sound) (h.guard hi) hi.statement
  have both := h.bind (h.guard hi)
    (fun guard : Expr × Stmt =>
      h.finish (fun links => Stmt.ifElse guard.1 guard.2 links.toElse) links)
    (fun _ _ => rfl) rfl
  exact h.keepingDepth (h.alike both fun _ => derives_line_append _ _)

theorem methods {P : Property} (h : Descent P) {inner : Rules} (hi : inner.Descends P) :
    P (.phrase .methods) (only .rightBrace) (Array Function)
    (Rule.iterate (addMethod inner) #[]) := by
  let goesOn : Option TokenKind → Bool := fun next => next.isSome && next != some .rightBrace
  have shape (methods : Array Function) : addMethod inner methods =
      Rule.choose goesOn (some <$> methods.push <$> Parse.function inner .method)
        (Pure.pure none) := by
    funext s
    obtain ⟨ahead, stop, depth, halted, errors⟩ := s
    cases ahead with
    | nil => rfl
    | cons t rest =>
      obtain ⟨kind, lexeme, literal, place⟩ := t
      rw [Functor.map_map, map_eq_pure_bind]
      cases kind <;> rfl
  exact h.production (h.iterate shape (addMethod_advances hi.sound)
    (fun methods => h.map methods.push (hi.function .method)) (fun _ _ => rfl) (by decide) rfl
    rfl #[])

theorem classForm {P : Property} (h : Descent P) {inner : Rules} (hi : inner.Descends P) :
    P (line [.mark [.identifier],
    optional (line [.mark [.less], .mark [.identifier]]), .mark [.leftBrace], .phrase .methods,
    .mark [.rightBrace]]) anything Stmt (classDeclaration inner) := by
  have parent : P (optional (line [.mark [.less], .mark [.identifier]])) (only .leftBrace)
      (Option Token) (Rule.behind .less (Rule.name .ofSuperclass)) :=
    h.behind (h.oneOf (by simp) (by simp)) rfl rfl
  refine h.name (fun _ => h.bind parent (fun _ => ?_) (by decide) rfl) rfl
  refine h.mark (fun _ => h.bind (h.methods hi) (fun _ => ?_) (by decide) rfl) rfl
  exact h.mark (fun _ => h.pure _) rfl

theorem declarationRule {P : Property} (h : Descent P) {inner : Rules} (hi : inner.Descends P) :
    P (.phrase .declaration) anything Stmt (declarationRule inner) := by
  unfold Parse.declarationRule
  rw [accept_eq_choose .classKw .noExpression, if_pos rfl, if_neg Bool.false_ne_true,
    accept_eq_choose .funKw .noExpression, if_pos rfl, if_neg Bool.false_ne_true,
    accept_eq_choose .varKw .noExpression, if_pos rfl, if_neg Bool.false_ne_true]
  refine h.production (h.choose (h.token (fun _ => h.classForm hi) rfl) (h.choose ?_ (h.choose ?_
    hi.statement (by decide)) (by decide)) (by decide))
  · exact h.token (fun _ => h.last (h.map Stmt.function (hi.function .function))) rfl
  · exact h.token (fun _ => h.last (h.binding hi)) rfl

theorem braced {P : Property} (h : Descent P) {level : Nat} (hl : (rules level).Descends P)
    {place : Problem} (other : place ≠ .noMark .rightBrace .afterBlock) :
    P (.phrase .block) anything (List Stmt)
      (Rule.oneOf [.leftBrace] place >>= fun _ => Parse.block (rules level)) := by
  have closes : closing (line [.phrase .declarations, .mark [.rightBrace]]) = true := rfl
  exact h.production (h.token (fun _ => h.block (h.declarationRule hl))
    (by simpa [asks, other, line] using closes))

theorem definition {P : Property} (h : Descent P) {level : Nat} (hl : (rules level).Descends P)
    (kind : FunctionKind) :
    P (.phrase .definition) anything Function (functionBody (rules level) kind) := by
  have parameters : P (.phrase .parameters) (only .rightParen) (Option (List Token))
      (Rule.before .rightParen
        (Rule.commaSeparated (Rule.name .ofParameter) .tooManyParameters)) := by
    have each : P (.mark [.identifier]) anything Token (Rule.name .ofParameter) :=
      h.oneOf (by simp) (by simp)
    refine h.production (h.before (h.production ?_) (by decide))
    exact h.commaSeparated (.inr (.inr rfl)) each (.expect .identifier (.noName .ofParameter)) rfl
      rfl rfl rfl
  have body (make : List Stmt → Function) : P (line [.phrase .block]) anything Function
      (Rule.mark .leftBrace (.beforeFunctionBody kind) >>= fun _ =>
        Parse.block (rules level) >>= fun body => Pure.pure (make body)) := by
    have braced : P (.phrase .block) anything (List Stmt)
        (Rule.mark .leftBrace (.beforeFunctionBody kind) >>= fun _ => Parse.block (rules level)) :=
      h.braced hl (by simp)
    have read := h.finish make braced
    rwa [bind_assoc] at read
  refine h.production (h.name (fun _ => h.mark (fun _ => h.bind parameters (fun _ => ?_) (by decide)
    rfl) rfl) rfl)
  exact h.mark (fun _ => body _) rfl

theorem statementBody_eq_choose (inner : Rules) : statementBody inner =
    Rule.choose (·.any [TokenKind.forKw].contains)
      (Rule.oneOf [.forKw] .noExpression >>= fun _ => forStatement inner)
    (Rule.choose (·.any [TokenKind.ifKw].contains)
      (Rule.oneOf [.ifKw] .noExpression >>= fun _ => ifStatement inner)
    (Rule.choose (·.any [TokenKind.printKw].contains)
      (Rule.oneOf [.printKw] .noExpression >>= fun _ => printStatement inner)
    (Rule.choose (·.any [TokenKind.returnKw].contains)
      (Rule.oneOf [.returnKw] .noExpression >>= fun keyword => returnStatement inner keyword)
    (Rule.choose (·.any [TokenKind.whileKw].contains)
      (Rule.oneOf [.whileKw] .noExpression >>= fun _ => whileStatement inner)
    (Rule.choose (·.any [TokenKind.leftBrace].contains)
      (.block <$> (Rule.oneOf [.leftBrace] .noExpression >>= fun _ => Parse.block inner))
      (expressionStatement inner)))))) := by
  rw [map_bind]
  funext s
  obtain ⟨ahead, stop, depth, halted, errors⟩ := s
  cases ahead with
  | nil => rfl
  | cons t rest =>
    obtain ⟨kind, lexeme, literal, place⟩ := t
    cases kind <;> rfl

theorem form {P : Property} (h : Descent P) {level : Nat} (hl : (rules level).Descends P) :
    P (.phrase .form) anything Stmt (statementBody (rules level)) := by
  rw [statementBody_eq_choose]
  refine h.production (h.choose (h.token (fun _ => h.forForm hl) rfl) ?_ (by decide))
  refine h.choose (h.token (fun _ => h.ifForm hl) rfl) ?_ (by decide)
  refine h.choose (h.token (fun _ => h.printForm hl) rfl) ?_ (by decide)
  refine h.choose (h.token (fun keyword => h.returnForm hl keyword) rfl) ?_ (by decide)
  refine h.choose (h.token (fun _ => h.whileForm hl) rfl) ?_ (by decide)
  exact h.choose (h.map Stmt.block (h.braced hl (by simp))) (h.exprStmt hl) (by decide)

/-- The property holds of the rules at every level. -/
theorem descends {P : Property} (h : Descent P) (level : Nat) : (rules level).Descends P := by
  induction level with
  | zero =>
    have limit {e : Ebnf} {follow : Option TokenKind → Bool} {α : Type}
        (closes : closing e = true) : P e follow α (Rule.nested (Rule.fail .tooDeep)) :=
      h.nested h.tooDeep closes
    exact ⟨rules_sound 0, limit rfl, limit rfl, limit rfl, fun _ => limit rfl⟩
  | succ level ih =>
    refine ⟨rules_sound (level + 1), h.nested (h.assignmentRule ih) rfl,
      h.nested (h.unaryRule ih) rfl, h.production (h.nested (h.form ih) rfl), fun kind => ?_⟩
    exact h.production (h.nested (h.definition ih kind) rfl)

end Rule.Descent

end LoxSyntax.Parse
