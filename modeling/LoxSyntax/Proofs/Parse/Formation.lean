import LoxSyntax.Proofs.Parse.Declarations
import LoxSyntax.Proofs.Tree.WellFormed

namespace LoxSyntax

open Grammar

namespace Parse

/-- What is left to read is of these tokens, and a result is as told. -/
def Built {α : Type} (tokens : List Token) (good : α → Prop) :
    EStateM.Result ParseError State α → Prop
  | .ok a s => s.ahead ⊆ tokens ∧ good a
  | .error _ s => s.ahead ⊆ tokens

/-- Where the rule reads these tokens, its results are as told. -/
def Rule.Builds {α : Type} (tokens : List Token) (rule : Rule α) (good : α → Prop) : Prop :=
  ∀ s : State, s.ahead ⊆ tokens → Built tokens good (rule s)

theorem forall_mem_push {α : Type} {P : α → Prop} {items : Array α} {a : α}
    (others : ∀ b ∈ items.toList, P b) (good : P a) : ∀ b ∈ (items.push a).toList, P b := by
  rw [Array.toList_push]
  exact List.forall_mem_append.mpr ⟨others, List.forall_mem_singleton.mpr good⟩

/-- A list that may be left out. -/
theorem forall_mem_getD {α : Type} {P : α → Prop} {found : Option (List α)}
    (each : ∀ all ∈ found, ∀ a ∈ all, P a) : ∀ a ∈ found.getD [], P a := by
  cases found with
  | none => nofun
  | some all => exact each all rfl

namespace Rule.Builds

theorem imp {α : Type} {tokens : List Token} {rule : Rule α} {P Q : α → Prop}
    (h : Builds tokens rule P) (w : ∀ a, P a → Q a) : Builds tokens rule Q := by
  intro s inside
  have outcome := h s inside
  cases run : rule s with
  | ok a s' =>
    rw [run] at outcome
    exact outcome.imp_right (w a)
  | error e s' =>
    rw [run] at outcome
    exact outcome

theorem pure {α : Type} {tokens : List Token} {P : α → Prop} {a : α} (good : P a) :
    Builds tokens (Pure.pure a) P := fun _ inside => ⟨inside, good⟩

theorem bind {α β : Type} {tokens : List Token} {rule : Rule α} {P : α → Prop} {R : β → Prop}
    {f : α → Rule β} (h : Builds tokens rule P) (hf : ∀ a, P a → Builds tokens (f a) R) :
    Builds tokens (rule >>= f) R := by
  intro s inside
  have first := h s inside
  cases run : rule s with
  | error e s' =>
    rw [run] at first
    rw [bind_error f run]
    exact first
  | ok a s' =>
    rw [run] at first
    rw [bind_ok f run]
    exact hf a first.2 s' first.1

theorem map {α β : Type} {tokens : List Token} {rule : Rule α} {P : α → Prop} {R : β → Prop}
    {g : α → β} (h : Builds tokens rule P) (w : ∀ a, P a → R (g a)) :
    Builds tokens (g <$> rule) R := by
  rw [map_eq_pure_bind]
  exact h.bind fun a good => pure (w a good)

theorem ite {α : Type} {tokens : List Token} {rule : Rule α} {P : α → Prop} {rule' : Rule α}
    (c : Prop) [Decidable c] (h : Builds tokens rule P) (h' : Builds tokens rule' P) :
    Builds tokens (if c then rule else rule') P := by
  split
  · exact h
  · exact h'

theorem fail {α : Type} {tokens : List Token} {P : α → Prop} (problem : Problem) :
    Builds tokens (Rule.fail problem : Rule α) P :=
  fun _ inside => inside

theorem report {tokens : List Token} (e : ParseError) :
    Builds tokens (Rule.report e) fun _ => True := by
  intro s inside
  exact ⟨by rwa [State.ahead_record], trivial⟩

theorem peek? {tokens : List Token} :
    Builds tokens Rule.peek? fun found => ∀ t ∈ found, t ∈ tokens :=
  fun _ inside => ⟨inside, fun _ next => inside (List.mem_of_head? next)⟩

theorem skip {tokens : List Token} : Builds tokens Rule.skip fun _ => True :=
  fun _ inside => ⟨fun _ is => inside (List.mem_of_mem_tail is), trivial⟩

theorem isNext {tokens : List Token} (kind : TokenKind) :
    Builds tokens (Rule.isNext kind) fun _ => True :=
  fun _ inside => ⟨inside, trivial⟩

theorem take? {tokens : List Token} (kinds : List TokenKind) :
    Builds tokens (Rule.take? kinds) fun found => ∀ t ∈ found, t.Among tokens kinds := by
  intro s inside
  unfold Rule.take?
  cases ahead : s.ahead with
  | nil => exact ⟨inside, nofun⟩
  | cons t rest =>
    rw [ahead] at inside
    by_cases taken : kinds.contains t.kind
    · simp only [if_pos taken]
      refine ⟨fun _ is => inside (List.mem_cons_of_mem t is), fun u is => ?_⟩
      cases is
      exact ⟨inside List.mem_cons_self, by simpa using taken⟩
    · simp only [if_neg taken]
      exact ⟨ahead ▸ inside, nofun⟩

theorem accept {tokens : List Token} (kind : TokenKind) :
    Builds tokens (Rule.accept kind) fun _ => True :=
  (take? [kind]).bind fun _ _ => pure trivial

theorem expect {tokens : List Token} (kind : TokenKind) (problem : Problem) :
    Builds tokens (Rule.expect kind problem) fun t => t.Among tokens [kind] := by
  refine (take? [kind]).bind fun found taken => ?_
  cases found with
  | none => exact fail problem
  | some t => exact pure (taken t rfl)

theorem descend {tokens : List Token} : Builds tokens Rule.descend fun _ => True := by
  intro s inside
  by_cases room : s.depth < maxDepth
  · rw [descend_ok room]
    exact ⟨inside, trivial⟩
  · rw [descend_error room]
    exact inside

theorem keepingDepth {α : Type} {tokens : List Token} {rule : Rule α} {P : α → Prop}
    (h : Builds tokens rule P) : Builds tokens (Rule.keepingDepth rule) P := by
  intro s inside
  have outcome := h s inside
  cases run : rule s with
  | ok a s' =>
    rw [run] at outcome
    rw [keepingDepth_ok run]
    exact outcome
  | error e s' =>
    rw [run] at outcome
    rw [keepingDepth_error run]
    exact outcome

theorem nested {α : Type} {tokens : List Token} {rule : Rule α} {P : α → Prop}
    (h : Builds tokens rule P) : Builds tokens (Rule.nested rule) P :=
  keepingDepth (descend.bind fun _ _ => h)

theorem behind {α : Type} {tokens : List Token} {rule : Rule α} {P : α → Prop} (kind : TokenKind)
    (h : Builds tokens rule P) :
    Builds tokens (Rule.behind kind rule) fun found => ∀ a ∈ found, P a :=
  (accept kind).bind fun _ _ => ite _ (h.map fun a good => by simpa using good) (pure nofun)

theorem before {α : Type} {tokens : List Token} {rule : Rule α} {P : α → Prop} (kind : TokenKind)
    (h : Builds tokens rule P) :
    Builds tokens (Rule.before kind rule) fun found => ∀ a ∈ found, P a :=
  (isNext kind).bind fun _ _ => ite _ (pure nofun) (h.map fun a good => by simpa using good)

theorem addItem {α : Type} {tokens : List Token} {rule : Rule α} {P : α → Prop} (excess : Problem)
    (items : Array α) (h : Builds tokens rule P) (others : ∀ a ∈ items.toList, P a) :
    Builds tokens (Rule.addItem rule excess items) fun all => ∀ a ∈ all.toList, P a := by
  have count : Builds tokens (Rule.checkCount items.size excess) fun _ => True := by
    intro s inside
    refine ⟨?_, trivial⟩
    split
    · rwa [State.ahead_record]
    · exact inside
  exact count.bind fun _ _ => h.bind fun a good => pure (forall_mem_push others good)

theorem rounds {α : Type} {tokens : List Token} {P : α → Prop} {step : α → Rule (Option α)}
    (h : ∀ a, P a → Builds tokens (step a) fun found => ∀ b ∈ found, P b) (bound : List Token)
    {a : α} (start : P a) : Builds tokens (Rule.rounds step bound a) P := by
  induction bound generalizing a with
  | nil =>
    refine (h a start).bind fun found next => pure ?_
    cases found with
    | none => exact start
    | some b => exact next b rfl
  | cons _ bound ih =>
    refine (h a start).bind fun found next => ?_
    cases found with
    | none => exact pure start
    | some b => exact ih (next b rfl)

/-- What a round keeps holds at the end of a repetition. -/
theorem iterate {α : Type} {tokens : List Token} {P : α → Prop} {step : α → Rule (Option α)}
    (h : ∀ a, P a → Builds tokens (step a) fun found => ∀ b ∈ found, P b) {a : α} (start : P a) :
    Builds tokens (Rule.iterate step a) P :=
  fun s => rounds h s.ahead start s

theorem commaSeparated {α : Type} {tokens : List Token} {rule : Rule α} {P : α → Prop}
    (excess : Problem) (h : Builds tokens rule P) :
    Builds tokens (Rule.commaSeparated rule excess) fun all => ∀ a ∈ all, P a := by
  refine (addItem excess #[] h nofun).bind fun first good => ?_
  exact (iterate (fun items others => behind .comma (addItem excess items h others)) good).bind
    fun all each => pure each

end Rule.Builds

open Rule (Builds)

/-- The deeper rules build well-formed trees. -/
structure Rules.Form (tokens : List Token) (inner : Rules) : Prop where
  assignment : Builds tokens inner.assignment (Expr.WellFormed tokens)
  unary : Builds tokens inner.unary (Expr.Operand tokens 8)
  statement : Builds tokens inner.statement (Stmt.WellFormed tokens)
  function kind : Builds tokens (inner.function kind) (Function.WellFormed tokens)

/-- The operators of a level fold operands that hold together more tightly. -/
theorem leftAssociative_builds {tokens : List Token} (level : Precedence) {operand : Rule Expr}
    (h : Builds tokens operand (Expr.Operand tokens level.tighter.rank)) :
    Builds tokens (leftAssociative level.operators operand level.node)
      (Expr.Operand tokens (Grade.binary level).rank) := by
  have round (left : Expr) (first : left.Operand tokens (Grade.binary level).rank) :
      Builds tokens (foldOperand level.operators operand level.node left)
        fun found => ∀ e ∈ found, e.Operand tokens (Grade.binary level).rank := by
    refine (Builds.take? _).bind fun found taken => ?_
    cases found with
    | none => exact .pure nofun
    | some operator =>
      refine h.bind fun right second => .pure fun e is => ?_
      cases is
      exact .node first (taken operator rfl) second
  refine h.bind fun left first => .iterate round ⟨first.formed, ?_⟩
  have tight := first.tight
  rw [Grade.rank_tighter] at tight
  exact Nat.le_of_succ_le tight

theorem expression_builds {tokens : List Token} {inner : Rules} (hi : inner.Form tokens) :
    Builds tokens (expression inner) (Expr.WellFormed tokens) :=
  hi.assignment.nested

theorem finishCall_builds {tokens : List Token} {inner : Rules} (hi : inner.Form tokens)
    {callee : Expr} (called : callee.WellFormed tokens) (tight : callee.level = 9) :
    Builds tokens (finishCall inner callee) fun e => e.WellFormed tokens ∧ e.level = 9 :=
  (Builds.before _ (.commaSeparated _ (expression_builds hi))).bind fun _ each =>
    (Builds.expect _ _).bind fun _ closing =>
    .pure ⟨.call closing called (forall_mem_getD each) tight, rfl⟩

theorem primary_builds {tokens : List Token} {inner : Rules} (hi : inner.Form tokens) :
    Builds tokens (primary inner) fun e => e.WellFormed tokens ∧ e.level = 9 := by
  refine Builds.peek?.bind fun found among => ?_
  cases found with
  | none => exact .fail _
  | some t =>
    have stored : t ∈ tokens := among t rfl
    dsimp only
    cases is : t.kind with
    | falseKw | trueKw | nilKw | number | string =>
      exact Builds.skip.bind fun _ _ => .pure ⟨.constant _, rfl⟩
    | thisKw => exact Builds.skip.bind fun _ _ => .pure ⟨.this ⟨stored, by simp [is]⟩, rfl⟩
    | identifier =>
      exact Builds.skip.bind fun _ _ => .pure ⟨.reference ⟨stored, by simp [is]⟩, rfl⟩
    | superKw =>
      exact Builds.skip.bind fun _ _ => (Builds.expect _ _).bind fun _ _ =>
        (Builds.expect _ _).bind fun _ named => .pure ⟨.super ⟨stored, by simp [is]⟩ named, rfl⟩
    | leftParen =>
      exact Builds.skip.bind fun _ _ => (expression_builds hi).bind fun _ inside =>
        (Builds.expect _ _).bind fun _ _ => .pure ⟨.grouping inside, rfl⟩
    | _ => exact .fail _

theorem call_builds {tokens : List Token} {inner : Rules} (hi : inner.Form tokens) :
    Builds tokens (call inner) fun e => e.WellFormed tokens ∧ e.level = 9 := by
  refine (primary_builds hi).bind fun _ first => .iterate (fun left ⟨formed, tight⟩ => ?_) first
  refine (Builds.accept _).bind fun _ _ => .ite _ ?_ ?_
  · exact (finishCall_builds hi formed tight).map fun e good => by simpa using good
  · exact .behind _ ((Builds.expect _ _).map fun name named => ⟨.get named formed tight, rfl⟩)

theorem unary_builds {tokens : List Token} {inner : Rules} (hi : inner.Form tokens) :
    Builds tokens (unary inner) (Expr.Operand tokens 8) := by
  refine (Builds.take? _).bind fun found taken => ?_
  cases found with
  | none => exact (call_builds hi).imp fun e ⟨formed, tight⟩ => ⟨formed, by omega⟩
  | some operator =>
    exact hi.unary.nested.bind fun right operand =>
      .pure ⟨.unary (taken operator rfl) operand.formed operand.tight, Nat.le_refl 8⟩

theorem disjunction_builds {tokens : List Token} {inner : Rules} (hi : inner.Form tokens) :
    Builds tokens (disjunction inner) (Expr.Operand tokens 2) := by
  have factor : Builds tokens (factor inner) (Expr.Operand tokens 7) :=
    leftAssociative_builds .factor (unary_builds hi)
  have term : Builds tokens (term inner) (Expr.Operand tokens 6) :=
    leftAssociative_builds .term factor
  have comparison : Builds tokens (comparison inner) (Expr.Operand tokens 5) :=
    leftAssociative_builds .comparison term
  have equality : Builds tokens (equality inner) (Expr.Operand tokens 4) :=
    leftAssociative_builds .equality comparison
  have conjunction : Builds tokens (conjunction inner) (Expr.Operand tokens 3) :=
    leftAssociative_builds .conjunction equality
  exact leftAssociative_builds .disjunction conjunction

/-- A target that cannot be assigned to is well formed by itself. -/
theorem assignment_builds {tokens : List Token} {inner : Rules} (hi : inner.Form tokens) :
    Builds tokens (assignment inner) (Expr.WellFormed tokens) := by
  refine (disjunction_builds hi).bind fun target first => (Builds.take? _).bind fun found _ => ?_
  have formed := first.formed
  cases found with
  | none => exact .pure formed
  | some equal =>
    refine hi.assignment.nested.bind fun value second => ?_
    cases target with
    | reference name =>
      cases formed with
      | reference named => exact .pure (.assign named second)
    | get object name =>
      cases formed with
      | get named inside tight => exact .pure (.set named inside second tight)
    | _ => exact (Builds.report _).bind fun _ _ => .pure formed

/-- A loop with its clauses is built of what they are. -/
theorem forLoop_wellFormed {tokens : List Token} {initializer : Option Stmt}
    {condition increment : Option Expr} {body : Stmt}
    (first : ∀ s ∈ initializer, s.WellFormed tokens) (tested : ∀ e ∈ condition, e.WellFormed tokens)
    (step : ∀ e ∈ increment, e.WellFormed tokens) (inside : body.WellFormed tokens) :
    (forLoop initializer condition increment body).WellFormed tokens := by
  have test : (condition.getD (.constant (.bool true))).WellFormed tokens := by
    cases condition with
    | none => exact .constant _
    | some e => exact tested e rfl
  have loop : (forLoop none condition increment body).WellFormed tokens := by
    cases increment with
    | none => exact .whileLoop test inside
    | some e =>
      have round : ∀ s ∈ [body, .expression e], s.WellFormed tokens := by
        simpa using ⟨inside, Stmt.WellFormed.expression (step e rfl)⟩
      exact .whileLoop test (.block round)
  cases initializer with
  | none => exact loop
  | some s =>
    have both : ∀ t ∈ [s, forLoop none condition increment body], t.WellFormed tokens := by
      simpa using ⟨first s rfl, loop⟩
    exact .block both

/-- The links read so far, each of them a condition and what it guards. -/
structure Links.WellFormed (tokens : List Token) (links : Links) : Prop where
  guards : ∀ guard ∈ links.guards.toList, guard.1.WellFormed tokens ∧ guard.2.WellFormed tokens
  last : ∀ s ∈ links.last, s.WellFormed tokens

theorem Links.WellFormed.toElse {tokens : List Token} {links : Links}
    (h : links.WellFormed tokens) : ∀ s ∈ links.toElse, s.WellFormed tokens := by
  obtain ⟨guards, last⟩ := links
  unfold Links.toElse
  rw [← Array.foldr_toList]
  have guarded := h.guards
  dsimp only at guarded ⊢
  generalize guards.toList = chain at guarded ⊢
  induction chain with
  | nil => exact h.last
  | cons guard chain ih =>
    obtain ⟨⟨tested, inside⟩, others⟩ := List.forall_mem_cons.mp guarded
    intro s is
    cases is
    exact .ifElse tested inside (ih others)

theorem statement_builds {tokens : List Token} {inner : Rules} (hi : inner.Form tokens) :
    Builds tokens (statement inner) (Stmt.WellFormed tokens) :=
  hi.statement.nested

theorem function_builds {tokens : List Token} {inner : Rules} (hi : inner.Form tokens)
    (kind : FunctionKind) : Builds tokens (function inner kind) (Function.WellFormed tokens) :=
  (hi.function kind).nested

theorem varDeclaration_builds {tokens : List Token} {inner : Rules} (hi : inner.Form tokens) :
    Builds tokens (varDeclaration inner) (Stmt.WellFormed tokens) :=
  (Builds.expect _ _).bind fun _ named =>
    (Builds.behind _ (expression_builds hi)).bind fun _ inside =>
    (Builds.expect _ _).bind fun _ _ => .pure (.varDecl named inside)

theorem expressionStatement_builds {tokens : List Token} {inner : Rules} (hi : inner.Form tokens) :
    Builds tokens (expressionStatement inner) (Stmt.WellFormed tokens) :=
  (expression_builds hi).bind fun _ inside => (Builds.expect _ _).bind fun _ _ =>
    .pure (.expression inside)

theorem printStatement_builds {tokens : List Token} {inner : Rules} (hi : inner.Form tokens) :
    Builds tokens (printStatement inner) (Stmt.WellFormed tokens) :=
  (expression_builds hi).bind fun _ inside => (Builds.expect _ _).bind fun _ _ =>
    .pure (.print inside)

theorem returnStatement_builds {tokens : List Token} {inner : Rules} (hi : inner.Form tokens)
    {keyword : Token} (opening : keyword.Among tokens [.returnKw]) :
    Builds tokens (returnStatement inner keyword) (Stmt.WellFormed tokens) :=
  (Builds.before _ (expression_builds hi)).bind fun _ inside => (Builds.expect _ _).bind fun _ _ =>
    .pure (.ret opening inside)

theorem whileStatement_builds {tokens : List Token} {inner : Rules} (hi : inner.Form tokens) :
    Builds tokens (whileStatement inner) (Stmt.WellFormed tokens) :=
  (Builds.expect _ _).bind fun _ _ => (expression_builds hi).bind fun _ tested =>
    (Builds.expect _ _).bind fun _ _ => (statement_builds hi).bind fun _ inside =>
    .pure (.whileLoop tested inside)

theorem forInitializer_builds {tokens : List Token} {inner : Rules} (hi : inner.Form tokens) :
    Builds tokens (forInitializer inner) fun found => ∀ s ∈ found, s.WellFormed tokens :=
  (Builds.accept _).bind fun _ _ => .ite _ (.pure nofun) <|
    (Builds.accept _).bind fun _ _ => .ite _
      ((varDeclaration_builds hi).map fun s formed => by simpa using formed)
      ((expressionStatement_builds hi).map fun s formed => by simpa using formed)

theorem forStatement_builds {tokens : List Token} {inner : Rules} (hi : inner.Form tokens) :
    Builds tokens (forStatement inner) (Stmt.WellFormed tokens) :=
  (Builds.expect _ _).bind fun _ _ => (forInitializer_builds hi).bind fun _ first =>
    (Builds.before _ (expression_builds hi)).bind fun _ tested =>
    (Builds.expect _ _).bind fun _ _ =>
    (Builds.before _ (expression_builds hi)).bind fun _ step =>
    (Builds.expect _ _).bind fun _ _ => (statement_builds hi).bind fun _ inside =>
    .pure (forLoop_wellFormed first tested step inside)

theorem guarded_builds {tokens : List Token} {inner : Rules} (hi : inner.Form tokens) :
    Builds tokens (guarded inner) fun guard =>
      guard.1.WellFormed tokens ∧ guard.2.WellFormed tokens :=
  (Builds.expect _ _).bind fun _ _ => (expression_builds hi).bind fun _ tested =>
    (Builds.expect _ _).bind fun _ _ => (statement_builds hi).bind fun _ inside =>
    .pure ⟨tested, inside⟩

theorem elseLink_builds {tokens : List Token} {inner : Rules} (hi : inner.Form tokens)
    (links : Links) (h : links.WellFormed tokens) :
    Builds tokens (elseLink inner links) fun found => ∀ all ∈ found, all.WellFormed tokens := by
  refine .ite _ (.pure nofun) ?_
  refine (Builds.accept _).bind fun _ _ => .ite _ ?_ (.pure nofun)
  refine (Builds.accept _).bind fun _ _ => .ite _ ?_ ?_
  · refine Builds.descend.bind fun _ _ => (guarded_builds hi).bind fun guard good => .pure ?_
    intro all is
    cases is
    exact ⟨forall_mem_push h.guards good, h.last⟩
  · refine (statement_builds hi).bind fun branch inside => .pure ?_
    intro all is
    cases is
    exact ⟨h.guards, by simpa using inside⟩

theorem ifStatement_builds {tokens : List Token} {inner : Rules} (hi : inner.Form tokens) :
    Builds tokens (ifStatement inner) (Stmt.WellFormed tokens) :=
  .keepingDepth <| (guarded_builds hi).bind fun _ ⟨tested, inside⟩ =>
    (Builds.iterate (elseLink_builds hi) ⟨by simp, by simp⟩).bind fun _ links =>
    .pure (.ifElse tested inside links.toElse)

theorem recovering_builds {α : Type} {tokens : List Token} {rule : Rule α} {P : α → Prop}
    (h : Builds tokens rule P) {s : State} (inside : s.ahead ⊆ tokens) :
    (recovering rule s).2.ahead ⊆ tokens ∧ ∀ a ∈ (recovering rule s).1, P a := by
  have outcome := h s inside
  cases run : rule s with
  | ok a s' =>
    rw [run] at outcome
    rw [recovering_ok run]
    exact ⟨outcome.1, by simpa using outcome.2⟩
  | error e s' =>
    rw [run] at outcome
    rw [recovering_error run]
    have left : s'.ahead ⊆ tokens := outcome
    exact ⟨List.Subset.trans (State.Extends.recover s' e).ahead.subset left, nofun⟩

theorem addMethod_builds {tokens : List Token} {inner : Rules} (hi : inner.Form tokens)
    (methods : Array Function) (others : ∀ m ∈ methods.toList, m.WellFormed tokens) :
    Builds tokens (addMethod inner methods) fun found =>
      ∀ all ∈ found, ∀ m ∈ all.toList, m.WellFormed tokens := by
  refine Builds.peek?.bind fun found _ => ?_
  cases found with
  | none => exact .pure nofun
  | some t =>
    refine .ite _ (.pure nofun) ((function_builds hi .method).bind fun method good => .pure ?_)
    intro all is
    cases is
    exact forall_mem_push others good

theorem classDeclaration_builds {tokens : List Token} {inner : Rules} (hi : inner.Form tokens) :
    Builds tokens (classDeclaration inner) (Stmt.WellFormed tokens) :=
  (Builds.expect _ _).bind fun _ named =>
    (Builds.behind _ (Builds.expect _ _)).bind fun _ parent => (Builds.expect _ _).bind fun _ _ =>
    (Builds.iterate (addMethod_builds hi) (by simp)).bind fun _ each =>
    (Builds.expect _ _).bind fun _ _ => .pure (.classDecl named parent each)

theorem declarationRule_builds {tokens : List Token} {inner : Rules} (hi : inner.Form tokens) :
    Builds tokens (declarationRule inner) (Stmt.WellFormed tokens) :=
  (Builds.accept _).bind fun _ _ => .ite _ (classDeclaration_builds hi) <|
    (Builds.accept _).bind fun _ _ => .ite _
      ((function_builds hi .function).map fun _ inside => .function inside) <|
      (Builds.accept _).bind fun _ _ => .ite _ (varDeclaration_builds hi) (statement_builds hi)

/-- Whatever failed among the declarations, the others are well formed. -/
theorem declarations_builds {tokens : List Token} {inner : Rules} (hi : inner.Form tokens)
    (closes : TokenKind → Bool) (bound : List Token) {s : State} (inside : s.ahead ⊆ tokens) :
    (declarations inner closes bound s).2.ahead ⊆ tokens ∧
      ∀ t ∈ (declarations inner closes bound s).1, t.WellFormed tokens := by
  induction bound generalizing s with
  | nil => exact ⟨inside, nofun⟩
  | cons b bound ih =>
    have first : (declaration inner s).2.ahead ⊆ tokens ∧
        ∀ t ∈ (declaration inner s).1, t.WellFormed tokens :=
      recovering_builds (declarationRule_builds hi) inside
    obtain ⟨left, others⟩ := ih first.1
    obtain ends | ⟨t, next, stays⟩ := ends_or_next closes s
    · rw [declarations_of_ends inner _ ends]
      exact ⟨inside, nofun⟩
    · rw [declarations_cons inner b bound next stays]
      refine ⟨left, List.forall_mem_append.mpr ⟨?_, others⟩⟩
      simpa using first.2

theorem block_builds {tokens : List Token} {inner : Rules} (hi : inner.Form tokens) :
    Builds tokens (block inner) fun body => ∀ s ∈ body, s.WellFormed tokens := by
  have body : Builds tokens (blockBody inner) fun body => ∀ s ∈ body, s.WellFormed tokens :=
    fun s inside => declarations_builds hi (· == .rightBrace) s.ahead inside
  exact body.bind fun _ each => (Builds.expect _ _).bind fun _ _ => .pure each

theorem functionBody_builds {tokens : List Token} {inner : Rules} (hi : inner.Form tokens)
    (kind : FunctionKind) : Builds tokens (functionBody inner kind) (Function.WellFormed tokens) :=
  (Builds.expect _ _).bind fun _ named => (Builds.expect _ _).bind fun _ _ =>
    (Builds.before _ (Builds.commaSeparated _ (Builds.expect _ _))).bind fun _ taken =>
    (Builds.expect _ _).bind fun _ _ => (Builds.expect _ _).bind fun _ _ =>
    (block_builds hi).bind fun _ each => .pure (.mk named (forall_mem_getD taken) each)

theorem statementBody_builds {tokens : List Token} {inner : Rules} (hi : inner.Form tokens) :
    Builds tokens (statementBody inner) (Stmt.WellFormed tokens) := by
  refine Builds.peek?.bind fun found among => ?_
  cases found with
  | none => exact expressionStatement_builds hi
  | some t =>
    have stored : t ∈ tokens := among t rfl
    dsimp only
    cases is : t.kind with
    | forKw => exact Builds.skip.bind fun _ _ => forStatement_builds hi
    | ifKw => exact Builds.skip.bind fun _ _ => ifStatement_builds hi
    | printKw => exact Builds.skip.bind fun _ _ => printStatement_builds hi
    | returnKw =>
      exact Builds.skip.bind fun _ _ => returnStatement_builds hi ⟨stored, by simp [is]⟩
    | whileKw => exact Builds.skip.bind fun _ _ => whileStatement_builds hi
    | leftBrace =>
      exact Builds.skip.bind fun _ _ => (block_builds hi).map fun _ each => .block each
    | _ => exact expressionStatement_builds hi

theorem rules_form (tokens : List Token) (level : Nat) : (rules level).Form tokens := by
  induction level with
  | zero => exact ⟨.fail _, .fail _, .fail _, fun _ => .fail _⟩
  | succ level ih =>
    exact ⟨assignment_builds ih, unary_builds ih, statementBody_builds ih, functionBody_builds ih⟩

end Parse

/-- What a parse returns is well formed, whatever it is given and whatever errors there are in it:
it is made of the tokens given, each in a place for its kind, and no operand holds together less
than its operator lets it. -/
theorem parse_wellFormed (tokens : List Token) {s : Stmt} (inside : s ∈ (parse tokens).statements) :
    s.WellFormed tokens :=
  (Parse.declarations_builds (Parse.rules_form tokens Parse.maxDepth) (fun _ => false) _
    (List.takeWhile_prefix _).subset).2 s inside

/-- `-a.b(c) = 1;`, which cannot be assigned to. -/
def negatedCall : List Token :=
  [⟨.minus, "-", none, 1⟩, ⟨.identifier, "a", none, 1⟩, ⟨.dot, ".", none, 1⟩,
    ⟨.identifier, "b", none, 1⟩, ⟨.leftParen, "(", none, 1⟩, ⟨.identifier, "c", none, 1⟩,
    ⟨.rightParen, ")", none, 1⟩, ⟨.equal, "=", none, 1⟩, ⟨.number, "1", none, 1⟩,
    ⟨.semicolon, ";", none, 1⟩, .eof 1]

theorem parse_wellFormed_negatedCall :
    (parse negatedCall).errors.map (·.problem) = [.invalidTarget] ∧
      ∃ s ∈ (parse negatedCall).statements, s.WellFormed negatedCall := by
  have reported : (parse negatedCall).errors.map (·.problem) = [.invalidTarget] := by
    decide +kernel
  have kept : 0 < (parse negatedCall).statements.length := by decide +kernel
  obtain ⟨s, inside⟩ := List.exists_mem_of_length_pos kept
  exact ⟨reported, s, inside, parse_wellFormed negatedCall inside⟩

end LoxSyntax
