import LoxSyntax.Proofs.Parse.Declarations

namespace LoxSyntax

/-- The grammar has words of its own for what it finds; those of a later pass are not among them. -/
def Problem.OfGrammar (problem : Problem) : Prop := ∀ message, problem ≠ .finding message

namespace Parse

namespace Rule

/-- A relation between rules, whatever they denote. -/
abbrev Relation := (α : Type) → Rule α → Rule α → Prop

/-- Looks at the tokens ahead, and moves on over some of them. -/
def look {α : Type} (f : List Token → α × List Token) : Rule α :=
  fun s => .ok (f s.ahead).1 { s with ahead := (f s.ahead).2 }

/-- The first token, if it is of one of these kinds, and the tokens without it. -/
def taking (kinds : List TokenKind) (ts : List Token) : Option Token × List Token :=
  if ts.head?.any (kinds.contains ·.kind) then (ts.head?, ts.tail) else (none, ts)

theorem take?_eq_look (kinds : List TokenKind) : take? kinds = look (taking kinds) := by
  funext s
  obtain ⟨ahead, stop, depth, halted, errors⟩ := s
  unfold take? look taking
  cases ahead with
  | nil => rfl
  | cons t rest => by_cases taken : t.kind ∈ kinds <;> simp [taken]

/-- Records a problem at the current token, or at one that was read before. -/
def note (place : Token → Token) (problem : Problem) : Rule Unit :=
  fun s => .ok () (s.record ⟨place s.current, problem⟩)

theorem checkCount_eq_ite (count : Nat) (excess : Problem) :
    checkCount count excess = if maxArguments ≤ count then note id excess else pure () := by
  funext s
  unfold checkCount
  split <;> rfl

/-- The relation holds of rules that fail, read a token or do nothing, and of related rules run one
behind the other. -/
structure Stepwise (R : Relation) : Prop where
  pure {α : Type} (a : α) : R α (Pure.pure a) (Pure.pure a)
  bind {α β : Type} {rule rule' : Rule α} {f f' : α → Rule β} (first : R α rule rule')
    (second : ∀ a, R β (f a) (f' a)) : R β (rule >>= f) (rule' >>= f')
  fail {α : Type} {problem : Problem} (own : problem.OfGrammar) :
    R α (Rule.fail problem) (Rule.fail problem)
  peek? : R (Option Token) Rule.peek? Rule.peek?
  skip : R Unit Rule.skip Rule.skip
  isNext (kind : TokenKind) : R Bool (Rule.isNext kind) (Rule.isNext kind)
  take? (kinds : List TokenKind) : R (Option Token) (Rule.take? kinds) (Rule.take? kinds)

/-- The relation holds of all rules that do no more than look at the tokens ahead and move on. -/
structure Sequential (R : Relation) : Prop where
  pure {α : Type} (a : α) : R α (Pure.pure a) (Pure.pure a)
  bind {α β : Type} {rule rule' : Rule α} {f f' : α → Rule β} (first : R α rule rule')
    (second : ∀ a, R β (f a) (f' a)) : R β (rule >>= f) (rule' >>= f')
  fail {α : Type} {problem : Problem} (own : problem.OfGrammar) :
    R α (Rule.fail problem) (Rule.fail problem)
  look {α : Type} (f : List Token → α × List Token) (moves : ∀ ts, (f ts).2 <:+ ts) :
    R α (look f) (look f)

theorem Sequential.stepwise {R : Relation} (h : Sequential R) : Stepwise R where
  pure := h.pure
  bind := h.bind
  fail := h.fail
  peek? := h.look (fun ts => (ts.head?, ts)) List.suffix_refl
  skip := h.look (fun ts => ((), ts.tail)) List.tail_suffix
  isNext kind :=
    h.look (fun ts => (ts.head?.any fun t => Token.kind t == kind, ts)) List.suffix_refl
  take? kinds := by
    rw [take?_eq_look]
    refine h.look (taking kinds) fun ts => ?_
    unfold taking
    split
    · exact List.tail_suffix ts
    · exact List.suffix_rfl

/-- The relation goes through recovery. -/
structure Attempted (R : Relation) : Prop extends Stepwise R where
  /-- A rule may be bounded by the tokens ahead. -/
  bounded {α : Type} (f f' : List Token → Rule α) (each : ∀ ts, R α (f ts) (f' ts)) :
    R α (fun s => f s.ahead s) (fun s => f' s.ahead s)
  attempt {α : Type} {rule rule' : Rule α} (inside : R α rule rule') :
    R (Option α) (attempt rule) (attempt rule')

/-- The relation holds of the primitive rules, and of what is put together of related rules. The
whole grammar is, so it is enough to prove a relation of these. Nothing but a failure ever says that
the nesting is too deep. -/
structure Congruence (R : Relation) : Prop extends Stepwise R where
  note (place : Token → Token) {problem : Problem} (own : problem.OfGrammar)
    (other : problem ≠ .tooDeep) : R Unit (note place problem) (note place problem)
  descend : R Unit descend descend
  keepingDepth {α : Type} {rule rule' : Rule α} (inside : R α rule rule') :
    R α (keepingDepth rule) (keepingDepth rule')
  /-- A rule may be bounded by the tokens ahead. -/
  bounded {α : Type} (f f' : List Token → Rule α) (each : ∀ ts, R α (f ts) (f' ts)) :
    R α (fun s => f s.ahead s) (fun s => f' s.ahead s)
  block (inner inner' : Rules) (each : R Stmt (declarationRule inner) (declarationRule inner')) :
    R (List Stmt) (block inner) (block inner')

namespace Stepwise

theorem map {R : Relation} {α β : Type} {rule rule' : Rule α} (h : Stepwise R) (g : α → β)
    (inside : R α rule rule') : R β (g <$> rule) (g <$> rule') := by
  rw [map_eq_pure_bind, map_eq_pure_bind]
  exact h.bind inside fun a => h.pure (g a)

theorem accept {R : Relation} (h : Stepwise R) (kind : TokenKind) :
    R Bool (Rule.accept kind) (Rule.accept kind) :=
  h.bind (h.take? [kind]) fun found => h.pure found.isSome

theorem expect {R : Relation} (h : Stepwise R) (kind : TokenKind) {problem : Problem}
    (own : problem.OfGrammar) : R Token (Rule.expect kind problem) (Rule.expect kind problem) := by
  refine h.bind (h.take? [kind]) fun found => ?_
  cases found with
  | none => exact h.fail own
  | some t => exact h.pure t

end Stepwise

namespace Attempted

/-- Lists of declarations are related if declarations are. -/
theorem reading {R : Relation} (h : Attempted R) (inner inner' : Rules)
    (each : R Stmt (declarationRule inner) (declarationRule inner')) (closes : TokenKind → Bool)
    (bound : List Token) :
    R (List Stmt) (reading inner closes bound) (reading inner' closes bound) := by
  induction bound with
  | nil => exact h.pure []
  | cons b bound ih =>
    rw [reading_cons, reading_cons]
    refine h.bind h.peek? fun found => ?_
    cases found with
    | none => exact h.pure []
    | some t =>
      dsimp only
      split
      · exact h.pure []
      · exact h.bind (h.attempt each) fun first => h.bind ih fun more => h.pure _

theorem block {R : Relation} (h : Attempted R) (inner inner' : Rules)
    (each : R Stmt (declarationRule inner) (declarationRule inner')) :
    R (List Stmt) (block inner) (block inner') :=
  h.bind (h.bounded _ _ (h.reading _ _ each (· == .rightBrace))) fun body =>
    h.bind (h.expect _ nofun) fun _ => h.pure body

end Attempted

namespace Congruence

theorem ite {R : Relation} {α : Type} {rule rule' other other' : Rule α} (c : Prop) [Decidable c]
    (first : R α rule rule') (second : R α other other') :
    R α (if c then rule else other) (if c then rule' else other') := by
  split
  · exact first
  · exact second

theorem nested {R : Relation} {α : Type} {rule rule' : Rule α} (h : Congruence R)
    (inside : R α rule rule') : R α (Rule.nested rule) (Rule.nested rule') :=
  h.keepingDepth (h.bind h.descend fun _ => inside)

theorem report {R : Relation} (h : Congruence R) (t : Token) :
    R Unit (Rule.report ⟨t, .invalidTarget⟩)
    (Rule.report ⟨t, .invalidTarget⟩) :=
  h.note (fun _ => t) nofun nofun

theorem behind {R : Relation} {α : Type} {rule rule' : Rule α} (h : Congruence R) (kind : TokenKind)
    (inside : R α rule rule') : R (Option α) (Rule.behind kind rule) (Rule.behind kind rule') :=
  h.bind (h.accept kind) fun _ => ite _ (h.map some inside) (h.pure none)

theorem before {R : Relation} {α : Type} {rule rule' : Rule α} (h : Congruence R) (kind : TokenKind)
    (inside : R α rule rule') : R (Option α) (Rule.before kind rule) (Rule.before kind rule') :=
  h.bind (h.isNext kind) fun _ => ite _ (h.pure none) (h.map some inside)

theorem addItem {R : Relation} {α : Type} {rule rule' : Rule α} (h : Congruence R)
    {excess : Problem} (own : excess.OfGrammar) (other : excess ≠ .tooDeep) (items : Array α)
    (inside : R α rule rule') :
    R (Array α) (Rule.addItem rule excess items) (Rule.addItem rule' excess items) := by
  have count : R Unit (Rule.checkCount items.size excess) (Rule.checkCount items.size excess) := by
    rw [checkCount_eq_ite]
    exact ite _ (h.note id own other) (h.pure ())
  exact h.bind count fun _ => h.bind inside fun a => h.pure (items.push a)

theorem rounds {R : Relation} {α : Type} (h : Congruence R) {step step' : α → Rule (Option α)}
    (each : ∀ a, R (Option α) (step a) (step' a)) (bound : List Token) (a : α) :
    R α (Rule.rounds step bound a) (Rule.rounds step' bound a) := by
  induction bound generalizing a with
  | nil => exact h.bind (each a) fun found => h.pure (found.getD a)
  | cons _ bound ih =>
    refine h.bind (each a) fun found => ?_
    cases found with
    | none => exact h.pure a
    | some b => exact ih b

theorem iterate {R : Relation} {α : Type} (h : Congruence R) {step step' : α → Rule (Option α)}
    (each : ∀ a, R (Option α) (step a) (step' a)) (a : α) :
    R α (Rule.iterate step a) (Rule.iterate step' a) :=
  h.bounded _ _ fun bound => h.rounds each bound a

theorem commaSeparated {R : Relation} {α : Type} {rule rule' : Rule α} (h : Congruence R)
    {excess : Problem} (own : excess.OfGrammar) (other : excess ≠ .tooDeep)
    (inside : R α rule rule') :
    R (List α) (Rule.commaSeparated rule excess) (Rule.commaSeparated rule' excess) :=
  h.bind (h.addItem own other #[] inside) fun first =>
    h.bind (h.iterate (fun items => h.behind .comma (h.addItem own other items inside)) first)
      fun all => h.pure all.toList

end Congruence

end Rule

open Rule (Relation Congruence)

/-- Rules that are related where they are run a level further in. -/
structure Rules.Related (R : Relation) (inner inner' : Rules) : Prop where
  assignment : R Expr (Rule.nested inner.assignment) (Rule.nested inner'.assignment)
  unary : R Expr (Rule.nested inner.unary) (Rule.nested inner'.unary)
  statement : R Stmt (Rule.nested inner.statement) (Rule.nested inner'.statement)
  function (kind : FunctionKind) :
    R Function (Rule.nested (inner.function kind)) (Rule.nested (inner'.function kind))

namespace Rule.Congruence

theorem leftAssociative {R : Relation} (h : Congruence R) (operators : List TokenKind)
    (build : Expr → Token → Expr → Expr) {operand operand' : Rule Expr}
    (inside : R Expr operand operand') :
    R Expr (leftAssociative operators operand build)
      (leftAssociative operators operand' build) := by
  refine h.bind inside fun left => h.iterate (fun left => ?_) left
  refine h.bind (h.take? operators) fun found => ?_
  cases found with
  | none => exact h.pure none
  | some operator => exact h.bind inside fun right => h.pure (some (build left operator right))

theorem expression {R : Relation} {inner inner' : Rules} (hi : inner.Related R inner') :
    R Expr (expression inner) (expression inner') := hi.assignment

theorem finishCall {R : Relation} (h : Congruence R) {inner inner' : Rules}
    (hi : inner.Related R inner') (callee : Expr) :
    R Expr (finishCall inner callee) (finishCall inner' callee) :=
  h.bind (h.before _ (h.commaSeparated nofun nofun (expression hi))) fun _ =>
    h.bind (h.expect _ nofun) fun _ => h.pure _

theorem primary {R : Relation} (h : Congruence R) {inner inner' : Rules}
    (hi : inner.Related R inner') : R Expr (primary inner) (primary inner') := by
  refine h.bind h.peek? fun found => ?_
  cases found with
  | none => exact h.fail nofun
  | some t =>
    dsimp only
    cases t.kind with
    | falseKw | trueKw | nilKw | number | string | thisKw | identifier =>
      exact h.bind h.skip fun _ => h.pure _
    | superKw =>
      exact h.bind h.skip fun _ => h.bind (h.expect _ nofun) fun _ =>
        h.bind (h.expect _ nofun) fun _ => h.pure _
    | leftParen =>
      exact h.bind h.skip fun _ => h.bind (expression hi) fun _ =>
        h.bind (h.expect _ nofun) fun _ => h.pure _
    | _ => exact h.fail nofun

theorem callOrGet {R : Relation} (h : Congruence R) {inner inner' : Rules}
    (hi : inner.Related R inner') (left : Expr) :
    R (Option Expr) (callOrGet inner left) (callOrGet inner' left) :=
  h.bind (h.accept _) fun _ => ite _ (h.map some (h.finishCall hi left))
    (h.behind _ (h.map _ (h.expect _ nofun)))

theorem call {R : Relation} (h : Congruence R) {inner inner' : Rules}
    (hi : inner.Related R inner') : R Expr (call inner) (call inner') :=
  h.bind (h.primary hi) fun callee => h.iterate (h.callOrGet hi) callee

theorem unaryRule {R : Relation} (h : Congruence R) {inner inner' : Rules}
    (hi : inner.Related R inner') : R Expr (unary inner) (unary inner') := by
  refine h.bind (h.take? _) fun found => ?_
  cases found with
  | none => exact h.call hi
  | some operator => exact h.bind hi.unary fun right => h.pure (Expr.unary operator right)

theorem disjunction {R : Relation} (h : Congruence R) {inner inner' : Rules}
    (hi : inner.Related R inner') : R Expr (disjunction inner) (disjunction inner') :=
  h.leftAssociative _ _ <| h.leftAssociative _ _ <| h.leftAssociative _ _ <|
    h.leftAssociative _ _ <| h.leftAssociative _ _ <| h.leftAssociative _ _ <| h.unaryRule hi

theorem assignmentRule {R : Relation} (h : Congruence R) {inner inner' : Rules}
    (hi : inner.Related R inner') : R Expr (assignment inner) (assignment inner') := by
  refine h.bind (h.disjunction hi) fun target => h.bind (h.take? _) fun found => ?_
  cases found with
  | none => exact h.pure target
  | some equal =>
    refine h.bind hi.assignment fun value => ?_
    cases target with
    | reference name => exact h.pure (Expr.assign name value)
    | get object name => exact h.pure (Expr.set object name value)
    | _ => exact h.bind (h.report equal) fun _ => h.pure _

theorem varDeclaration {R : Relation} (h : Congruence R) {inner inner' : Rules}
    (hi : inner.Related R inner') : R Stmt (varDeclaration inner) (varDeclaration inner') :=
  h.bind (h.expect _ nofun) fun _ => h.bind (h.behind _ (expression hi)) fun _ =>
    h.bind (h.expect _ nofun) fun _ => h.pure _

theorem expressionStatement {R : Relation} (h : Congruence R) {inner inner' : Rules}
    (hi : inner.Related R inner') :
    R Stmt (expressionStatement inner) (expressionStatement inner') :=
  h.bind (expression hi) fun _ => h.bind (h.expect _ nofun) fun _ => h.pure _

theorem printStatement {R : Relation} (h : Congruence R) {inner inner' : Rules}
    (hi : inner.Related R inner') : R Stmt (printStatement inner) (printStatement inner') :=
  h.bind (expression hi) fun _ => h.bind (h.expect _ nofun) fun _ => h.pure _

theorem returnStatement {R : Relation} (h : Congruence R) {inner inner' : Rules}
    (hi : inner.Related R inner') (keyword : Token) :
    R Stmt (returnStatement inner keyword) (returnStatement inner' keyword) :=
  h.bind (h.before _ (expression hi)) fun _ => h.bind (h.expect _ nofun) fun _ => h.pure _

theorem whileStatement {R : Relation} (h : Congruence R) {inner inner' : Rules}
    (hi : inner.Related R inner') : R Stmt (whileStatement inner) (whileStatement inner') :=
  h.bind (h.expect _ nofun) fun _ => h.bind (expression hi) fun _ =>
    h.bind (h.expect _ nofun) fun _ => h.bind hi.statement fun _ => h.pure _

theorem forInitializer {R : Relation} (h : Congruence R) {inner inner' : Rules}
    (hi : inner.Related R inner') :
    R (Option Stmt) (forInitializer inner) (forInitializer inner') :=
  h.bind (h.accept _) fun _ => ite _ (h.pure none) <| h.bind (h.accept _) fun _ =>
    ite _ (h.map some (h.varDeclaration hi)) (h.map some (h.expressionStatement hi))

theorem forStatement {R : Relation} (h : Congruence R) {inner inner' : Rules}
    (hi : inner.Related R inner') : R Stmt (forStatement inner) (forStatement inner') :=
  h.bind (h.expect _ nofun) fun _ => h.bind (h.forInitializer hi) fun _ =>
    h.bind (h.before _ (expression hi)) fun _ => h.bind (h.expect _ nofun) fun _ =>
    h.bind (h.before _ (expression hi)) fun _ => h.bind (h.expect _ nofun) fun _ =>
    h.bind hi.statement fun _ => h.pure _

theorem guarded {R : Relation} (h : Congruence R) {inner inner' : Rules}
    (hi : inner.Related R inner') : R (Expr × Stmt) (guarded inner) (guarded inner') :=
  h.bind (h.expect _ nofun) fun _ => h.bind (expression hi) fun _ =>
    h.bind (h.expect _ nofun) fun _ => h.bind hi.statement fun _ => h.pure _

theorem elseLink {R : Relation} (h : Congruence R) {inner inner' : Rules}
    (hi : inner.Related R inner') (links : Links) :
    R (Option Links) (elseLink inner links) (elseLink inner' links) :=
  ite _ (h.pure none) <| h.bind (h.accept _) fun _ => ite _
    (h.bind (h.accept _) fun _ => ite _
      (h.bind h.descend fun _ => h.bind (h.guarded hi) fun _ => h.pure _)
      (h.bind hi.statement fun _ => h.pure _))
    (h.pure none)

theorem ifStatement {R : Relation} (h : Congruence R) {inner inner' : Rules}
    (hi : inner.Related R inner') : R Stmt (ifStatement inner) (ifStatement inner') :=
  h.keepingDepth <| h.bind (h.guarded hi) fun _ => h.bind (h.iterate (h.elseLink hi) _) fun _ =>
    h.pure _

theorem addMethod {R : Relation} (h : Congruence R) {inner inner' : Rules}
    (hi : inner.Related R inner') (methods : Array Function) :
    R (Option (Array Function)) (addMethod inner methods) (addMethod inner' methods) := by
  refine h.bind h.peek? fun found => ?_
  cases found with
  | none => exact h.pure none
  | some t =>
    exact ite _ (h.pure none) (h.bind (hi.function .method) fun method =>
      h.pure (some (methods.push method)))

theorem classDeclaration {R : Relation} (h : Congruence R) {inner inner' : Rules}
    (hi : inner.Related R inner') : R Stmt (classDeclaration inner) (classDeclaration inner') :=
  h.bind (h.expect _ nofun) fun _ => h.bind (h.behind _ (h.expect _ nofun)) fun _ =>
    h.bind (h.expect _ nofun) fun _ => h.bind (h.iterate (h.addMethod hi) _) fun _ =>
    h.bind (h.expect _ nofun) fun _ => h.pure _

theorem declarationRule {R : Relation} (h : Congruence R) {inner inner' : Rules}
    (hi : inner.Related R inner') : R Stmt (declarationRule inner) (declarationRule inner') :=
  h.bind (h.accept _) fun _ => ite _ (h.classDeclaration hi) <|
    h.bind (h.accept _) fun _ => ite _ (h.map Stmt.function (hi.function .function)) <|
    h.bind (h.accept _) fun _ => ite _ (h.varDeclaration hi) hi.statement

theorem functionBody {R : Relation} (h : Congruence R) {inner inner' : Rules}
    (hi : inner.Related R inner') (kind : FunctionKind) :
    R Function (functionBody inner kind) (functionBody inner' kind) :=
  h.bind (h.expect _ nofun) fun _ => h.bind (h.expect _ nofun) fun _ =>
    h.bind (h.before _ (h.commaSeparated nofun nofun (h.expect _ nofun))) fun _ =>
    h.bind (h.expect _ nofun) fun _ => h.bind (h.expect _ nofun) fun _ =>
    h.bind (h.block _ _ (h.declarationRule hi)) fun _ => h.pure _

theorem statementBody {R : Relation} (h : Congruence R) {inner inner' : Rules}
    (hi : inner.Related R inner') : R Stmt (statementBody inner) (statementBody inner') := by
  refine h.bind h.peek? fun found => ?_
  cases found with
  | none => exact h.expressionStatement hi
  | some t =>
    dsimp only
    cases t.kind with
    | forKw => exact h.bind h.skip fun _ => h.forStatement hi
    | ifKw => exact h.bind h.skip fun _ => h.ifStatement hi
    | printKw => exact h.bind h.skip fun _ => h.printStatement hi
    | returnKw => exact h.bind h.skip fun _ => h.returnStatement hi t
    | whileKw => exact h.bind h.skip fun _ => h.whileStatement hi
    | leftBrace =>
      exact h.bind h.skip fun _ => h.map Stmt.block (h.block _ _ (h.declarationRule hi))
    | _ => exact h.expressionStatement hi

/-- What a congruence relates, it relates to itself at every level. -/
theorem related {R : Relation} (h : Congruence R) (level : Nat) :
    (rules level).Related R (rules level) := by
  have limit {α : Type} : R α (Rule.nested (Rule.fail .tooDeep))
      (Rule.nested (Rule.fail .tooDeep)) := h.nested (h.fail nofun)
  induction level with
  | zero => exact ⟨limit, limit, limit, fun _ => limit⟩
  | succ level ih =>
    exact ⟨h.nested (h.assignmentRule ih), h.nested (h.unaryRule ih), h.nested (h.statementBody ih),
      fun kind => h.nested (h.functionBody ih kind)⟩

end Rule.Congruence

end Parse

end LoxSyntax
