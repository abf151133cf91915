import LoxSyntax.Proofs.Parse.Level
import LoxSyntax.Proofs.Parse.ProgramCompleteness

namespace LoxSyntax

namespace Expr

/-- What stands on the left of an operator, of the arguments of a call, or of a property. -/
def left? : Expr → Option Expr
  | binary left _ _ | logical left _ _ | call left _ _ | get left _ | set left _ _ => some left
  | _ => none

/-- The other parts of an expression. -/
def others : Expr → List Expr
  | assign _ value | set _ _ value => [value]
  | binary _ _ right | logical _ _ right | unary _ right => [right]
  | call _ _ arguments => arguments
  | grouping inner => [inner]
  | get _ _ | constant _ | super _ _ | this _ | reference _ => []

/-- A path down from the root, of so many nodes, with so many steps to the left among them. -/
inductive Path : Expr → Nat → Nat → Prop where
  | here (e : Expr) : Path e 1 0
  | left {e l : Expr} {n k : Nat} (is : e.left? = some l) (path : Path l n k) : Path e (n + 1) (k + 1)
  | other {e o : Expr} {n k : Nat} (is : o ∈ e.others) (path : Path o n k) : Path e (n + 1) k

/-- No path has more nodes than that, if steps to the left do not count. -/
def Within (bound : Nat) (e : Expr) : Prop := ∀ n k, e.Path n k → n ≤ bound + k

end Expr

namespace Stmt

/-- The expressions that a statement is directly made of. -/
def exprs : Stmt → List Expr
  | expression value | print value => [value]
  | ifElse condition _ _ | whileLoop condition _ => [condition]
  | ret _ value | varDecl _ value => value.toList
  | block _ | classDecl _ _ _ | function _ => []

/-- The statements that a statement is directly made of. -/
def stmts : Stmt → List Stmt
  | block body => body
  | classDecl _ _ methods => methods.flatMap Function.body
  | function decl => decl.body
  | ifElse _ thenBranch elseBranch => thenBranch :: elseBranch.toList
  | whileLoop _ body => [body]
  | expression _ | print _ | ret _ _ | varDecl _ _ => []

/-- A path down from the root, of so many nodes, with so many steps to the left among them. -/
inductive Path : Stmt → Nat → Nat → Prop where
  | here (s : Stmt) : Path s 1 0
  | expr {s : Stmt} {e : Expr} {n k : Nat} (is : e ∈ s.exprs) (path : e.Path n k) : Path s (n + 1) k
  | stmt {s t : Stmt} {n k : Nat} (is : t ∈ s.stmts) (path : Path t n k) : Path s (n + 1) k

/-- No path has more nodes than that, if steps to the left do not count. -/
def Within (bound : Nat) (s : Stmt) : Prop := ∀ n k, s.Path n k → n ≤ bound + k

end Stmt

namespace Expr.Within

theorem mono {e : Expr} {bound bound' : Nat} (h : e.Within bound) (le : bound ≤ bound') :
    e.Within bound' := by
  intro n k path
  have first := h n k path
  omega

/-- A node adds one, but not to what is on its left. -/
theorem node {e : Expr} {bound : Nat} (left : ∀ l ∈ e.left?, l.Within (bound + 1))
    (others : ∀ o ∈ e.others, o.Within bound) : e.Within (bound + 1) := by
  intro n k path
  cases path with
  | here => omega
  | left is path =>
    have inside := left _ is _ _ path
    omega
  | other is path =>
    have inside := others _ is _ _ path
    omega

theorem left {e : Expr} {bound : Nat} (h : e.Within bound) : ∀ l ∈ e.left?, l.Within bound := by
  intro l is n k path
  have whole := h _ _ (.left is path)
  omega

theorem leaf {e : Expr} {bound : Nat} (left : e.left? = none) (others : e.others = []) :
    e.Within (bound + 1) :=
  node (by simp [left]) (by simp [others])

end Expr.Within

namespace Stmt.Within

theorem mono {s : Stmt} {bound bound' : Nat} (h : s.Within bound) (le : bound ≤ bound') :
    s.Within bound' := by
  intro n k path
  have first := h n k path
  omega

theorem node {s : Stmt} {bound : Nat} (exprs : ∀ e ∈ s.exprs, e.Within bound)
    (stmts : ∀ t ∈ s.stmts, t.Within bound) : s.Within (bound + 1) := by
  intro n k path
  cases path with
  | here => omega
  | expr is path =>
    have inside := exprs _ is _ _ path
    omega
  | stmt is path =>
    have inside := stmts _ is _ _ path
    omega

end Stmt.Within

/-- No statement of the body has a longer path than that. -/
def Function.Within (bound : Nat) (f : Function) : Prop := ∀ s ∈ f.body, s.Within bound

namespace Parse

/-- How long paths may be at this depth: seven nodes for every level that is left. -/
def allowance (depth : Nat) : Nat := 7 * (maxDepth - depth)

theorem allowance_succ {depth : Nat} (h : depth < maxDepth) :
    allowance (depth + 1) + 7 = allowance depth := by
  unfold allowance
  omega

open Rule (Gives)

/-- A level deeper, seven nodes less are left. -/
theorem nested_within {α : Type} {rule : Rule α} {within : Nat → α → Prop}
    (h : Gives rule fun d a => within (allowance d + 7) a) :
    Gives (Rule.nested rule) fun d a => within (allowance d) a := by
  apply h.nested.imp
  intro d a inside
  rw [← allowance_succ inside.1]
  exact inside.2

/-- What the rules of a level give has paths of seven nodes more than is left below it. -/
structure Rules.Bounded (inner : Rules) : Prop where
  assignment : Gives inner.assignment fun d e => e.Within (allowance d + 7)
  unary : Gives inner.unary fun d e => e.Within (allowance d + 7)
  statement : Gives inner.statement fun d s => s.Within (allowance d + 7)
  function : ∀ kind, Gives (inner.function kind) fun d f => f.Within (allowance d + 7)

/-- However many operands there are, they add one node: those before the last are on the left. -/
theorem leftAssociative_within (operators : List TokenKind) {operand : Rule Expr}
    {build : Expr → Token → Expr → Expr} {more : Nat}
    (h : Gives operand fun d e => e.Within (allowance d + more))
    (left : ∀ l o r, (build l o r).left? = some l) (others : ∀ l o r, (build l o r).others = [r]) :
    Gives (leftAssociative operators operand build) fun d e => e.Within (allowance d + more + 1) := by
  have round (l : Expr) : Gives (foldOperand operators operand build l) fun d found =>
      l.Within (allowance d + more + 1) → ∀ e ∈ found, e.Within (allowance d + more + 1) := by
    refine (Gives.take? operators).bind fun found => ?_
    cases found with
    | none => exact .pure fun _ _ _ => nofun
    | some operator =>
      refine h.bind fun r => .pure fun d inside _ before e is => ?_
      cases is
      exact .node (by simpa [left] using before) (by simpa [others] using inside)
  exact h.bind fun l => (Gives.iterate round l).imp fun d e last first => last (first.mono (by omega))

theorem expression_within {inner : Rules} (hi : inner.Bounded) :
    Gives (expression inner) fun d e => e.Within (allowance d) :=
  nested_within hi.assignment

theorem finishCall_within {inner : Rules} (hi : inner.Bounded) (callee : Expr) :
    Gives (finishCall inner callee) fun d e =>
      callee.Within (allowance d + 1) → e.Within (allowance d + 1) := by
  refine (Gives.before _ (Gives.commaSeparated _ (expression_within hi))).bind fun arguments =>
    (Gives.expect _ _).bind fun paren => .pure fun d _ inside before => ?_
  refine .node (by simpa [Expr.left?] using before) ?_
  cases arguments with
  | none => nofun
  | some all => exact inside all rfl

theorem primary_within {inner : Rules} (hi : inner.Bounded) :
    Gives (primary inner) fun d e => e.Within (allowance d + 1) := by
  refine Gives.peek?.bind fun found => ?_
  cases found with
  | none => exact .fail _
  | some t =>
    dsimp only
    cases t.kind with
    | falseKw | trueKw | nilKw | number | string | thisKw | identifier =>
      exact Gives.skip.bind fun _ => .pure fun d _ _ => .leaf rfl rfl
    | superKw =>
      exact Gives.skip.bind fun _ => (Gives.expect _ _).bind fun _ => (Gives.expect _ _).bind
        fun method => .pure fun d _ _ _ _ => .leaf rfl rfl
    | leftParen =>
      refine Gives.skip.bind fun _ => (expression_within hi).bind fun e => (Gives.expect _ _).bind
        fun _ => .pure fun d _ inside _ _ => ?_
      exact .node nofun (by simpa [Expr.others] using inside)
    | _ => exact .fail _

theorem callOrGet_within {inner : Rules} (hi : inner.Bounded) (left : Expr) :
    Gives (callOrGet inner left) fun d found =>
    left.Within (allowance d + 1) → ∀ e ∈ found, e.Within (allowance d + 1) := by
  refine (Gives.accept _).bind fun isCall => .ite _
    ((finishCall_within hi left).map fun d e inside _ before => ?_) ?_
  · simpa using inside before
  · refine (Gives.behind .dot ((Gives.expect _ _).map (R := fun d e =>
      left.Within (allowance d + 1) → e.Within (allowance d + 1)) fun d name _ before => ?_)).imp
      fun d found inside _ before e is => inside e is before
    exact .node (by simpa [Expr.left?] using before) nofun

theorem call_within {inner : Rules} (hi : inner.Bounded) :
    Gives (call inner) fun d e => e.Within (allowance d + 1) :=
  (primary_within hi).bind fun l => (Gives.iterate (callOrGet_within hi) l).imp fun _ _ last => last

theorem unary_within {inner : Rules} (hi : inner.Bounded) :
    Gives (unary inner) fun d e => e.Within (allowance d + 1) := by
  refine (Gives.take? _).bind fun found => ?_
  cases found with
  | none => exact (call_within hi).imp fun d e inside _ => inside
  | some operator =>
    refine (nested_within hi.unary).bind fun right => .pure fun d inside _ => ?_
    exact .node nofun (by simpa [Expr.others] using inside)

/-- Six levels of operators stand above the unary ones. -/
theorem disjunction_within {inner : Rules} (hi : inner.Bounded) :
    Gives (disjunction inner) fun d e => e.Within (allowance d + 7) := by
  have factor : Gives (factor inner) fun d e => e.Within (allowance d + 2) :=
    leftAssociative_within _ (unary_within hi) (fun _ _ _ => rfl) fun _ _ _ => rfl
  have term : Gives (term inner) fun d e => e.Within (allowance d + 3) :=
    leftAssociative_within _ factor (fun _ _ _ => rfl) fun _ _ _ => rfl
  have comparison : Gives (comparison inner) fun d e => e.Within (allowance d + 4) :=
    leftAssociative_within _ term (fun _ _ _ => rfl) fun _ _ _ => rfl
  have equality : Gives (equality inner) fun d e => e.Within (allowance d + 5) :=
    leftAssociative_within _ comparison (fun _ _ _ => rfl) fun _ _ _ => rfl
  have conjunction : Gives (conjunction inner) fun d e => e.Within (allowance d + 6) :=
    leftAssociative_within _ equality (fun _ _ _ => rfl) fun _ _ _ => rfl
  exact leftAssociative_within _ conjunction (fun _ _ _ => rfl) fun _ _ _ => rfl

theorem assignment_within {inner : Rules} (hi : inner.Bounded) :
    Gives (assignment inner) fun d e => e.Within (allowance d + 7) := by
  refine (disjunction_within hi).bind fun target => (Gives.take? _).bind fun found => ?_
  cases found with
  | none => exact .pure fun d _ before => before
  | some equal =>
    refine (nested_within hi.assignment).bind fun value => ?_
    cases target with
    | reference name =>
      refine .pure fun d inside _ _ => ?_
      have whole : (Expr.assign name value).Within (allowance d + 1) :=
        .node nofun (by simpa [Expr.others] using inside)
      exact whole.mono (by omega)
    | get object name =>
      refine .pure fun d inside _ before => ?_
      have front : object.Within (allowance d + 7) := before.left object rfl
      have value : value.Within (allowance d + 6) := inside.mono (by omega)
      exact .node (by simpa [Expr.left?] using front) (by simpa [Expr.others] using value)
    | _ => exact (Gives.report _).bind fun _ => .pure fun d _ _ _ before => before

/-- The links so far, at the depth of the last of them: with the rest of the chain behind them, they
are as high as an `if` may be where they started. -/
structure Chained (start depth : Nat) (links : Links) : Prop where
  last : ∀ t ∈ links.last, t.Within (allowance depth + 1)
  guards : ∀ rest : Option Stmt, (∀ t ∈ rest, t.Within (allowance depth + 1)) →
    ∀ t ∈ Links.toElse { links with last := rest }, t.Within (allowance start + 1)

theorem ifElse_within {bound : Nat} {condition : Expr} {body : Stmt} {rest : Option Stmt}
    (hcondition : condition.Within bound) (hbody : body.Within bound)
    (hrest : ∀ t ∈ rest, t.Within bound) :
    Stmt.Within (bound + 1) (.ifElse condition body rest) :=
  .node (by simpa [Stmt.exprs] using hcondition) (by simpa [Stmt.stmts, hbody] using hrest)

/-- One more link is one level further in, and that has room for its node. -/
theorem Chained.push {start depth : Nat} {links : Links} {condition : Expr} {body : Stmt}
    (h : Chained start depth links) (unended : links.last = none) (room : depth < maxDepth)
    (hcondition : condition.Within (allowance (depth + 1)))
    (hbody : body.Within (allowance (depth + 1))) :
    Chained start (depth + 1) { links with guards := links.guards.push (condition, body) } where
  last := by simp [unended]
  guards rest hrest := by
    have level := allowance_succ room
    have link : Stmt.Within (allowance (depth + 1) + 1 + 1) (.ifElse condition body rest) :=
      ifElse_within (hcondition.mono (by omega)) (hbody.mono (by omega)) hrest
    have next : Stmt.Within (allowance depth + 1) (.ifElse condition body rest) :=
      link.mono (by omega)
    simpa [Links.toElse] using h.guards (some (.ifElse condition body rest)) (by simpa using next)

theorem statement_within {inner : Rules} (hi : inner.Bounded) :
    Gives (statement inner) fun d s => s.Within (allowance d) :=
  nested_within hi.statement

theorem function_within {inner : Rules} (hi : inner.Bounded) (kind : FunctionKind) :
    Gives (function inner kind) fun d f => f.Within (allowance d) :=
  nested_within (hi.function kind)

theorem varDeclaration_within {inner : Rules} (hi : inner.Bounded) :
    Gives (varDeclaration inner) fun d s => s.Within (allowance d + 1) :=
  (Gives.expect _ _).bind fun name => (Gives.behind _ (expression_within hi)).bind fun value =>
    (Gives.expect _ _).bind fun _ => .pure fun d _ inside _ =>
    .node (by simpa [Stmt.exprs] using inside) nofun

theorem expressionStatement_within {inner : Rules} (hi : inner.Bounded) :
    Gives (expressionStatement inner) fun d s => s.Within (allowance d + 1) :=
  (expression_within hi).bind fun value => (Gives.expect _ _).bind fun _ => .pure fun d _ inside =>
    .node (by simpa [Stmt.exprs] using inside) nofun

theorem printStatement_within {inner : Rules} (hi : inner.Bounded) :
    Gives (printStatement inner) fun d s => s.Within (allowance d + 1) :=
  (expression_within hi).bind fun value => (Gives.expect _ _).bind fun _ => .pure fun d _ inside =>
    .node (by simpa [Stmt.exprs] using inside) nofun

theorem returnStatement_within {inner : Rules} (hi : inner.Bounded) (keyword : Token) :
    Gives (returnStatement inner keyword) fun d s => s.Within (allowance d + 1) :=
  (Gives.before _ (expression_within hi)).bind fun value => (Gives.expect _ _).bind fun _ =>
    .pure fun d _ inside => .node (by simpa [Stmt.exprs] using inside) nofun

theorem whileStatement_within {inner : Rules} (hi : inner.Bounded) :
    Gives (whileStatement inner) fun d s => s.Within (allowance d + 1) :=
  (Gives.expect _ _).bind fun _ => (expression_within hi).bind fun condition =>
    (Gives.expect _ _).bind fun _ => (statement_within hi).bind fun body =>
    .pure fun d inside _ test _ =>
    .node (by simpa [Stmt.exprs] using test) (by simpa [Stmt.stmts] using inside)

theorem forInitializer_within {inner : Rules} (hi : inner.Bounded) :
    Gives (forInitializer inner) fun d found => ∀ s ∈ found, s.Within (allowance d + 1) :=
  (Gives.accept _).bind fun _ => .ite _ (.pure fun _ _ => nofun) <|
    (Gives.accept _).bind fun _ => .ite _
      ((varDeclaration_within hi).map fun d s inside _ _ => by simpa using inside)
      ((expressionStatement_within hi).map fun d s inside _ _ => by simpa using inside)

/-- A loop with all its clauses is a block, a loop, a block and a statement above the increment. -/
theorem forLoop_within {bound : Nat} {init : Option Stmt} {condition increment : Option Expr}
    {body : Stmt} (hinit : ∀ s ∈ init, s.Within (bound + 1))
    (hcondition : ∀ e ∈ condition, e.Within bound) (hincrement : ∀ e ∈ increment, e.Within bound)
    (hbody : body.Within bound) : (forLoop init condition increment body).Within (bound + 4) := by
  have test : (condition.getD (.constant (.bool true))).Within (bound + 2) := by
    cases condition with
    | none => exact .leaf rfl rfl
    | some e => exact (hcondition e rfl).mono (by omega)
  have round (inside : Stmt) (h : inside.Within (bound + 2)) :
      Stmt.Within (bound + 3) (.whileLoop (condition.getD (.constant (.bool true))) inside) :=
    .node (by simpa [Stmt.exprs] using test) (by simpa [Stmt.stmts] using h)
  have loop : Stmt.Within (bound + 3) (forLoop none condition increment body) := by
    cases increment with
    | none => exact round body (hbody.mono (by omega))
    | some e =>
      have step : Stmt.Within (bound + 1) (.expression e) :=
        .node (by simpa [Stmt.exprs] using hincrement e rfl) nofun
      have first : body.Within (bound + 1) := hbody.mono (by omega)
      exact round _ (.node nofun (by simpa [Stmt.stmts] using ⟨first, step⟩))
  cases init with
  | none => exact loop.mono (by omega)
  | some s =>
    have first : s.Within (bound + 3) := (hinit s rfl).mono (by omega)
    have both : ∀ t ∈ [s, forLoop none condition increment body], t.Within (bound + 3) := by
      simp [first, loop]
    exact .node nofun both

theorem forStatement_within {inner : Rules} (hi : inner.Bounded) :
    Gives (forStatement inner) fun d s => s.Within (allowance d + 4) :=
  (Gives.expect _ _).bind fun _ => (forInitializer_within hi).bind fun _ =>
    (Gives.before _ (expression_within hi)).bind fun _ => (Gives.expect _ _).bind fun _ =>
    (Gives.before _ (expression_within hi)).bind fun _ => (Gives.expect _ _).bind fun _ =>
    (statement_within hi).bind fun _ => .pure fun _ body _ increment _ condition init _ =>
    forLoop_within init condition increment body

theorem guarded_within {inner : Rules} (hi : inner.Bounded) :
    Gives (guarded inner) fun d guard =>
      guard.1.Within (allowance d) ∧ guard.2.Within (allowance d) :=
  (Gives.expect _ _).bind fun _ => (expression_within hi).bind fun _ =>
    (Gives.expect _ _).bind fun _ => (statement_within hi).bind fun _ =>
    .pure fun _ body _ condition _ => ⟨condition, body⟩

theorem elseLink_within {inner : Rules} (hi : inner.Bounded) (start : Nat) (links : Links)
    (s : State) (found : Option Links) (s' : State) (h : Chained start s.depth links)
    (run : elseLink inner links s = .ok found s') : Chained start s'.depth (found.getD links) := by
  unfold elseLink at run
  split at run
  · cases run
    exact h
  next unended =>
    obtain ⟨isElse, t, first, run⟩ := Rule.exists_of_bind_ok run
    rw [← (Gives.accept _).depth_eq first] at h
    cases isElse with
    | false =>
      cases run
      exact h
    | true =>
      obtain ⟨isIf, u, second, run⟩ := Rule.exists_of_bind_ok run
      rw [← (Gives.accept _).depth_eq second] at h
      cases isIf with
      | false =>
        obtain ⟨branch, v, read, run⟩ := Rule.exists_of_bind_ok run
        cases run
        have inside := (statement_within hi).result read
        rw [← (statement_within hi).depth_eq read] at h inside
        exact ⟨by simpa using inside.mono (by omega), h.guards⟩
      | true =>
        obtain ⟨_, v, down, run⟩ := Rule.exists_of_bind_ok run
        obtain ⟨guard, w, read, run⟩ := Rule.exists_of_bind_ok run
        cases run
        obtain ⟨condition, body⟩ := (guarded_within hi).result read
        obtain ⟨room, rfl⟩ := Rule.descend_eq_ok down
        rw [(guarded_within hi).depth_eq read]
        exact h.push (by simpa using unended) room condition body

theorem ifStatement_within {inner : Rules} (hi : inner.Bounded) :
    Gives (ifStatement inner) fun d s => s.Within (allowance d + 2) := by
  apply Gives.keepingDepth
  intro s a s' run
  obtain ⟨⟨condition, body⟩, t, guard, run⟩ := Rule.exists_of_bind_ok run
  obtain ⟨links, u, chain, run⟩ := Rule.exists_of_bind_ok run
  cases run
  obtain ⟨hcondition, hbody⟩ := (guarded_within hi).result guard
  rw [← (guarded_within hi).depth_eq guard] at hcondition hbody ⊢
  have alone : Chained t.depth t.depth ⟨#[], none⟩ :=
    ⟨nofun, fun _ rest => by simpa [Links.toElse] using rest⟩
  have whole : Chained t.depth s'.depth links :=
    Rule.iterate_invariant (elseLink_within hi t.depth) alone chain
  exact ifElse_within (hcondition.mono (by omega)) (hbody.mono (by omega))
    (whole.guards links.last whole.last)

theorem addMethod_within {inner : Rules} (hi : inner.Bounded) (methods : Array Function) :
    Gives (addMethod inner methods) fun d found =>
      (∀ m ∈ methods.toList, m.Within (allowance d)) →
        ∀ all ∈ found, ∀ m ∈ all.toList, m.Within (allowance d) := by
  refine Gives.peek?.bind fun next => ?_
  cases next with
  | none => exact .pure fun _ _ _ => nofun
  | some t =>
    refine .ite _ (.pure fun _ _ _ => nofun) ?_
    refine (function_within hi .method).bind fun method => .pure fun d inside _ before all is => ?_
    cases is
    simpa [or_imp, forall_and, inside] using before

theorem classDeclaration_within {inner : Rules} (hi : inner.Bounded) :
    Gives (classDeclaration inner) fun d s => s.Within (allowance d + 1) := by
  refine (Gives.expect _ _).bind fun name => (Gives.behind _ (Gives.expect _ _)).bind fun parent =>
    (Gives.expect _ _).bind fun _ => (Gives.iterate (addMethod_within hi) #[]).bind fun methods =>
    (Gives.expect _ _).bind fun _ => .pure fun d _ inside _ _ _ => .node nofun fun t is => ?_
  obtain ⟨method, among, is⟩ := List.mem_flatMap.mp is
  exact inside nofun method among t is

theorem declarationRule_within {inner : Rules} (hi : inner.Bounded) :
    Gives (declarationRule inner) fun d s => s.Within (allowance d + 1) :=
  (Gives.accept _).bind fun _ => .ite _
    ((classDeclaration_within hi).imp fun _ _ inside _ => inside) <|
    (Gives.accept _).bind fun _ => .ite _
      ((function_within hi .function).map fun _ _ inside _ _ => .node nofun inside) <|
      (Gives.accept _).bind fun _ => .ite _
        ((varDeclaration_within hi).imp fun _ _ inside _ _ _ => inside)
        ((statement_within hi).imp fun _ _ inside _ _ _ => inside.mono (by omega))

theorem functionBody_within {inner : Rules} (hi : inner.Bounded) (kind : FunctionKind) :
    Gives (functionBody inner kind) fun d f => f.Within (allowance d + 1) :=
  (Gives.expect _ _).bind fun _ => (Gives.expect _ _).bind fun _ =>
    (Gives.before _ (Gives.commaSeparated _ (Gives.expect _ _))).bind fun _ =>
    (Gives.expect _ _).bind fun _ => (Gives.expect _ _).bind fun _ =>
    (block_gives (declarationRule_within hi)).bind fun _ =>
    .pure fun _ inside _ _ _ _ _ => inside

theorem statementBody_within {inner : Rules} (hi : inner.Bounded) :
    Gives (statementBody inner) fun d s => s.Within (allowance d + 7) := by
  have other := (expressionStatement_within hi).imp (Q := fun d s => s.Within (allowance d + 7))
    fun _ _ inside => inside.mono (by omega)
  refine Gives.peek?.bind fun found => ?_
  cases found with
  | none => exact other.imp fun _ _ inside _ => inside
  | some t =>
    dsimp only
    cases t.kind with
    | forKw =>
      exact Gives.skip.bind fun _ => (forStatement_within hi).imp fun _ _ inside _ _ =>
        inside.mono (by omega)
    | ifKw =>
      exact Gives.skip.bind fun _ => (ifStatement_within hi).imp fun _ _ inside _ _ =>
        inside.mono (by omega)
    | printKw =>
      exact Gives.skip.bind fun _ => (printStatement_within hi).imp fun _ _ inside _ _ =>
        inside.mono (by omega)
    | returnKw =>
      exact Gives.skip.bind fun _ => (returnStatement_within hi t).imp fun _ _ inside _ _ =>
        inside.mono (by omega)
    | whileKw =>
      exact Gives.skip.bind fun _ => (whileStatement_within hi).imp fun _ _ inside _ _ =>
        inside.mono (by omega)
    | leftBrace =>
      refine Gives.skip.bind fun _ => (block_gives (declarationRule_within hi)).map
        fun d body inside _ _ => ?_
      have whole : (Stmt.block body).Within (allowance d + 2) := .node nofun inside
      exact whole.mono (by omega)
    | _ => exact other.imp fun _ _ inside _ => inside

theorem rules_bounded (level : Nat) : (rules level).Bounded := by
  induction level with
  | zero => exact ⟨.fail _, .fail _, .fail _, fun _ => .fail _⟩
  | succ level ih =>
    exact ⟨assignment_within ih, (unary_within ih).imp fun _ _ inside => inside.mono (by omega),
      statementBody_within ih, fun kind => (functionBody_within ih kind).imp fun _ _ inside t is =>
        (inside t is).mono (by omega)⟩

theorem parse_within (tokens : List Token) :
    ∀ s ∈ (parse tokens).statements, s.Within (7 * maxDepth + 1) :=
  (declarations_gives (declarationRule_within (rules_bounded maxDepth)) (fun _ => false)
    (State.start tokens).ahead (State.start tokens)).2

end Parse

open Grammar

/-- `a + a + … + a`, with so many operators. -/
def sum : Nat → Derivation (.expr (.binary .term))
  | 0 => .ofTighter (.ofTighter (.ofCall (.ofPrimary (.reference ⟨⟨.identifier, "a", none, 1⟩, rfl⟩))))
  | n + 1 =>
    let operand : Derivation (.expr (.binary .factor)) :=
      .ofTighter (.ofCall (.ofPrimary (.reference ⟨⟨.identifier, "a", none, 1⟩, rfl⟩)))
    .fold (sum n) ⟨⟨.plus, "+", none, 1⟩, by decide⟩ operand

theorem sum_proper (n : Nat) : (sum n).Proper := by
  induction n with
  | zero => trivial
  | succ n ih => exact ⟨ih, trivial⟩

/-- Operators on one level nest no deeper for being many. -/
theorem sum_nesting (n : Nat) : (sum n).nesting = 0 := by
  induction n with
  | zero => rfl
  | succ n ih =>
    change max (sum n).nesting 0 = 0
    omega

theorem sum_path (n : Nat) : (sum n).tree.Path (n + 1) n := by
  induction n with
  | zero => exact .here _
  | succ n ih => exact .left rfl ih

/-- The program that is made of this sum only. -/
def sumProgram (n : Nat) : Program :=
  let comparison : Derivation (.expr (.binary .comparison)) := .ofTighter (sum n)
  let equality : Derivation (.expr (.binary .equality)) := .ofTighter comparison
  let conjunction : Derivation (.expr (.binary .conjunction)) := .ofTighter equality
  let value : Derivation (.expr .expression) := .expression (.ofDisjunction (.ofTighter conjunction))
  .moreDeclarations (.ofStatement (.statement (.ofExprStmt
    (.exprStmt value ⟨⟨.semicolon, ";", none, 1⟩, Eq.refl TokenKind.semicolon⟩)))) .noDeclarations

theorem parse_sum (n : Nat) :
    parse ((sumProgram n).tokens ++ [.eof 1]) = ⟨[.expression (sum n).tree], []⟩ := by
  have nesting : (sumProgram n).nesting = 2 := by
    change max ((sum n).nesting + 1 + 1) 0 = 2
    rw [sum_nesting]
    rfl
  have read := Parse.program_outcome (sumProgram n) ⟨sum_proper n, trivial⟩ (.eof 1) rfl []
  exact read.1 (by rw [nesting]; decide)

/-- In the trees of a parse no path has more nodes than seven for each level that may be nested, and
one, if steps to the left are left out. So it has no more than sixteen for each, as long as it goes
to the left less than nine times for each. -/
theorem parse_height (tokens : List Token) {s : Stmt} (inside : s ∈ (parse tokens).statements)
    {n k : Nat} (path : s.Path n k) :
    n ≤ 7 * Parse.maxDepth + 1 + k ∧ (k < 9 * Parse.maxDepth → n ≤ 16 * Parse.maxDepth) := by
  have bounded := Parse.parse_within tokens s inside n k path
  refine ⟨bounded, fun few => ?_⟩
  unfold Parse.maxDepth at *
  omega

theorem parse_height_sum :
    let tokens := (sumProgram 1).tokens ++ [.eof 1]
    let s : Stmt := .expression (sum 1).tree
    tokens.map (·.lexeme) = ["a", "+", "a", ";", ""] ∧ s ∈ (parse tokens).statements ∧ s.Path 3 1 ∧
      3 ≤ 7 * Parse.maxDepth + 1 + 1 ∧ (1 < 9 * Parse.maxDepth → 3 ≤ 16 * Parse.maxDepth) := by
  intro tokens s
  have inside : s ∈ (parse tokens).statements := by simp [tokens, s, parse_sum]
  have path : s.Path 3 1 := .expr (by simp [s, Stmt.exprs]) (sum_path 1)
  exact ⟨rfl, inside, path, parse_height tokens inside path⟩

/-- Nothing bounds the paths in the trees of programs without errors. -/
theorem parse_height_unbounded :
    ¬ ∃ bound, ∀ tokens, (parse tokens).errors = [] →
      ∀ s ∈ (parse tokens).statements, ∀ n k, s.Path n k → n ≤ bound := by
  rintro ⟨bound, bounded⟩
  have path : (Stmt.expression (sum bound).tree).Path (bound + 2) bound :=
    .expr (by simp [Stmt.exprs]) (sum_path bound)
  have read := parse_sum bound
  have short := bounded _ (by rw [read]) _ (by simp [read]) _ _ path
  omega

end LoxSyntax
