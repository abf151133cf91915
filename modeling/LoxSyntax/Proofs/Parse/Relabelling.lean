import LoxSyntax.Proofs.Parse.Declarations

namespace LoxSyntax

namespace Expr

mutual

/-- The tree with another token in the place of each. -/
def relabel (f : Token → Token) : Expr → Expr
  | assign name value => assign (f name) (value.relabel f)
  | binary left operator right => binary (left.relabel f) (f operator) (right.relabel f)
  | call callee paren arguments => call (callee.relabel f) (f paren) (relabelAll f arguments)
  | get object name => get (object.relabel f) (f name)
  | grouping inner => grouping (inner.relabel f)
  | constant value => constant value
  | logical left operator right => logical (left.relabel f) (f operator) (right.relabel f)
  | set object name value => set (object.relabel f) (f name) (value.relabel f)
  | super keyword method => super (f keyword) (f method)
  | this keyword => this (f keyword)
  | unary operator right => unary (f operator) (right.relabel f)
  | reference name => reference (f name)

def relabelAll (f : Token → Token) : List Expr → List Expr
  | [] => []
  | e :: es => e.relabel f :: relabelAll f es

end

theorem relabelAll_eq_map (f : Token → Token) (es : List Expr) :
    relabelAll f es = es.map (relabel f) := by
  induction es with
  | nil => rfl
  | cons e es ih => rw [relabelAll, ih, List.map_cons]

end Expr

namespace Stmt

mutual

/-- The tree with another token in the place of each. -/
def relabel (f : Token → Token) : Stmt → Stmt
  | block body => block (relabelAll f body)
  | classDecl name superclass methods =>
    classDecl (f name) (superclass.map f) (relabelMethods f methods)
  | expression value => expression (value.relabel f)
  | function decl => function (relabelFunction f decl)
  | ifElse condition thenBranch none => ifElse (condition.relabel f) (thenBranch.relabel f) none
  | ifElse condition thenBranch (some elseBranch) =>
    ifElse (condition.relabel f) (thenBranch.relabel f) (some (elseBranch.relabel f))
  | print value => print (value.relabel f)
  | ret keyword value => ret (f keyword) (value.map (Expr.relabel f))
  | varDecl name value => varDecl (f name) (value.map (Expr.relabel f))
  | whileLoop condition body => whileLoop (condition.relabel f) (body.relabel f)

def relabelAll (f : Token → Token) : List Stmt → List Stmt
  | [] => []
  | s :: ss => s.relabel f :: relabelAll f ss

def relabelFunction (f : Token → Token) : Function → Function
  | ⟨name, params, body⟩ => ⟨f name, params.map f, relabelAll f body⟩

def relabelMethods (f : Token → Token) : List Function → List Function
  | [] => []
  | m :: ms => relabelFunction f m :: relabelMethods f ms

end

theorem relabelAll_eq_map (f : Token → Token) (ss : List Stmt) :
    relabelAll f ss = ss.map (relabel f) := by
  induction ss with
  | nil => rfl
  | cons s ss ih => rw [relabelAll, ih, List.map_cons]

theorem relabelMethods_eq_map (f : Token → Token) (ms : List Function) :
    relabelMethods f ms = ms.map (relabelFunction f) := by
  induction ms with
  | nil => rfl
  | cons m ms ih => rw [relabelMethods, ih, List.map_cons]

theorem relabel_ifElse (f : Token → Token) (condition : Expr) (thenBranch : Stmt)
    (elseBranch : Option Stmt) :
    (ifElse condition thenBranch elseBranch).relabel f =
      ifElse (condition.relabel f) (thenBranch.relabel f) (elseBranch.map (relabel f)) := by
  cases elseBranch <;> rfl

end Stmt

def ParseError.relabel (f : Token → Token) (e : ParseError) : ParseError := { e with token := f e.token }

namespace Parse

/-- What the parser reads of a token stays: its kind and, as that of a constant, its value. -/
structure Alike (f : Token → Token) : Prop where
  kind : ∀ t, (f t).kind = t.kind
  literal : ∀ t, t.kind = .number ∨ t.kind = .string → (f t).literal = t.literal

/-- The state with another token in the place of each, behind errors recorded before. -/
def State.relabel (base : Array ParseError) (f : Token → Token) (s : State) : State where
  ahead := s.ahead.map f
  stop := f s.stop
  depth := s.depth
  halted := s.halted
  errors := base ++ s.errors.map (ParseError.relabel f)

theorem State.current_relabel (base : Array ParseError) (f : Token → Token) (s : State) :
    (s.relabel base f).current = f s.current := by
  unfold State.current State.relabel
  cases s.ahead <;> rfl

theorem State.record_relabel (base : Array ParseError) (f : Token → Token) (s : State)
    (e : ParseError) : (s.relabel base f).record (e.relabel f) = (s.record e).relabel base f := by
  cases halted : s.halted <;> simp [State.record, State.relabel, halted]

theorem synchronize_map {f : Token → Token} (hf : Alike f) (ts : List Token) :
    synchronize (ts.map f) = (synchronize ts).map f := by
  induction ts with
  | nil => rfl
  | cons t ts ih =>
    have next : (ts.map f).head?.any (·.kind.beginsStatement) =
        ts.head?.any (·.kind.beginsStatement) := by
      cases ts <;> simp [hf.kind]
    simp only [List.map_cons, synchronize, hf.kind, next, ih]
    split <;> rfl

theorem State.recover_relabel {f : Token → Token} (hf : Alike f) (base : Array ParseError)
    (s : State) (e : ParseError) :
    (s.relabel base f).recover (e.relabel f) = (s.recover e).relabel base f := by
  unfold State.recover
  rw [State.record_relabel]
  change (if e.problem = .tooDeep then _ else _) = _
  by_cases deep : e.problem = .tooDeep
  · simp [deep, State.relabel]
  · simp [deep, State.relabel, synchronize_map hf]

/-- The outcome of a rule with another token in the place of each. -/
def relabelOutcome {α β : Type} (base : Array ParseError) (f : Token → Token) (g : α → β) :
    EStateM.Result ParseError State α → EStateM.Result ParseError State β
  | .ok a s => .ok (g a) (s.relabel base f)
  | .error e s => .error (e.relabel f) (s.relabel base f)

/-- The second rule does with other tokens what the first does; so it gives the same, but for
them. -/
def Rule.Carries {α β : Type} (f : Token → Token) (g : α → β) (rule : Rule α) (rule' : Rule β) :
    Prop :=
  ∀ base s, rule' (s.relabel base f) = relabelOutcome base f g (rule s)

namespace Rule.Carries

theorem pure {α β : Type} {f : Token → Token} {g : α → β} (a : α) :
    Carries f g (Pure.pure a) (Pure.pure (g a)) := fun _ _ => rfl

theorem bind {α β γ δ : Type} {f : Token → Token} {g : α → β} {h : γ → δ} {rule : Rule α}
    {rule' : Rule β} {next : α → Rule γ} {next' : β → Rule δ} (first : Carries f g rule rule')
    (second : ∀ a, Carries f h (next a) (next' (g a))) :
    Carries f h (rule >>= next) (rule' >>= next') := by
  intro base s
  have run' := first base s
  cases run : rule s with
  | error e s' =>
    rw [run] at run'
    rw [bind_error _ run, bind_error _ run']
    rfl
  | ok a s' =>
    rw [run] at run'
    rw [bind_ok _ run, bind_ok _ run', second a base s']

theorem map {α β γ δ : Type} {f : Token → Token} {g : α → β} {h : γ → δ} {rule : Rule α}
    {rule' : Rule β} {k : α → γ} {k' : β → δ} (first : Carries f g rule rule')
    (same : ∀ a, k' (g a) = h (k a)) : Carries f h (k <$> rule) (k' <$> rule') := by
  rw [map_eq_pure_bind, map_eq_pure_bind]
  refine first.bind fun a => ?_
  rw [same]
  exact pure (k a)

theorem ite {α β : Type} {f : Token → Token} {g : α → β} {rule : Rule α} {rule' : Rule β}
    {other : Rule α} {other' : Rule β} (c : Prop) [Decidable c] (first : Carries f g rule rule')
    (second : Carries f g other other') :
    Carries f g (if c then rule else other) (if c then rule' else other') := by
  split
  · exact first
  · exact second

theorem fail {α β : Type} {f : Token → Token} {g : α → β} (problem : Problem) :
    Carries f g (Rule.fail problem : Rule α) (Rule.fail problem : Rule β) := by
  intro base s
  unfold Rule.fail
  rw [State.current_relabel]
  rfl

theorem report {f : Token → Token} (e : ParseError) :
    Carries f id (Rule.report e) (Rule.report (e.relabel f)) := by
  intro base s
  unfold Rule.report
  rw [State.record_relabel]
  rfl

theorem peek? {f : Token → Token} : Carries f (Option.map f) Rule.peek? Rule.peek? := by
  intro base s
  unfold Rule.peek?
  cases ahead : s.ahead <;> simp [State.relabel, relabelOutcome, ahead]

theorem skip {f : Token → Token} : Carries f id Rule.skip Rule.skip := by
  intro base s
  unfold Rule.skip
  cases ahead : s.ahead <;> simp [State.relabel, relabelOutcome, ahead]

theorem descend {f : Token → Token} : Carries f id Rule.descend Rule.descend := by
  intro base s
  by_cases room : s.depth < maxDepth
  · rw [descend_ok room, descend_ok (s := s.relabel base f) room]
    rfl
  · rw [descend_error room, descend_error (s := s.relabel base f) room, State.current_relabel]
    rfl

theorem keepingDepth {α β : Type} {f : Token → Token} {g : α → β} {rule : Rule α} {rule' : Rule β}
    (inside : Carries f g rule rule') :
    Carries f g (Rule.keepingDepth rule) (Rule.keepingDepth rule') := by
  intro base s
  unfold Rule.keepingDepth
  rw [inside base s]
  cases rule s <;> rfl

theorem nested {α β : Type} {f : Token → Token} {g : α → β} {rule : Rule α} {rule' : Rule β}
    (inside : Carries f g rule rule') : Carries f g (Rule.nested rule) (Rule.nested rule') :=
  keepingDepth (descend.bind fun _ => inside)

theorem isNext {f : Token → Token} (hf : Alike f) (kind : TokenKind) :
    Carries f id (Rule.isNext kind) (Rule.isNext kind) := by
  intro base s
  unfold Rule.isNext
  cases ahead : s.ahead <;> simp [State.relabel, relabelOutcome, ahead, hf.kind]

theorem take? {f : Token → Token} (hf : Alike f) (kinds : List TokenKind) :
    Carries f (Option.map f) (Rule.take? kinds) (Rule.take? kinds) := by
  intro base s
  unfold Rule.take?
  cases ahead : s.ahead with
  | nil => simp [State.relabel, relabelOutcome, ahead]
  | cons t rest =>
    by_cases taken : t.kind ∈ kinds
    · simp [State.relabel, relabelOutcome, ahead, hf.kind, taken]
    · simp [State.relabel, relabelOutcome, ahead, hf.kind, taken]

theorem accept {f : Token → Token} (hf : Alike f) (kind : TokenKind) :
    Carries f id (Rule.accept kind) (Rule.accept kind) := by
  refine (take? hf [kind]).bind fun found => ?_
  rw [Option.isSome_map]
  exact pure _

theorem expect {f : Token → Token} (hf : Alike f) (kind : TokenKind) (problem : Problem) :
    Carries f f (Rule.expect kind problem) (Rule.expect kind problem) := by
  refine (take? hf [kind]).bind fun found => ?_
  cases found with
  | none => exact fail problem
  | some t => exact pure t

theorem behind {α β : Type} {f : Token → Token} {g : α → β} {rule : Rule α} {rule' : Rule β}
    (hf : Alike f) (kind : TokenKind) (inside : Carries f g rule rule') :
    Carries f (Option.map g) (Rule.behind kind rule) (Rule.behind kind rule') :=
  (accept hf kind).bind fun found =>
    ite (found = true) (inside.map fun _ => rfl) (pure none)

theorem before {α β : Type} {f : Token → Token} {g : α → β} {rule : Rule α} {rule' : Rule β}
    (hf : Alike f) (kind : TokenKind) (inside : Carries f g rule rule') :
    Carries f (Option.map g) (Rule.before kind rule) (Rule.before kind rule') :=
  (isNext hf kind).bind fun found =>
    ite (found = true) (pure none) (inside.map fun _ => rfl)

theorem addItem {α β : Type} {f : Token → Token} {g : α → β} {rule : Rule α} {rule' : Rule β}
    (excess : Problem) (items : Array α) (inside : Carries f g rule rule') :
    Carries f (Array.map g) (Rule.addItem rule excess items)
      (Rule.addItem rule' excess (items.map g)) := by
  have count : Carries f id (Rule.checkCount items.size excess)
      (Rule.checkCount (items.map g).size excess) := by
    intro base s
    unfold Rule.checkCount
    rw [Array.size_map]
    by_cases full : maxArguments ≤ items.size
    · have recorded := State.record_relabel base f s ⟨s.current, excess⟩
      rw [if_pos full, if_pos full, State.current_relabel]
      exact congrArg _ recorded
    · rw [if_neg full, if_neg full]
      rfl
  refine count.bind fun _ => inside.bind fun a => ?_
  rw [← Array.map_push]
  exact pure _

theorem rounds {α β : Type} {f : Token → Token} {g : α → β} {step : α → Rule (Option α)}
    {step' : β → Rule (Option β)} (round : ∀ a, Carries f (Option.map g) (step a) (step' (g a)))
    (a : α) (bound : List Token) :
    Carries f g (Rule.rounds step bound a) (Rule.rounds step' (bound.map f) (g a)) := by
  induction bound generalizing a with
  | nil =>
    refine (round a).bind fun found => ?_
    cases found with
    | none => exact pure a
    | some b => exact pure b
  | cons t bound ih =>
    refine (round a).bind fun found => ?_
    cases found with
    | none => exact pure a
    | some b => exact ih b

/-- A repetition goes on for as long as before. -/
theorem iterate {α β : Type} {f : Token → Token} {g : α → β} {step : α → Rule (Option α)}
    {step' : β → Rule (Option β)} (round : ∀ a, Carries f (Option.map g) (step a) (step' (g a)))
    (a : α) : Carries f g (Rule.iterate step a) (Rule.iterate step' (g a)) :=
  fun base s => rounds round a s.ahead base s

theorem commaSeparated {α β : Type} {f : Token → Token} {g : α → β} {rule : Rule α} {rule' : Rule β}
    (hf : Alike f) (excess : Problem) (inside : Carries f g rule rule') :
    Carries f (List.map g) (Rule.commaSeparated rule excess)
      (Rule.commaSeparated rule' excess) := by
  have first := addItem excess #[] inside
  rw [Array.map_empty] at first
  refine first.bind fun items =>
    (iterate (fun items => behind hf .comma (addItem excess items inside)) items).bind fun all => ?_
  rw [Array.toList_map]
  exact pure _

end Rule.Carries

/-- The rules of a level do the same with other tokens. -/
structure Rules.Carry (f : Token → Token) (inner : Rules) : Prop where
  assignment : Rule.Carries f (Expr.relabel f) inner.assignment inner.assignment
  unary : Rule.Carries f (Expr.relabel f) inner.unary inner.unary
  statement : Rule.Carries f (Stmt.relabel f) inner.statement inner.statement
  function : ∀ kind, Rule.Carries f (Stmt.relabelFunction f) (inner.function kind)
    (inner.function kind)

open Rule (Carries)

theorem leftAssociative_carries {f : Token → Token} (hf : Alike f) (operators : List TokenKind)
    {operand : Rule Expr} {build : Expr → Token → Expr → Expr}
    (inside : Carries f (Expr.relabel f) operand operand)
    (same : ∀ l o r, build (l.relabel f) (f o) (r.relabel f) = (build l o r).relabel f) :
    Carries f (Expr.relabel f) (leftAssociative operators operand build)
      (leftAssociative operators operand build) := by
  refine inside.bind fun left => Carries.iterate (fun left => ?_) left
  refine (Carries.take? hf operators).bind fun found => ?_
  cases found with
  | none => exact .pure none
  | some operator =>
    refine inside.bind fun right => ?_
    rw [same]
    exact .pure (some (build left operator right))

theorem expression_carries {f : Token → Token} {inner : Rules} (hi : inner.Carry f) :
    Carries f (Expr.relabel f) (expression inner) (expression inner) :=
  hi.assignment.nested

theorem finishCall_carries {f : Token → Token} (hf : Alike f) {inner : Rules} (hi : inner.Carry f)
    (callee : Expr) :
    Carries f (Expr.relabel f) (finishCall inner callee) (finishCall inner (callee.relabel f)) := by
  refine (Carries.before hf _ (Carries.commaSeparated hf _ (expression_carries hi))).bind
    fun arguments => (Carries.expect hf _ _).bind fun paren => ?_
  have same : (arguments.map (List.map (Expr.relabel f))).getD [] =
      Expr.relabelAll f (arguments.getD []) := by
    cases arguments <;> simp [Expr.relabelAll_eq_map]
  rw [same]
  exact .pure _

theorem primary_carries {f : Token → Token} (hf : Alike f) {inner : Rules} (hi : inner.Carry f) :
    Carries f (Expr.relabel f) (primary inner) (primary inner) := by
  refine Carries.peek?.bind fun found => ?_
  cases found with
  | none => exact .fail _
  | some t =>
    change Carries _ _ (match t.kind with | _ => _) (match (f t).kind with | _ => _)
    rw [hf.kind]
    cases is : t.kind with
    | falseKw | trueKw | nilKw => exact Carries.skip.bind fun _ => .pure _
    | thisKw => exact Carries.skip.bind fun _ => .pure (Expr.this t)
    | identifier => exact Carries.skip.bind fun _ => .pure (Expr.reference t)
    | number | string =>
      refine Carries.skip.bind fun _ => ?_
      rw [hf.literal t (by simp [is])]
      exact .pure (Expr.constant (t.literal.elim .nil .literal))
    | superKw =>
      exact Carries.skip.bind fun _ => (Carries.expect hf _ _).bind fun _ =>
        (Carries.expect hf _ _).bind fun method => .pure (Expr.super t method)
    | leftParen =>
      exact Carries.skip.bind fun _ => (expression_carries hi).bind fun e =>
        (Carries.expect hf _ _).bind fun _ => .pure (Expr.grouping e)
    | _ => exact .fail _

theorem callOrGet_carries {f : Token → Token} (hf : Alike f) {inner : Rules} (hi : inner.Carry f)
    (left : Expr) :
    Carries f (Option.map (Expr.relabel f)) (callOrGet inner left)
      (callOrGet inner (left.relabel f)) :=
  (Carries.accept hf .leftParen).bind fun found => Carries.ite (found = true)
    ((finishCall_carries hf hi left).map fun _ => rfl)
    (Carries.behind hf .dot ((Carries.expect hf _ _).map fun _ => rfl))

theorem call_carries {f : Token → Token} (hf : Alike f) {inner : Rules} (hi : inner.Carry f) :
    Carries f (Expr.relabel f) (call inner) (call inner) :=
  (primary_carries hf hi).bind (Carries.iterate (callOrGet_carries hf hi))

theorem unary_carries {f : Token → Token} (hf : Alike f) {inner : Rules} (hi : inner.Carry f) :
    Carries f (Expr.relabel f) (unary inner) (unary inner) := by
  refine (Carries.take? hf _).bind fun found => ?_
  cases found with
  | none => exact call_carries hf hi
  | some operator => exact hi.unary.nested.bind fun right => .pure (Expr.unary operator right)

theorem disjunction_carries {f : Token → Token} (hf : Alike f) {inner : Rules}
    (hi : inner.Carry f) : Carries f (Expr.relabel f) (disjunction inner) (disjunction inner) := by
  have binary : ∀ l o r, Expr.binary (l.relabel f) (f o) (r.relabel f) =
      (Expr.binary l o r).relabel f := fun _ _ _ => rfl
  have logical : ∀ l o r, Expr.logical (l.relabel f) (f o) (r.relabel f) =
      (Expr.logical l o r).relabel f := fun _ _ _ => rfl
  have factor := leftAssociative_carries hf [.slash, .star] (unary_carries hf hi) binary
  have term := leftAssociative_carries hf [.minus, .plus] factor binary
  have comparison := leftAssociative_carries hf [.greater, .greaterEqual, .less, .lessEqual] term
    binary
  have equality := leftAssociative_carries hf [.bangEqual, .equalEqual] comparison binary
  have conjunction := leftAssociative_carries hf [.andKw] equality logical
  exact leftAssociative_carries hf [.orKw] conjunction logical

theorem assignment_carries {f : Token → Token} (hf : Alike f) {inner : Rules} (hi : inner.Carry f) :
    Carries f (Expr.relabel f) (assignment inner) (assignment inner) := by
  refine (disjunction_carries hf hi).bind fun target => (Carries.take? hf _).bind fun found => ?_
  cases found with
  | none => exact .pure target
  | some equal =>
    refine hi.assignment.nested.bind fun value => ?_
    cases target with
    | reference name => exact .pure (Expr.assign name value)
    | get object name => exact .pure (Expr.set object name value)
    | _ => exact (Carries.report ⟨equal, .invalidTarget⟩).bind fun _ => .pure _

theorem forLoop_relabel (f : Token → Token) (initializer : Option Stmt)
    (condition increment : Option Expr) (body : Stmt) :
    (forLoop initializer condition increment body).relabel f =
      forLoop (initializer.map (Stmt.relabel f)) (condition.map (Expr.relabel f))
        (increment.map (Expr.relabel f)) (body.relabel f) := by
  cases initializer <;> cases condition <;> cases increment <;> rfl

def Links.relabel (f : Token → Token) (links : Links) : Links :=
  ⟨links.guards.map (Prod.map (Expr.relabel f) (Stmt.relabel f)), links.last.map (Stmt.relabel f)⟩

theorem Links.toElse_relabel (f : Token → Token) (links : Links) :
    (links.relabel f).toElse = links.toElse.map (Stmt.relabel f) := by
  obtain ⟨⟨guards⟩, last⟩ := links
  simp only [Links.relabel, Links.toElse, List.map_toArray, List.foldr_toArray]
  induction guards with
  | nil => rfl
  | cons guard guards ih =>
    simp only [List.map_cons, List.foldr_cons, ih, Option.map_some, Stmt.relabel_ifElse]
    rfl

theorem statement_carries {f : Token → Token} {inner : Rules} (hi : inner.Carry f) :
    Carries f (Stmt.relabel f) (statement inner) (statement inner) :=
  hi.statement.nested

theorem function_carries {f : Token → Token} {inner : Rules} (hi : inner.Carry f)
    (kind : FunctionKind) :
    Carries f (Stmt.relabelFunction f) (function inner kind) (function inner kind) :=
  (hi.function kind).nested

theorem varDeclaration_carries {f : Token → Token} (hf : Alike f) {inner : Rules}
    (hi : inner.Carry f) :
    Carries f (Stmt.relabel f) (varDeclaration inner) (varDeclaration inner) :=
  (Carries.expect hf _ _).bind fun name =>
    (Carries.behind hf _ (expression_carries hi)).bind fun initializer =>
    (Carries.expect hf _ _).bind fun _ => .pure (Stmt.varDecl name initializer)

theorem expressionStatement_carries {f : Token → Token} (hf : Alike f) {inner : Rules}
    (hi : inner.Carry f) :
    Carries f (Stmt.relabel f) (expressionStatement inner) (expressionStatement inner) :=
  (expression_carries hi).bind fun value => (Carries.expect hf _ _).bind fun _ =>
    .pure (Stmt.expression value)

theorem printStatement_carries {f : Token → Token} (hf : Alike f) {inner : Rules}
    (hi : inner.Carry f) :
    Carries f (Stmt.relabel f) (printStatement inner) (printStatement inner) :=
  (expression_carries hi).bind fun value => (Carries.expect hf _ _).bind fun _ =>
    .pure (Stmt.print value)

theorem returnStatement_carries {f : Token → Token} (hf : Alike f) {inner : Rules}
    (hi : inner.Carry f) (keyword : Token) :
    Carries f (Stmt.relabel f) (returnStatement inner keyword)
      (returnStatement inner (f keyword)) :=
  (Carries.before hf _ (expression_carries hi)).bind fun value =>
    (Carries.expect hf _ _).bind fun _ => .pure (Stmt.ret keyword value)

theorem whileStatement_carries {f : Token → Token} (hf : Alike f) {inner : Rules}
    (hi : inner.Carry f) :
    Carries f (Stmt.relabel f) (whileStatement inner) (whileStatement inner) :=
  (Carries.expect hf _ _).bind fun _ => (expression_carries hi).bind fun condition =>
    (Carries.expect hf _ _).bind fun _ => (statement_carries hi).bind fun body =>
    .pure (Stmt.whileLoop condition body)

theorem forInitializer_carries {f : Token → Token} (hf : Alike f) {inner : Rules}
    (hi : inner.Carry f) :
    Carries f (Option.map (Stmt.relabel f)) (forInitializer inner) (forInitializer inner) :=
  (Carries.accept hf _).bind fun empty => Carries.ite (empty = true) (.pure none) <|
    (Carries.accept hf _).bind fun isVar => Carries.ite (isVar = true)
      ((varDeclaration_carries hf hi).map fun _ => rfl)
      ((expressionStatement_carries hf hi).map fun _ => rfl)

theorem forStatement_carries {f : Token → Token} (hf : Alike f) {inner : Rules}
    (hi : inner.Carry f) :
    Carries f (Stmt.relabel f) (forStatement inner) (forStatement inner) := by
  refine (Carries.expect hf _ _).bind fun _ => (forInitializer_carries hf hi).bind fun init =>
    (Carries.before hf _ (expression_carries hi)).bind fun condition =>
    (Carries.expect hf _ _).bind fun _ =>
    (Carries.before hf _ (expression_carries hi)).bind fun increment =>
    (Carries.expect hf _ _).bind fun _ => (statement_carries hi).bind fun body => ?_
  rw [← forLoop_relabel]
  exact .pure _

theorem guarded_carries {f : Token → Token} (hf : Alike f) {inner : Rules} (hi : inner.Carry f) :
    Carries f (Prod.map (Expr.relabel f) (Stmt.relabel f)) (guarded inner) (guarded inner) :=
  (Carries.expect hf _ _).bind fun _ => (expression_carries hi).bind fun condition =>
    (Carries.expect hf _ _).bind fun _ => (statement_carries hi).bind fun body =>
    .pure (condition, body)

theorem elseLink_carries {f : Token → Token} (hf : Alike f) {inner : Rules} (hi : inner.Carry f)
    (links : Links) :
    Carries f (Option.map (Links.relabel f)) (elseLink inner links)
      (elseLink inner (links.relabel f)) := by
  unfold elseLink
  have last : (links.relabel f).last.isSome = links.last.isSome := Option.isSome_map ..
  rw [last]
  refine Carries.ite _ (.pure none) <| (Carries.accept hf _).bind fun isElse =>
    Carries.ite (isElse = true) ?_ (.pure none)
  refine (Carries.accept hf _).bind fun isIf => Carries.ite (isIf = true) ?_ ?_
  · refine Carries.descend.bind fun _ => (guarded_carries hf hi).bind fun guard => ?_
    have pushed : (links.guards.push guard).map (Prod.map (Expr.relabel f) (Stmt.relabel f)) =
        (links.relabel f).guards.push (Prod.map (Expr.relabel f) (Stmt.relabel f) guard) :=
      Array.map_push
    rw [← pushed]
    exact .pure (some { links with guards := links.guards.push guard })
  · refine (statement_carries hi).bind fun branch => ?_
    exact .pure (some { links with last := some branch })

theorem ifStatement_carries {f : Token → Token} (hf : Alike f) {inner : Rules}
    (hi : inner.Carry f) : Carries f (Stmt.relabel f) (ifStatement inner) (ifStatement inner) := by
  have start : Links.relabel f ⟨#[], none⟩ = ⟨#[], none⟩ := by simp [Links.relabel]
  refine Carries.keepingDepth <| (guarded_carries hf hi).bind fun guard => ?_
  obtain ⟨condition, body⟩ := guard
  have links := Carries.iterate (elseLink_carries hf hi) ⟨#[], none⟩
  rw [start] at links
  refine links.bind fun links => ?_
  rw [Links.toElse_relabel, ← Stmt.relabel_ifElse]
  exact .pure _

/-- Recovery skips the same tokens. -/
theorem recovering_carries {f : Token → Token} (hf : Alike f) {α β : Type} {g : α → β}
    {rule : Rule α} {rule' : Rule β} (h : Carries f g rule rule') (base : Array ParseError)
    (s : State) :
    recovering rule' (s.relabel base f) =
      ((recovering rule s).1.map g, (recovering rule s).2.relabel base f) := by
  have run' := h base s
  cases run : rule s with
  | ok a s' =>
    rw [run] at run'
    rw [recovering_ok run, recovering_ok run']
    rfl
  | error e s' =>
    rw [run] at run'
    rw [recovering_error run, recovering_error run', State.recover_relabel hf]
    rfl

theorem declarations_carries {f : Token → Token} (hf : Alike f) {inner : Rules}
    (h : Carries f (Stmt.relabel f) (declarationRule inner) (declarationRule inner))
    (closes : TokenKind → Bool) (bound : List Token) (base : Array ParseError) (s : State) :
    declarations inner closes (bound.map f) (s.relabel base f) =
      ((declarations inner closes bound s).1.map (Stmt.relabel f),
        (declarations inner closes bound s).2.relabel base f) := by
  induction bound generalizing s with
  | nil => rfl
  | cons b bound ih =>
    have ahead : (s.relabel base f).ahead.head? = s.ahead.head?.map f := List.head?_map
    obtain ends | ⟨t, next, stays⟩ := ends_or_next closes s
    · have ends' : ∀ u ∈ (s.relabel base f).ahead.head?, closes u.kind = true := by
        rw [ahead]
        simpa [hf.kind] using ends
      rw [declarations_of_ends inner _ ends, declarations_of_ends inner _ ends']
      rfl
    · have next' : (s.relabel base f).ahead.head? = some (f t) := by rw [ahead, next]; rfl
      have stays' : closes (f t).kind = false := by rwa [hf.kind]
      have first : declaration inner (s.relabel base f) =
          ((declaration inner s).1.map (Stmt.relabel f), (declaration inner s).2.relabel base f) :=
        recovering_carries hf h base s
      rw [List.map_cons, declarations_cons inner b bound next stays,
        declarations_cons inner (f b) (bound.map f) next' stays', first, ih]
      simp [Option.toList_map]

theorem block_carries {f : Token → Token} (hf : Alike f) {inner : Rules}
    (h : Carries f (Stmt.relabel f) (declarationRule inner) (declarationRule inner)) :
    Carries f (List.map (Stmt.relabel f)) (block inner) (block inner) := by
  have body : Carries f (List.map (Stmt.relabel f)) (blockBody inner) (blockBody inner) := by
    intro base s
    have read := declarations_carries hf h (· == .rightBrace) s.ahead base s
    change EStateM.Result.ok (declarations inner _ (s.ahead.map f) (s.relabel base f)).1
      (declarations inner _ (s.ahead.map f) (s.relabel base f)).2 = _
    rw [read]
    rfl
  exact body.bind fun body => (Carries.expect hf _ _).bind fun _ => .pure body

theorem addMethod_carries {f : Token → Token} (hf : Alike f) {inner : Rules} (hi : inner.Carry f)
    (methods : Array Function) :
    Carries f (Option.map (Array.map (Stmt.relabelFunction f))) (addMethod inner methods)
      (addMethod inner (methods.map (Stmt.relabelFunction f))) := by
  refine Carries.peek?.bind fun found => ?_
  cases found with
  | none => exact .pure none
  | some t =>
    change Carries _ _ (if t.kind = _ then _ else _) (if (f t).kind = _ then _ else _)
    rw [hf.kind]
    refine Carries.ite _ (.pure none) ((function_carries hi .method).bind fun method => ?_)
    rw [← Array.map_push]
    exact .pure (some (methods.push method))

theorem classDeclaration_carries {f : Token → Token} (hf : Alike f) {inner : Rules}
    (hi : inner.Carry f) :
    Carries f (Stmt.relabel f) (classDeclaration inner) (classDeclaration inner) := by
  have methods := Carries.iterate (addMethod_carries hf hi) #[]
  rw [Array.map_empty] at methods
  refine (Carries.expect hf _ _).bind fun name =>
    (Carries.behind hf _ (Carries.expect hf _ _)).bind fun superclass =>
    (Carries.expect hf _ _).bind fun _ => methods.bind fun methods =>
    (Carries.expect hf _ _).bind fun _ => ?_
  rw [Array.toList_map, ← Stmt.relabelMethods_eq_map]
  exact .pure (Stmt.classDecl name superclass methods.toList)

theorem declarationRule_carries {f : Token → Token} (hf : Alike f) {inner : Rules}
    (hi : inner.Carry f) :
    Carries f (Stmt.relabel f) (declarationRule inner) (declarationRule inner) :=
  (Carries.accept hf _).bind fun isClass => Carries.ite (isClass = true)
    (classDeclaration_carries hf hi) <|
    (Carries.accept hf _).bind fun isFun => Carries.ite (isFun = true)
      ((function_carries hi .function).map fun _ => rfl) <|
      (Carries.accept hf _).bind fun isVar => Carries.ite (isVar = true)
        (varDeclaration_carries hf hi) (statement_carries hi)

theorem functionBody_carries {f : Token → Token} (hf : Alike f) {inner : Rules} (hi : inner.Carry f)
    (kind : FunctionKind) :
    Carries f (Stmt.relabelFunction f) (functionBody inner kind) (functionBody inner kind) := by
  refine (Carries.expect hf _ _).bind fun name => (Carries.expect hf _ _).bind fun _ =>
    (Carries.before hf _ (Carries.commaSeparated hf _ (Carries.expect hf _ _))).bind fun params =>
    (Carries.expect hf _ _).bind fun _ => (Carries.expect hf _ _).bind fun _ =>
    (block_carries hf (declarationRule_carries hf hi)).bind fun body => ?_
  have same : (params.map (List.map f)).getD [] = (params.getD []).map f := by cases params <;> rfl
  rw [same, ← Stmt.relabelAll_eq_map]
  exact .pure (⟨name, params.getD [], body⟩ : Function)

theorem statementBody_carries {f : Token → Token} (hf : Alike f) {inner : Rules}
    (hi : inner.Carry f) :
    Carries f (Stmt.relabel f) (statementBody inner) (statementBody inner) := by
  refine Carries.peek?.bind fun found => ?_
  cases found with
  | none => exact expressionStatement_carries hf hi
  | some t =>
    change Carries _ _ (match t.kind with | _ => _) (match (f t).kind with | _ => _)
    rw [hf.kind]
    cases t.kind with
    | forKw => exact Carries.skip.bind fun _ => forStatement_carries hf hi
    | ifKw => exact Carries.skip.bind fun _ => ifStatement_carries hf hi
    | printKw => exact Carries.skip.bind fun _ => printStatement_carries hf hi
    | returnKw => exact Carries.skip.bind fun _ => returnStatement_carries hf hi t
    | whileKw => exact Carries.skip.bind fun _ => whileStatement_carries hf hi
    | leftBrace =>
      exact Carries.skip.bind fun _ =>
        (block_carries hf (declarationRule_carries hf hi)).map fun body =>
          congrArg Stmt.block (Stmt.relabelAll_eq_map f body).symm
    | _ => exact expressionStatement_carries hf hi

/-- Every level does the same with other tokens. -/
theorem rules_carry {f : Token → Token} (hf : Alike f) (level : Nat) : (rules level).Carry f := by
  induction level with
  | zero => exact ⟨.fail _, .fail _, .fail _, fun _ => .fail _⟩
  | succ level ih =>
    exact ⟨assignment_carries hf ih, unary_carries hf ih, statementBody_carries hf ih,
      functionBody_carries hf ih⟩

end Parse

end LoxSyntax
