import LoxSyntax.Proofs.Grammar.Brackets
import LoxSyntax.Proofs.Parse.ExpressionCompleteness

namespace LoxSyntax.Grammar

/-- The marks of a `for` loop; `empty` stands for an initializer that is left out. -/
structure ForMarks where
  keyword : Terminal .forKw
  opening : Terminal .leftParen
  empty : Terminal .semicolon
  second : Terminal .semicolon
  closing : Terminal .rightParen

/-- The marks of an expansion; `truth` stands for a condition that is left out. -/
structure WhileMarks where
  keyword : Terminal .whileKw
  opening : Terminal .leftParen
  truth : Terminal .trueKw
  closing : Terminal .rightParen
  semicolon : Terminal .semicolon
  innerOpening : Terminal .leftBrace
  innerClosing : Terminal .rightBrace
  outerOpening : Terminal .leftBrace
  outerClosing : Terminal .rightBrace

/-- These tokens, or another one in place of none. -/
def orToken (ts : List Token) (t : Token) : List Token := if ts = [] then [t] else ts

/-- `for ( I C ; N ) B`, with a semicolon for an empty `I`. -/
def ForMarks.loop (m : ForMarks) (I C N B : List Token) : List Token :=
  m.keyword.1 :: m.opening.1 :: (orToken I m.empty.1 ++ (C ++ m.second.1 ::
    (N ++ m.closing.1 :: B)))

namespace WhileMarks

/-- `{ B N ; }`, or the body alone. -/
def round (w : WhileMarks) (N B : List Token) : List Token :=
  if N = [] then B
  else w.innerOpening.1 :: (B ++ (N ++ [w.semicolon.1, w.innerClosing.1]))

/-- `while ( C ) { B N ; }`, with `true` for an empty `C`. -/
def loop (w : WhileMarks) (C N B : List Token) : List Token :=
  w.keyword.1 :: w.opening.1 :: (orToken C w.truth.1 ++ w.closing.1 :: w.round N B)

/-- `{ I while ( C ) { B N ; } }`, or the loop alone. -/
def expansion (w : WhileMarks) (I C N B : List Token) : List Token :=
  if I = [] then w.loop C N B
  else w.outerOpening.1 :: (I ++ (w.loop C N B ++ [w.outerClosing.1]))

end WhileMarks

namespace Derivation

/-- An initializer as the declaration that it is, unless it is left out. -/
def asDeclaration : Derivation .forInit → Option (Derivation .declaration)
  | noInit _ => none
  | varInit keyword decl => some (.varDecl keyword decl)
  | exprInit inner => some (.ofStatement (.statement (.ofExprStmt inner)))

theorem tree_asDeclaration (init : Derivation .forInit) :
    init.tree = init.asDeclaration.map tree := by
  cases init <;> rfl

theorem tokens_asDeclaration {init : Derivation .forInit} {d : Derivation .declaration}
    (h : init.asDeclaration = some d) : d.tokens = init.tokens := by
  cases init <;> cases h <;> rfl

theorem nesting_asDeclaration {init : Derivation .forInit} {d : Derivation .declaration}
    (h : init.asDeclaration = some d) : init.nesting ≤ d.nesting := by
  cases init with
  | noInit => cases h
  | varInit => cases h; exact Nat.le_refl _
  | exprInit => cases h; exact Nat.le_succ _

theorem proper_asDeclaration {init : Derivation .forInit} {d : Derivation .declaration}
    (h : init.asDeclaration = some d) : d.Proper ↔ init.Proper := by
  cases init <;> cases h <;> exact Iff.rfl

theorem nesting_noDeclaration {init : Derivation .forInit} (h : init.asDeclaration = none) :
    init.nesting = 0 := by
  cases init <;> first | rfl | cases h

/-- The tokens of an initializer, none if it is left out. -/
def clause (init : Derivation .forInit) : List Token := init.asDeclaration.elim [] tokens

theorem tokens_ne_nil {n : Symbol} (d : Derivation n) (solid : n.nullable = false) :
    d.tokens ≠ [] := by
  obtain ⟨t, us, some, -⟩ := d.begins.exists_cons solid
  simp [some]

end Derivation

/-- A `for` loop, taken apart. -/
structure Clauses where
  init : Derivation .forInit
  condition : Derivation .optional
  increment : Derivation .optional
  body : Derivation .statement

namespace Clauses

def Proper (c : Clauses) : Prop :=
  c.init.Proper ∧ c.condition.Proper ∧ c.increment.Proper ∧ c.body.Proper

/-- The loop as it is written. -/
def source (c : Clauses) (m : ForMarks) : Derivation .declaration :=
  .ofStatement (.statement (.forLoop m.keyword m.opening c.init c.condition m.second c.increment
    m.closing c.body))

/-- What is tested. -/
def test (c : Clauses) (w : WhileMarks) : Derivation (.expr .expression) :=
  match c.condition with
  | .absent => .expression (.ofDisjunction (Parse.loosened (.ofPrimary (.truth w.truth))))
  | .present e => e

/-- What is done in one round. -/
def round (c : Clauses) (w : WhileMarks) : Derivation .statement :=
  match c.increment with
  | .absent => c.body
  | .present e => .statement (.ofBlock (.block w.innerOpening
      (.moreDeclarations (.ofStatement c.body) (.moreDeclarations
        (.ofStatement (.statement (.ofExprStmt (.exprStmt e w.semicolon)))) .noDeclarations))
      w.innerClosing))

/-- The loop without its initializer. -/
def rounds (c : Clauses) (w : WhileMarks) : Derivation .declaration :=
  .ofStatement (.statement (.whileLoop w.keyword w.opening (c.test w) w.closing (c.round w)))

/-- What the loop stands for. -/
def expansion (c : Clauses) (w : WhileMarks) : Derivation .declaration :=
  match c.init.asDeclaration with
  | none => c.rounds w
  | some first => .ofStatement (.statement (.ofBlock (.block w.outerOpening
      (.moreDeclarations first (.moreDeclarations (c.rounds w) .noDeclarations)) w.outerClosing)))

theorem source_tokens (c : Clauses) (m : ForMarks)
    (empty : c.init.clause = [] → c.init.tokens = [m.empty.1]) :
    (c.source m).tokens =
      m.loop c.init.clause c.condition.tokens c.increment.tokens c.body.tokens := by
  have first : orToken c.init.clause m.empty.1 = c.init.tokens := by
    unfold orToken
    split
    case isTrue none => exact (empty none).symm
    case isFalse some =>
      unfold Derivation.clause at some ⊢
      cases init : c.init.asDeclaration with
      | none => simp [init] at some
      | some d => exact Derivation.tokens_asDeclaration init
  simp [source, ForMarks.loop, first, Derivation.tokens]

theorem test_tokens (c : Clauses) (w : WhileMarks) :
    (c.test w).tokens = orToken c.condition.tokens w.truth.1 := by
  unfold test
  cases c.condition with
  | absent => rfl
  | present e => exact (if_neg (e.tokens_ne_nil rfl)).symm

theorem round_tokens (c : Clauses) (w : WhileMarks) :
    (c.round w).tokens = w.round c.increment.tokens c.body.tokens := by
  unfold round
  cases c.increment with
  | absent => rfl
  | present e =>
    change _ = w.round e.tokens c.body.tokens
    simp [WhileMarks.round, e.tokens_ne_nil rfl, Derivation.tokens]

theorem rounds_tokens (c : Clauses) (w : WhileMarks) :
    (c.rounds w).tokens = w.loop c.condition.tokens c.increment.tokens c.body.tokens := by
  simp [rounds, WhileMarks.loop, Derivation.tokens, test_tokens, round_tokens]

theorem expansion_tokens (c : Clauses) (w : WhileMarks) : (c.expansion w).tokens =
    w.expansion c.init.clause c.condition.tokens c.increment.tokens c.body.tokens := by
  unfold expansion Derivation.clause WhileMarks.expansion
  cases c.init.asDeclaration with
  | none => exact c.rounds_tokens w
  | some d => simp [d.tokens_ne_nil rfl, Derivation.tokens, rounds_tokens]

theorem test_tree (c : Clauses) (w : WhileMarks) :
    (c.test w).tree = c.condition.tree.getD (.constant (.bool true)) := by
  unfold test
  cases c.condition <;> rfl

theorem round_tree (c : Clauses) (w : WhileMarks) :
    (c.round w).tree = enclosed (c.body.tree :: c.increment.tree.toList.map .expression) := by
  unfold round
  cases c.increment <;> rfl

/-- The loop denotes what its expansion denotes. -/
theorem expansion_tree (c : Clauses) (m : ForMarks) (w : WhileMarks) :
    (c.expansion w).tree = (c.source m).tree := by
  have rounds : (c.rounds w).tree = .whileLoop (c.condition.tree.getD (.constant (.bool true)))
      (enclosed (c.body.tree :: c.increment.tree.toList.map .expression)) := by
    rw [← c.test_tree w, ← c.round_tree w]
    rfl
  change _ = loop c.init.tree c.condition.tree c.increment.tree c.body.tree
  unfold expansion loop
  rw [c.init.tree_asDeclaration, ← rounds]
  cases c.init.asDeclaration <;> rfl

theorem condition_nesting_le (c : Clauses) (w : WhileMarks) :
    c.condition.nesting ≤ (c.test w).nesting := by
  unfold test
  cases c.condition with
  | absent => exact Nat.zero_le _
  | present e => exact Nat.le_refl _

theorem round_nesting (c : Clauses) (w : WhileMarks) :
    max c.increment.nesting c.body.nesting ≤ (c.round w).nesting := by
  unfold round
  cases c.increment with
  | absent => simp [Derivation.nesting]
  | present e => simp only [Derivation.nesting]; omega

/-- No clause of the loop stands any deeper than in the expansion. -/
theorem source_nesting_le (c : Clauses) (m : ForMarks) (w : WhileMarks) :
    (c.source m).nesting ≤ (c.expansion w).nesting := by
  have test := c.condition_nesting_le w
  have round := c.round_nesting w
  have rounds : (c.rounds w).nesting = max (c.test w).nesting (c.round w).nesting + 1 := rfl
  have source : (c.source m).nesting = max c.init.nesting (max c.condition.nesting
      (max c.increment.nesting c.body.nesting)) + 1 := rfl
  unfold expansion
  cases init : c.init.asDeclaration with
  | none =>
    have first := Derivation.nesting_noDeclaration init
    dsimp only
    omega
  | some d =>
    have first := Derivation.nesting_asDeclaration init
    simp only [Derivation.nesting]
    omega

/-- Nothing in the expansion follows an `if` that could take it. -/
theorem expansion_proper (c : Clauses) (w : WhileMarks) (proper : c.Proper) :
    (c.expansion w).Proper := by
  obtain ⟨first, condition, increment, body⟩ := proper
  have test : (c.test w).Proper := by
    unfold test
    cases shape : c.condition with
    | absent => trivial
    | present e =>
      rw [shape] at condition
      exact condition
  have round : (c.round w).Proper := by
    unfold round
    cases shape : c.increment with
    | absent => exact body
    | present e =>
      rw [shape] at increment
      exact ⟨body, increment, trivial⟩
  have rounds : (c.rounds w).Proper := ⟨test, round⟩
  unfold expansion
  cases init : c.init.asDeclaration with
  | none => exact rounds
  | some d => exact ⟨(Derivation.proper_asDeclaration init).mpr first, rounds, trivial⟩

end Clauses

end LoxSyntax.Grammar
