import LoxSyntax.Proofs.Grammar.Derivation

namespace LoxSyntax.Grammar

def startsPrimary : TokenKind → Bool
  | .falseKw | .trueKw | .nilKw | .number | .string | .superKw | .thisKw | .identifier
  | .leftParen => true
  | _ => false

def startsExpr (kind : TokenKind) : Bool :=
  match kind with
  | .bang | .minus => true
  | _ => startsPrimary kind

def startsStatement (kind : TokenKind) : Bool :=
  match kind with
  | .printKw | .returnKw | .whileKw | .forKw | .ifKw | .leftBrace => true
  | _ => startsExpr kind

namespace Symbol

/-- The kinds of token that a phrase can start with. -/
def starts (n : Symbol) (kind : TokenKind) : Bool :=
  match n with
  | .expr .call | .expr .primary => startsPrimary kind
  | .expr _ | .arguments | .argumentList | .optional | .exprStmt => startsExpr kind
  | .parameters | .parameterList | .function | .definition | .methods | .binding =>
    kind == .identifier
  | .initializer => kind == .equal
  | .block => kind == .leftBrace
  | .statement | .form => startsStatement kind
  | .declarations | .declaration =>
    kind == .classKw || kind == .funKw || kind == .varKw || startsStatement kind
  | .forInit => kind == .semicolon || kind == .varKw || startsExpr kind
  | .elseTail => kind == .elseKw

/-- Whether a phrase can be of no tokens at all. -/
def nullable : Symbol → Bool
  | .arguments | .parameters | .optional | .initializer | .methods | .declarations
  | .elseTail => true
  | _ => false

end Symbol

/-- Tokens that a phrase can be, as far as the first one tells. -/
def Begins (n : Symbol) (ts : List Token) : Prop :=
  (n.nullable = true ∧ ts = []) ∨ ∃ t us, ts = t :: us ∧ n.starts t.kind = true

namespace Begins

theorem cons {n : Symbol} {kind : TokenKind} (t : Terminal kind) (ts : List Token)
    (h : n.starts kind = true) : Begins n (t.1 :: ts) :=
  .inr ⟨t.1, ts, rfl, by rw [t.2]; exact h⟩

theorem widen {n m : Symbol} {ts : List Token} (h : Begins m ts)
    (hnull : m.nullable = true → n.nullable = true)
    (hstarts : ∀ kind, m.starts kind = true → n.starts kind = true) : Begins n ts := by
  rcases h with ⟨null, rfl⟩ | ⟨t, us, rfl, starts⟩
  · exact .inl ⟨hnull null, rfl⟩
  · exact .inr ⟨t, us, rfl, hstarts _ starts⟩

theorem append {n m : Symbol} {ts : List Token} (us : List Token) (h : Begins m ts)
    (solid : m.nullable = false) (hstarts : ∀ kind, m.starts kind = true → n.starts kind = true) :
    Begins n (ts ++ us) := by
  rcases h with ⟨null, -⟩ | ⟨t, ts, rfl, starts⟩
  · simp [solid] at null
  · exact .inr ⟨t, ts ++ us, rfl, hstarts _ starts⟩

/-- A phrase that cannot be empty has a first token. -/
theorem exists_cons {n : Symbol} {ts : List Token} (h : Begins n ts) (solid : n.nullable = false) :
    ∃ t us, ts = t :: us ∧ n.starts t.kind = true := by
  rcases h with ⟨null, -⟩ | first
  · simp [solid] at null
  · exact first

end Begins

theorem startsExpr_of_startsPrimary {kind : TokenKind} (h : startsPrimary kind = true) :
    startsExpr kind = true := by
  unfold startsExpr
  split <;> simp_all

theorem startsStatement_of_startsExpr {kind : TokenKind} (h : startsExpr kind = true) :
    startsStatement kind = true := by
  unfold startsStatement
  split <;> simp_all

/-- The first token of a phrase is one that the symbol can start with. -/
theorem Derivation.begins {n : Symbol} (d : Derivation n) : Begins n d.tokens := by
  induction d with
  | falsehood t | truth t | nothing t | number t | string t | this t | reference t
  | superMethod t | group t | assign t | oneParameter t | initializer t | binding t | definition t
  | block t | classDecl t | funDecl t | varDecl t | print t | ret t | whileLoop t | forLoop t
  | ifElse t | noInit t | varInit t | elseBranch t => exact .cons t _ rfl
  | operate operator operand _ =>
    have starts : ∀ kind ∈ [TokenKind.bang, .minus], startsExpr kind = true := by decide
    exact .inr ⟨operator.1, _, rfl, starts _ operator.2⟩
  | ofPrimary _ ih | ofDisjunction _ ih | expression _ ih | oneArgument _ ih | function _ ih
  | statement _ ih => exact ih
  | ofCall _ ih => exact ih.widen nofun fun _ => startsExpr_of_startsPrimary
  | @ofTighter level _ ih => cases level <;> exact ih
  | noArguments | noParameters | absent | noInitializer | noMethods | noDeclarations
  | noElse => exact .inl ⟨rfl, rfl⟩
  | someArguments _ ih | someParameters _ ih | present _ ih => exact ih.widen nofun fun _ => id
  | assignProperty _ _ _ _ _ ih _ => exact ih.append _ rfl fun _ => startsExpr_of_startsPrimary
  | apply _ _ _ _ ih _ | property _ _ _ ih | fold _ _ _ ih _ | anotherArgument _ _ _ ih _
  | anotherParameter _ _ _ ih | exprStmt _ _ ih =>
    exact ih.append _ rfl fun _ => id
  | anotherMethod methods method ihs ih =>
    rcases ihs with ⟨-, none⟩ | ⟨t, us, some, starts⟩
    · change Begins .methods (methods.tokens ++ method.tokens)
      rw [none]
      exact ih.widen nofun fun _ => id
    · exact .inr ⟨t, us ++ method.tokens, by rw [← List.cons_append, ← some]; rfl, starts⟩
  | moreDeclarations first more ih _ => exact ih.append _ rfl fun _ => id
  | ofStatement _ ih =>
    exact ih.widen nofun fun kind h => by simp only [Symbol.starts, Bool.or_eq_true]; exact .inr h
  | ofExprStmt _ ih => exact ih.widen nofun fun kind => startsStatement_of_startsExpr
  | ofBlock _ ih =>
    exact ih.widen nofun fun kind h => by
      obtain rfl : kind = .leftBrace := by simpa [Symbol.starts] using h
      rfl
  | exprInit _ ih =>
    exact ih.widen nofun fun kind h => by simp only [Symbol.starts, Bool.or_eq_true]; exact .inr h

/-- Where no `else` stands behind declarations, none stands in front of them. -/
theorem declarations_head_ne_else (D : Derivation .declarations) {rest : List Token}
    (other : ∀ t ∈ rest.head?, t.kind ≠ .elseKw) :
    ∀ u ∈ (D.tokens ++ rest).head?, u.kind ≠ .elseKw := by
  rcases D.begins with ⟨-, none⟩ | ⟨u, us, some, starts⟩
  · rw [none]
    exact other
  · rw [some]
    intro _ h is
    cases h
    rw [is] at starts
    cases starts

/-- Tokens of which none closes the program. -/
def Inside (ts : List Token) : Prop := ∀ t ∈ ts, t.kind ≠ .eof

namespace Inside

theorem nil : Inside [] := nofun

theorem cons {kind : TokenKind} (t : Terminal kind) {ts : List Token} (h : Inside ts)
    (other : kind ≠ .eof := by decide) : Inside (t.1 :: ts) :=
  List.forall_mem_cons.mpr ⟨by rw [t.2]; exact other, h⟩

theorem alone {kind : TokenKind} (t : Terminal kind) (other : kind ≠ .eof := by decide) :
    Inside [t.1] :=
  cons t nil other

theorem operator {kinds : List TokenKind} (t : Operator kinds) {ts : List Token} (h : Inside ts)
    (other : .eof ∉ kinds) : Inside (t.1 :: ts) :=
  List.forall_mem_cons.mpr ⟨fun is => other (is ▸ t.2), h⟩

theorem append {ts us : List Token} (h : Inside ts) (h' : Inside us) : Inside (ts ++ us) :=
  List.forall_mem_append.mpr ⟨h, h'⟩

end Inside

/-- No phrase reaches beyond the end of the program. -/
theorem Derivation.inside {n : Symbol} (d : Derivation n) : Inside d.tokens := by
  induction d with
  | falsehood t | truth t | nothing t | number t | string t | this t | reference t
  | oneParameter t | noInit t => exact .alone t
  | noArguments | noParameters | absent | noInitializer | noMethods | noDeclarations
  | noElse => exact .nil
  | ofPrimary _ ih | ofCall _ ih | ofTighter _ ih | ofDisjunction _ ih | expression _ ih
  | someArguments _ ih | oneArgument _ ih | someParameters _ ih | present _ ih | function _ ih
  | ofStatement _ ih | statement _ ih | ofExprStmt _ ih | ofBlock _ ih | exprInit _ ih => exact ih
  | superMethod keyword dot method => exact .cons keyword (.cons dot (.alone method))
  | group opening _ closing ih | block opening _ closing ih | binding opening _ closing ih
  | print opening _ closing ih | ret opening _ closing ih =>
    exact .cons opening (ih.append (.alone closing))
  | apply _ opening _ closing ih ih' =>
    exact ih.append (.cons opening (ih'.append (.alone closing)))
  | property _ first second ih | anotherParameter _ first second ih =>
    exact ih.append (.cons first (.alone second))
  | operate operator _ ih => exact .operator operator ih (by decide)
  | @fold level _ operator _ ih ih' =>
    exact ih.append (.operator operator ih' (by cases level <;> decide))
  | assign name equal _ ih => exact .cons name (.cons equal ih)
  | assignProperty _ dot name equal _ ih ih' =>
    exact ih.append (.cons dot (.cons name (.cons equal ih')))
  | anotherArgument _ comma _ ih ih' => exact ih.append (.cons comma ih')
  | initializer first _ ih | funDecl first _ ih | varDecl first _ ih | varInit first _ ih
  | elseBranch first _ ih => exact .cons first ih
  | definition name opening _ closing _ ih ih' =>
    exact .cons name (.cons opening (ih.append (.cons closing ih')))
  | anotherMethod _ _ ih ih' | moreDeclarations _ _ ih ih' => exact ih.append ih'
  | classDecl keyword name superclass opening _ closing ih =>
    have parent : Inside (superclass.elim [] fun s => [s.1.1, s.2.1]) := by
      cases superclass with
      | none => exact .nil
      | some s => exact .cons s.1 (.alone s.2)
    exact .cons keyword (.cons name (parent.append (.cons opening (ih.append (.alone closing)))))
  | whileLoop keyword opening _ closing _ ih ih' =>
    exact .cons keyword (.cons opening (ih.append (.cons closing ih')))
  | forLoop keyword opening _ _ semicolon _ closing _ ihinit ihcond ihstep ihbody =>
    exact .cons keyword (.cons opening (ihinit.append (ihcond.append
      (.cons semicolon (ihstep.append (.cons closing ihbody))))))
  | ifElse keyword opening _ closing _ _ ih ih' ih'' =>
    exact .cons keyword (.cons opening (ih.append (.cons closing (ih'.append ih''))))
  | exprStmt _ semicolon ih => exact ih.append (.alone semicolon)

/-- How tightly a token binds to an expression in front of it; zero for one that ends it. -/
def strength : TokenKind → Nat
  | .equal => 1
  | .orKw => 2
  | .andKw => 3
  | .bangEqual | .equalEqual => 4
  | .greater | .greaterEqual | .less | .lessEqual => 5
  | .minus | .plus => 6
  | .slash | .star => 7
  | .leftParen | .dot => 8
  | _ => 0

theorem strength_le (kind : TokenKind) : strength kind ≤ 8 := by
  cases kind <;> decide

/-- How tightly what follows binds to an expression in front of it. -/
def pull (ts : List Token) : Nat := ts.head?.elim 0 fun t => strength t.kind

theorem pull_le (ts : List Token) : pull ts ≤ 8 := by
  cases ts with
  | nil => exact Nat.zero_le 8
  | cons t ts => exact strength_le t.kind

namespace Grade

/-- The strength from which on a token belongs to a longer phrase of the same grade. -/
def rank : Grade → Nat
  | expression | assignment => 1
  | binary .disjunction => 2
  | binary .conjunction => 3
  | binary .equality => 4
  | binary .comparison => 5
  | binary .term => 6
  | binary .factor => 7
  | unary | call => 8
  | primary => 9

theorem rank_tighter (level : Precedence) : level.tighter.rank = (binary level).rank + 1 := by
  cases level <;> rfl

theorem strength_of_mem {level : Precedence} {kind : TokenKind} (h : kind ∈ level.operators) :
    strength kind = (binary level).rank := by
  have all : ∀ kind ∈ level.operators, strength kind = (binary level).rank := by
    cases level <;> decide
  exact all kind h

end Grade

theorem pull_cons {kind : TokenKind} (t : Terminal kind) (ts : List Token) :
    pull (t.1 :: ts) = strength kind :=
  congrArg strength t.2

theorem pull_operator {level : Precedence} (operator : Operator level.operators) (ts : List Token) :
    pull (operator.1 :: ts) = (Grade.binary level).rank :=
  Grade.strength_of_mem operator.2

/-- A token that pulls too little is none of the kinds that pull that much. -/
theorem not_mem_of_pull_lt {kinds : List TokenKind} {ts : List Token} {n : Nat} (h : pull ts < n)
    (hkinds : ∀ kind ∈ kinds, n ≤ strength kind) : ∀ t ∈ ts.head?, t.kind ∉ kinds := by
  intro t next is
  have strong := hkinds t.kind is
  rw [pull, Option.mem_def.mp next, Option.elim_some] at h
  omega

end LoxSyntax.Grammar
