import LoxSyntax.Proofs.Grammar.Derivation

namespace LoxSyntax.Grammar

/-- What a token of this kind adds to the parentheses and braces that stand open. -/
def bracket : TokenKind → Int
  | .leftParen | .leftBrace => 1
  | .rightParen | .rightBrace => -1
  | _ => 0

/-- What a token of this kind adds to the braces that stand open. -/
def brace : TokenKind → Int
  | .leftBrace => 1
  | .rightBrace => -1
  | _ => 0

/-- What these kinds of tokens add up to. -/
def total (weight : TokenKind → Int) : List TokenKind → Int
  | [] => 0
  | k :: ks => weight k + total weight ks

@[simp] theorem total_nil : total weight [] = 0 := rfl

@[simp] theorem total_cons (k : TokenKind) (ks : List TokenKind) :
    total weight (k :: ks) = weight k + total weight ks := rfl

@[simp] theorem total_append (ks ls : List TokenKind) :
    total weight (ks ++ ls) = total weight ks + total weight ls := by
  induction ks with
  | nil => simp
  | cons k ks ih => simp [ih, Int.add_assoc]

theorem total_eq_zero {weight : TokenKind → Int} {ks : List TokenKind}
    (plain : ∀ k ∈ ks, weight k = 0) : total weight ks = 0 := by
  induction ks with
  | nil => rfl
  | cons k ks ih =>
    obtain ⟨first, others⟩ := List.forall_mem_cons.mp plain
    simp [first, ih others]

/-- What these tokens add up to: how many more brackets, or braces, they open than close. -/
def tally (weight : TokenKind → Int) (ts : List Token) : Int := total weight (ts.map Token.kind)

@[simp] theorem tally_nil : tally weight [] = 0 := rfl

@[simp] theorem tally_cons (t : Token) (ts : List Token) :
    tally weight (t :: ts) = weight t.kind + tally weight ts := rfl

@[simp] theorem tally_append (ts us : List Token) :
    tally weight (ts ++ us) = tally weight ts + tally weight us := by
  simp [tally]

theorem tally_plain {weight : TokenKind → Int} {ts : List Token}
    (plain : ∀ t ∈ ts, weight t.kind = 0) : tally weight ts = 0 :=
  total_eq_zero fun k among => by
    obtain ⟨t, inside, rfl⟩ := List.mem_map.mp among
    exact plain t inside

theorem kind_terminal {kind : TokenKind} (t : Terminal kind) : t.1.kind = kind := t.2

/-- No operator is a bracket. -/
theorem bracket_operator {kinds : List TokenKind} (t : Operator kinds)
    (plain : ∀ kind ∈ kinds, bracket kind = 0) : bracket t.1.kind = 0 :=
  plain t.1.kind t.2

theorem Derivation.tally_bracket {n : Symbol} (d : Derivation n) :
    tally bracket d.tokens = 0 := by
  induction d with
  | operate operator _ ih =>
    have plain := bracket_operator operator (by decide)
    simp [tokens, plain, ih]
  | @fold level _ operator _ ih ih' =>
    have plain := bracket_operator operator (by cases level <;> decide)
    simp [tokens, plain, ih, ih']
  | classDecl _ _ superclass _ _ _ ih =>
    cases superclass <;> simp [tokens, bracket, kind_terminal, ih]
  | _ => simp_all [tokens, bracket, kind_terminal]

end LoxSyntax.Grammar
