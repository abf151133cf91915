import LoxSyntax.Print
import LoxSyntax.Proofs.Grammar.Derivation
import LoxSyntax.Proofs.Token.Rescan

namespace LoxSyntax

/-- The token on another line. -/
def Token.onLine (t : Token) (line : Nat) : Token := { t with line := line }

/-- A name that a source may hold. -/
def Token.Named (t : Token) : Prop := t.kind = .identifier ∧ t.Spelled

/-- A token of a kind that has only one spelling is known but for its line. -/
theorem Token.Spelled.onLine_eq {t : Token} {kind : TokenKind} {w : String} (h : t.Spelled)
    (is : t.kind = kind) (only : kind.spelling? = some w) (line : Nat) :
    t.onLine line = ⟨kind, w, none, line⟩ := by
  subst is
  obtain ⟨kind, lexeme, literal, _⟩ := t
  have spelled : kind.spelling? = some lexeme ∧ literal = none := by
    cases kind <;> first | exact h | cases only
  obtain ⟨spelling, rfl⟩ := spelled
  obtain rfl := Option.some.inj (spelling.symm.trans only)
  rfl

namespace Spells

/-- A name is read as the token it was. -/
theorem name {t : Token} (h : t.Named) (line : Nat) :
    Spells Stops t.lexeme.toList line [t.onLine line] line := by
  obtain ⟨kind, lexeme, literal, _⟩ := t
  obtain ⟨rfl, isName, other, rfl⟩ := h
  have read := @word line _ isName
  rw [other] at read
  exact read

/-- An operator is read as the token it was, too. -/
theorem operatorToken {t : Token} {kinds : List TokenKind} (h : t.kind ∈ kinds)
    (fixed : ∀ kind ∈ kinds, kind.spelling?.isSome = true) (spelled : t.Spelled) (line : Nat) :
    Spells Stops t.lexeme.toList line [t.onLine line] line := by
  obtain ⟨w, only⟩ := Option.isSome_iff_exists.mp (fixed _ h)
  change Spells Stops (t.onLine line).lexeme.toList line [t.onLine line] line
  rw [spelled.onLine_eq rfl only line]
  exact Spells.spelling only

/-- The operator of one operand, in front of anything that does not make it another. -/
theorem unaryOperator {t : Token} (h : t.kind ∈ [.bang, .minus]) (spelled : t.Spelled)
    (line : Nat) :
    Spells (fun rest => rest.head? ≠ some '=') t.lexeme.toList line [t.onLine line] line := by
  change Spells _ (t.onLine line).lexeme.toList line [t.onLine line] line
  rcases List.mem_cons.mp h with bang | h
  · rw [spelled.onLine_eq bang rfl line]
    change Spells _ "!".toList line _ line
    exact operator (c := '!') (by decide) (fun _ => rfl) fun _ other => other
  · rw [spelled.onLine_eq (List.mem_singleton.mp h) rfl line]
    change Spells _ "-".toList line _ line
    exact mark (c := '-') .minus (fun _ => rfl) (by decide) nil

end Spells

theorem Token.Named.startsName {t : Token} (h : t.Named) (rest : List Char) :
    ∃ c cs, t.lexeme.toList ++ rest = c :: cs ∧ Letter.startsName c = true := by
  obtain ⟨kind, lexeme, literal, _⟩ := t
  obtain ⟨rfl, ⟨c, cs, whole, starts, _⟩, -, -⟩ := h
  exact ⟨c, cs ++ rest, by rw [whole, List.cons_append], starts⟩

/-- A point in front of a name ends a number. -/
theorem Stops.point {t : Token} (h : t.Named) (rest : List Char) :
    Stops ('.' :: (t.lexeme.toList ++ rest)) := by
  obtain ⟨c, cs, whole, starts⟩ := h.startsName rest
  refine .inr ⟨rfl, ?_⟩
  rw [whole]
  intro _ h'
  cases h'
  exact Cut.not_isDigit_of_startsName starts

theorem Stops.of_mark {c : Char} {cs : List Char} (h : c ∈ separators) :
    Stops (c :: cs) :=
  .inl h

namespace Spells

/-- What follows a keyword or an operator, behind a blank. -/
theorem led {may : List Char → Prop} {text : List Char} {line line' : Nat} {ts : List Token}
    {kind : TokenKind} {w : String} (only : kind.spelling? = some w)
    (h : Spells may text line ts line') :
    Spells may (w.toList ++ ' ' :: text) line (⟨kind, w, none, line⟩ :: ts) line' :=
  (spelling only).append (.blank h) fun _ _ => .of_mark (by decide)

/-- A property behind its point. -/
theorem point {may : List Char → Prop} {text text' : List Char} {line line' line'' : Nat}
    {ts us : List Token} {name : Token} (h : Spells Stops text line ts line') (named : name.Named)
    (h' : Spells may text' line' us line'') (fit : ∀ rest, may rest → Stops (text' ++ rest)) :
    Spells may (text ++ '.' :: (name.lexeme.toList ++ text')) line
      (ts ++ ⟨.dot, ".", none, line'⟩ :: name.onLine line' :: us) line'' := by
  have property : Spells may ('.' :: (name.lexeme.toList ++ text')) line'
      (⟨.dot, ".", none, line'⟩ :: name.onLine line' :: us) line'' :=
    mark .dot (fun _ => rfl) (by decide) ((Spells.name named line').append h' fit)
  apply h.append property
  intro rest _
  rw [List.cons_append, List.append_assoc]
  exact .point named _

/-- A value behind its `=`. -/
theorem equalTo {may : List Char → Prop} {text : List Char} {line line' : Nat} {ts : List Token}
    (h : Spells may text line ts line') :
    Spells may (' ' :: '=' :: ' ' :: text) line (⟨.equal, "=", none, line⟩ :: ts) line' := by
  have only : TokenKind.equal.spelling? = some "=" := rfl
  exact .blank (.led only h)

theorem inParentheses {may : List Char → Prop} {text : List Char} {line line' : Nat}
    {ts : List Token} (h : Spells Stops text line ts line') :
    Spells may ('(' :: (text ++ [')'])) line
      (⟨.leftParen, "(", none, line⟩ :: (ts ++ [⟨.rightParen, ")", none, line'⟩])) line' := by
  have closing : Spells may [')'] line' [⟨.rightParen, ")", none, line'⟩] line' :=
    mark .rightParen (fun _ => rfl) (by decide) nil
  exact mark .leftParen (fun _ => rfl) (by decide)
    (h.append closing fun _ _ => .of_mark (by decide))

theorem inBraces {may : List Char → Prop} {text : List Char} {line line' : Nat} {ts : List Token}
    (h : Spells Anything text line ts line') :
    Spells may ('\x7b' :: (text ++ [' ', '\x7d'])) line
      (⟨.leftBrace, "\x7b", none, line⟩ :: (ts ++ [⟨.rightBrace, "\x7d", none, line'⟩])) line' := by
  have closing : Spells may [' ', '\x7d'] line' [⟨.rightBrace, "\x7d", none, line'⟩] line' :=
    blank (mark .rightBrace (fun _ => rfl) (by decide) nil)
  exact mark .leftBrace (fun _ => rfl) (by decide) (h.append closing fun _ _ => trivial)

/-- What ends in a semicolon is closed. -/
theorem ended {may : List Char → Prop} {text : List Char} {line line' : Nat} {ts : List Token}
    (h : Spells Stops text line ts line') :
    Spells may (text ++ [';']) line (ts ++ [⟨.semicolon, ";", none, line'⟩]) line' := by
  have semicolon : Spells may [';'] line' [⟨.semicolon, ";", none, line'⟩] line' :=
    mark .semicolon (fun _ => rfl) (by decide) nil
  exact h.append semicolon fun _ _ => .of_mark (by decide)

/-- A condition in its parentheses, and what follows it. -/
theorem conditioned {may : List Char → Prop} {text text' : List Char} {line line' line'' : Nat}
    {ts us : List Token} (h : Spells Stops text line ts line')
    (h' : Spells may text' line' us line'') :
    Spells may ('(' :: (text ++ ')' :: ' ' :: text')) line
      (⟨.leftParen, "(", none, line⟩ :: (ts ++ ⟨.rightParen, ")", none, line'⟩ :: us)) line'' := by
  have closing : Spells may (')' :: ' ' :: text') line' (⟨.rightParen, ")", none, line'⟩ :: us)
      line'' :=
    mark .rightParen (fun _ => rfl) (by decide) (blank h')
  exact mark .leftParen (fun _ => rfl) (by decide)
    (h.append closing fun _ _ => .of_mark (by decide))

/-- The character is skipped, whatever follows on this line or a later one. -/
def Skips (c : Char) : Prop :=
  ∀ line, ∃ below, ∀ may text ts line', Spells may text below ts line' →
    Spells may (c :: text) line ts line'

theorem Skips.blank : Skips ' ' := fun line => ⟨line, fun _ _ _ _ => Spells.blank⟩

theorem Skips.newline : Skips '\n' := fun line => ⟨line + 1, fun _ _ _ _ => Spells.newline⟩

end Spells

/-- Parts with something between each two: the first, and each other one behind the separator. -/
theorem toList_intercalate_cons (separator part : String) (parts : List String) :
    (separator.intercalate (part :: parts)).toList =
      part.toList ++ parts.flatMap fun p => separator.toList ++ p.toList := by
  induction parts generalizing part with
  | nil => simp
  | cons next parts ih =>
    rw [String.intercalate_cons_cons, String.toList_append, String.toList_append, ih,
      List.flatMap_cons, List.append_assoc, List.append_assoc]

/-- Parts in braces: each behind a blank, and a blank behind all. -/
theorem toList_braced (parts : List String) :
    (braced parts).toList =
      '\x7b' :: ((parts.flatMap fun p => ' ' :: p.toList) ++ [' ', '\x7d']) := by
  cases parts with
  | nil => rfl
  | cons part parts =>
    change ("\x7b " ++ " ".intercalate (part :: parts) ++ " \x7d").toList = _
    rw [String.toList_append, String.toList_append, toList_intercalate_cons]
    simp

namespace Grammar

/-- The token of this kind that is spelled so. -/
def Terminal.spelled (kind : TokenKind) (lexeme : String) (line : Nat) : Terminal kind :=
  ⟨⟨kind, lexeme, none, line⟩, rfl⟩

def Terminal.onLine {kind : TokenKind} (t : Terminal kind) (line : Nat) : Terminal kind :=
  ⟨t.1.onLine line, t.2⟩

def Operator.onLine {kinds : List TokenKind} (t : Operator kinds) (line : Nat) : Operator kinds :=
  ⟨t.1.onLine line, t.2⟩

theorem flatMap_follows {α : Type} {may : List Char → Prop} {text : α → List Char}
    (fit : ∀ x rest, may rest → may (text x ++ rest)) (xs : List α) {rest : List Char}
    (h : may rest) : may (xs.flatMap text ++ rest) := by
  induction xs with
  | nil => exact h
  | cons x xs ih =>
    rw [List.flatMap_cons, List.append_assoc]
    exact fit x _ ih

/-- A list that grows at its end is read item by item, if each keeps an invariant. -/
theorem grown_spells {α : Type} {n : Symbol} {may : List Char → Prop} {text : α → List Char}
    {P : α → Prop} {Inv : List α → Derivation n → Prop}
    (step : ∀ xs x D line, P x → Inv xs D → ∃ (line' : Nat) (E : Derivation n) (us : List Token),
      E.tokens = D.tokens ++ us ∧ Spells may (text x) line us line' ∧ Inv (xs ++ [x]) E)
    (fit : ∀ x rest, may rest → may (text x ++ rest)) (more : List α) (h : ∀ x ∈ more, P x)
    (xs : List α) (D : Derivation n) (line : Nat) (start : Inv xs D) :
    ∃ (line' : Nat) (E : Derivation n) (us : List Token),
      E.tokens = D.tokens ++ us ∧ Spells may (more.flatMap text) line us line' ∧
      Inv (xs ++ more) E := by
  induction more generalizing xs D line with
  | nil => exact ⟨line, D, [], (List.append_nil _).symm, .nil, by rwa [List.append_nil]⟩
  | cons x more ih =>
    obtain ⟨first, others⟩ := List.forall_mem_cons.mp h
    obtain ⟨line', E, us, tokens, spells, grown⟩ := step xs x D line first start
    obtain ⟨line'', F, vs, tokens', spells', grown'⟩ := ih others (xs ++ [x]) E line' grown
    refine ⟨line'', F, us ++ vs, ?_, ?_, ?_⟩
    · rw [tokens', tokens, List.append_assoc]
    · rw [List.flatMap_cons]
      exact spells.append spells' fun rest => flatMap_follows fit more
    · rwa [List.append_cons]

end Grammar

end LoxSyntax
