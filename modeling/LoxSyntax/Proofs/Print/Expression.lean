import LoxSyntax.Proofs.Print.Tree
import LoxSyntax.Proofs.Print.Words

namespace LoxSyntax

namespace Grammar

/-- A derivation of the text of an expression, over these lines: what it denotes is the expression
but for groupings, has the same text, and needs no parentheses of its own. -/
structure Written {g : Grade} (e : Expr) (line : Nat) (D : Derivation (.expr g)) (line' : Nat) :
    Prop where
  spells : Spells Stops e.text.toList line D.tokens line'
  bare : D.tree.bare = e.bare
  text : D.tree.text = e.text
  closed : D.tree.isParenthesized = false
  proper : D.Proper
  nesting : D.nesting = e.levels

/-- Whatever line it starts on, the text of the expression has such a derivation. -/
def Rereads (g : Grade) (e : Expr) : Prop :=
  e.text.toList.head? ≠ some '=' ∧
    ∀ line, ∃ (line' : Nat) (D : Derivation (.expr g)), Written e line D line'

/-- An expression is read as an operand of `!` and `-`; with parentheses of its own it is read
wherever there may be any. -/
def Printed (e : Expr) : Prop :=
  Rereads .unary e ∧ (e.isParenthesized = true → Rereads .primary e)

theorem Written.alike {e : Expr} {g g' : Grade} {line line' : Nat} {D : Derivation (.expr g)}
    {D' : Derivation (.expr g')} (h : Written e line D line') (same : D.Alike D') :
    Written e line D' line' where
  spells := same.tokens ▸ h.spells
  bare := same.tree ▸ h.bare
  text := same.tree ▸ h.text
  closed := same.tree ▸ h.closed
  proper := same.proper.mp h.proper
  nesting := same.nesting.symm.trans h.nesting

theorem Rereads.alike {e : Expr} {g g' : Grade} (h : Rereads g e)
    (loosen : ∀ D : Derivation (.expr g), ∃ D' : Derivation (.expr g'), D.Alike D') :
    Rereads g' e := by
  refine ⟨h.1, fun line => ?_⟩
  obtain ⟨line', D, written⟩ := h.2 line
  obtain ⟨D', same⟩ := loosen D
  exact ⟨line', D', written.alike same⟩

theorem Rereads.call {e : Expr} (h : Rereads .primary e) : Rereads .call e :=
  h.alike fun D => ⟨.ofPrimary D, rfl, rfl, rfl, Iff.rfl⟩

theorem Rereads.unary {e : Expr} (h : Rereads .call e) : Rereads .unary e :=
  h.alike fun D => ⟨.ofCall D, rfl, rfl, rfl, Iff.rfl⟩

theorem Printed.of_primary {e : Expr} (h : Rereads .primary e) :
    Printed e := ⟨h.call.unary, fun _ => h⟩

theorem Printed.operand {e : Expr} (h : Printed e) (level : Precedence) : Rereads level.tighter e :=
  h.1.alike fun D => D.alike_operand level

theorem Printed.assignment {e : Expr} (h : Printed e) : Rereads .assignment e :=
  (h.operand .disjunction).alike Derivation.alike_assignment

/-- What is written in parentheses is read as one group. -/
theorem Rereads.group {e : Expr} {inner : List Char}
    (text : e.text.toList = '(' :: (inner ++ [')']))
    (reads : ∀ line, ∃ (line' : Nat) (D : Derivation (.expr .assignment)),
      Spells Stops inner line D.tokens line' ∧ D.tree.bare = e.bare ∧
      (Expr.grouping D.tree).text = e.text ∧ D.Proper ∧ D.nesting + 1 = e.levels) :
    Rereads .primary e := by
  constructor
  · rw [text]
    simp
  · intro line
    obtain ⟨line', D, spells, bare, again, proper, nesting⟩ := reads line
    refine ⟨line', .group (.spelled .leftParen "(" line) (.expression D)
      (.spelled .rightParen ")" line'), ?_, bare, again, rfl, proper, nesting⟩
    rw [text]
    exact spells.inParentheses

theorem head_append {cs ds : List Char} (h : cs.head? ≠ some '=') (h' : ds.head? ≠ some '=') :
    (cs ++ ds).head? ≠ some '=' := by
  cases cs with
  | nil => exact h'
  | cons c cs => exact h

/-- A grouping has parentheses of its own, unless what is inside has them. -/
theorem grouping_rereads {e : Expr} (h : Printed e) : Rereads .primary (.grouping e) := by
  cases own : e.isParenthesized with
  | true =>
    have text : (Expr.grouping e).text = e.text := if_pos own
    obtain ⟨starts, reads⟩ := h.2 own
    refine ⟨text ▸ starts, fun line => ?_⟩
    obtain ⟨line', D, written⟩ := reads line
    exact ⟨line', D, text ▸ written.spells, written.bare, written.text.trans text.symm,
      written.closed, written.proper, written.nesting.trans (if_pos own).symm⟩
  | false =>
    have text : (Expr.grouping e).text = "(" ++ e.text ++ ")" :=
      if_neg (Bool.eq_false_iff.mp own)
    have levels : (Expr.grouping e).levels = e.levels + 1 := if_neg (Bool.eq_false_iff.mp own)
    have grouped : (Expr.grouping e).text.toList = '(' :: (e.text.toList ++ [')']) := by
      rw [text]
      simp
    refine .group grouped fun line => ?_
    obtain ⟨line', D, written⟩ := h.assignment.2 line
    refine ⟨line', D, written.spells, written.bare, ?_, written.proper, ?_⟩
    · rw [text, ← written.text]
      exact if_neg (Bool.eq_false_iff.mp written.closed)
    · rw [levels, written.nesting]

/-- An operation of two operands has parentheses of its own. -/
theorem operation_rereads (level : Precedence) {left right : Expr} {operator : Token}
    (is : operator.kind ∈ level.operators) (spelled : operator.Spelled) (hl : Printed left)
    (hr : Printed right) : Rereads .primary (level.node left operator right) := by
  have text (l r : Expr) (o : Token) : (level.node l o r).text =
      "(" ++ l.text ++ " " ++ o.lexeme ++ " " ++ r.text ++ ")" := by
    cases level <;> rfl
  have bare (l r : Expr) (o : Token) :
      (level.node l o r).bare = level.node l.bare o.unplaced r.bare := by
    cases level <;> rfl
  have levels : (level.node left operator right).levels = max left.levels right.levels + 1 := by
    cases level <;> rfl
  have own (l r : Expr) (o : Token) : (Expr.grouping (level.node l o r)).text =
      (level.node l o r).text := by
    cases level <;> rfl
  have fixed : ∀ kind ∈ level.operators, kind.spelling?.isSome = true := by
    cases level <;> decide
  have grouped : (level.node left operator right).text.toList = '(' :: ((left.text.toList ++
      ' ' :: (operator.lexeme.toList ++ ' ' :: right.text.toList)) ++ [')']) := by
    rw [text]
    simp
  refine .group grouped fun line => ?_
  obtain ⟨line', L, l⟩ := (hl.operand level).2 line
  obtain ⟨line'', R, r⟩ := (hr.operand level).2 line'
  obtain ⟨D, same⟩ := (Derivation.fold (.ofTighter L) (Operator.onLine ⟨operator, is⟩ line')
    R).alike_assignment
  refine ⟨line'', D, ?_, ?_, ?_, same.proper.mp ⟨l.proper, r.proper⟩, ?_⟩
  · rw [← same.tokens]
    have sign := Spells.operatorToken is fixed spelled line'
    have behind := sign.append (.blank r.spells) fun _ _ => .of_mark (by decide)
    exact l.spells.append (.blank behind) fun _ _ => .of_mark (by decide)
  · rw [← same.tree]
    change (level.node L.tree (operator.onLine line') R.tree).bare = _
    rw [bare, bare, l.bare, r.bare]
    rfl
  · rw [← same.tree]
    change (Expr.grouping (level.node L.tree (operator.onLine line') R.tree)).text = _
    rw [own, text, text, l.text, r.text]
    rfl
  · rw [← same.nesting, levels, ← l.nesting, ← r.nesting]
    rfl

theorem assign_rereads {e : Expr} {name : Token} (named : name.Named) (h : Printed e) :
    Rereads .primary (.assign name e) := by
  have grouped : (Expr.assign name e).text.toList =
      '(' :: ((name.lexeme.toList ++ ' ' :: '=' :: ' ' :: e.text.toList) ++ [')']) := by
    simp [Expr.text]
  refine .group grouped fun line => ?_
  obtain ⟨line', D, written⟩ := h.assignment.2 line
  refine ⟨line', .assign (Terminal.onLine ⟨name, named.1⟩ line) (.spelled .equal "=" line) D, ?_,
    ?_, ?_, written.proper, ?_⟩
  · exact (Spells.name named line).append written.spells.equalTo fun _ _ => .of_mark (by decide)
  · change Expr.assign name.unplaced D.tree.bare = _
    rw [written.bare]
    rfl
  · change "(" ++ name.lexeme ++ " = " ++ D.tree.text ++ ")" = _
    rw [written.text]
    rfl
  · change D.nesting + 1 + 1 = e.levels + 2
    rw [written.nesting]

theorem set_rereads {e object : Expr} {name : Token} (named : name.Named)
    (hobject : Rereads .call object) (h : Printed e) : Rereads .primary (.set object name e) := by
  have grouped : (Expr.set object name e).text.toList = '(' :: ((object.text.toList ++
      '.' :: (name.lexeme.toList ++ ' ' :: '=' :: ' ' :: e.text.toList)) ++ [')']) := by
    simp [Expr.text]
  refine .group grouped fun line => ?_
  obtain ⟨line', O, o⟩ := hobject.2 line
  obtain ⟨line'', D, written⟩ := h.assignment.2 line'
  refine ⟨line'', .assignProperty O (.spelled .dot "." line')
    (Terminal.onLine ⟨name, named.1⟩ line') (.spelled .equal "=" line') D, ?_, ?_, ?_,
    ⟨o.proper, written.proper⟩, ?_⟩
  · exact o.spells.point named written.spells.equalTo fun _ _ => .of_mark (by decide)
  · change Expr.set O.tree.bare name.unplaced D.tree.bare = _
    rw [o.bare, written.bare]
    rfl
  · change "(" ++ O.tree.text ++ "." ++ name.lexeme ++ " = " ++ D.tree.text ++ ")" = _
    rw [o.text, written.text]
    rfl
  · change max O.nesting (D.nesting + 1) + 1 = max object.levels (e.levels + 1) + 1
    rw [o.nesting, written.nesting]

theorem number_rereads {num den : Nat} (finite : (Binary64.ofRatio num den).isFinite = true) :
    Rereads .primary (.constant (.literal (.number (.ofRatio num den)))) := by
  let decimal := Decimal.shortest (Binary64.ofRatio num den).magnitude
  have whole : (Expr.constant (.literal (.number (.ofRatio num den)))).text.toList =
      decimal.digits := by
    change (Binary64.ofRatio num den).text.toList = _
    rw [Binary64.text_ofRatio num den finite, String.toList_ofList]
  constructor
  · rw [whole]
    intro first
    exact decimal.not_mem_digits (by decide) rfl (List.mem_of_head? first)
  · intro line
    let token : Terminal .number :=
      ⟨⟨.number, String.ofList decimal.digits, some (.number (.ofRatio num den)), line⟩, rfl⟩
    refine ⟨line, .number token, ?_, rfl, rfl, rfl, trivial, rfl⟩
    rw [whole]
    exact Spells.digits _ (Decimal.toBinary64_shortest num den finite) finite

theorem string_rereads {value : String} (h : '"' ∉ value.toList) :
    Rereads .primary (.constant (.literal (.string value))) := by
  have whole : (Expr.constant (.literal (.string value))).text = "\"" ++ value ++ "\"" := rfl
  constructor
  · rw [whole]
    simp
  · intro line
    obtain ⟨line', reads⟩ := @Spells.string line Stops value h
    let token : Terminal .string :=
      ⟨⟨.string, "\"" ++ value ++ "\"", some (.string value), line⟩, rfl⟩
    exact ⟨line', .string token, reads, rfl, rfl, rfl, trivial, rfl⟩

theorem this_rereads {keyword : Token} (is : keyword.kind = .thisKw) (spelled : keyword.Spelled) :
    Rereads .primary (.this keyword) := by
  have starts : "this".toList.head? ≠ some '=' := by decide
  refine ⟨starts, fun line => ⟨line, .this (.spelled .thisKw "this" line), Spells.spelling rfl,
    ?_, rfl, rfl, trivial, rfl⟩⟩
  change Expr.this _ = Expr.this (keyword.onLine 0)
  rw [spelled.onLine_eq is rfl 0]
  rfl

theorem reference_rereads {name : Token} (named : name.Named) :
    Rereads .primary (.reference name) := by
  refine ⟨?_, fun line => ⟨line, .reference (Terminal.onLine ⟨name, named.1⟩ line),
    Spells.name named line, rfl, rfl, rfl, trivial, rfl⟩⟩
  obtain ⟨c, cs, whole, starts⟩ := named.startsName []
  rw [List.append_nil] at whole
  change name.lexeme.toList.head? ≠ some '='
  rw [whole]
  intro h
  cases h
  cases starts

theorem super_rereads {keyword method : Token} (is : keyword.kind = .superKw)
    (spelled : keyword.Spelled) (named : method.Named) :
    Rereads .primary (.super keyword method) := by
  have whole : (Expr.super keyword method).text.toList =
      "super".toList ++ '.' :: (method.lexeme.toList ++ []) := by
    simp [Expr.text]
  constructor
  · rw [whole]
    simp
  · intro line
    refine ⟨line, .superMethod (.spelled .superKw "super" line) (.spelled .dot "." line)
      (Terminal.onLine ⟨method, named.1⟩ line), ?_, ?_, rfl, rfl, trivial, rfl⟩
    · rw [whole]
      have only : TokenKind.superKw.spelling? = some "super" := rfl
      exact (Spells.spelling only).point named .nil fun _ stops => stops
    · change Expr.super _ method.unplaced = Expr.super (keyword.onLine 0) method.unplaced
      rw [spelled.onLine_eq is rfl 0]
      rfl

theorem false_rereads : Rereads .primary (.constant (.bool false)) :=
  ⟨by decide, fun line => ⟨line, .falsehood (.spelled .falseKw "false" line),
    Spells.spelling rfl, rfl, rfl, rfl, trivial, rfl⟩⟩

theorem true_rereads : Rereads .primary (.constant (.bool true)) :=
  ⟨by decide, fun line => ⟨line, .truth (.spelled .trueKw "true" line),
    Spells.spelling rfl, rfl, rfl, rfl, trivial, rfl⟩⟩

theorem nil_rereads : Rereads .primary (.constant .nil) :=
  ⟨by decide, fun line => ⟨line, .nothing (.spelled .nilKw "nil" line),
    Spells.spelling rfl, rfl, rfl, rfl, trivial, rfl⟩⟩

theorem get_rereads {e : Expr} {name : Token} (named : name.Named) (h : Rereads .call e) :
    Rereads .call (.get e name) := by
  have whole : (Expr.get e name).text.toList =
      e.text.toList ++ '.' :: (name.lexeme.toList ++ []) := by
    simp [Expr.text]
  constructor
  · rw [whole]
    exact head_append h.1 (by simp)
  · intro line
    obtain ⟨line', D, written⟩ := h.2 line
    refine ⟨line', .property D (.spelled .dot "." line') (Terminal.onLine ⟨name, named.1⟩ line'),
      ?_, ?_, ?_, rfl, written.proper, written.nesting⟩
    · rw [whole]
      exact written.spells.point named .nil fun _ stops => stops
    · change Expr.get D.tree.bare name.unplaced = _
      rw [written.bare]
      rfl
    · change D.tree.text ++ "." ++ name.lexeme = _
      rw [written.text]
      rfl

/-- An operand right behind its operator, which no `=` follows. -/
theorem unary_rereads {e : Expr} {operator : Token} (is : operator.kind ∈ [.bang, .minus])
    (spelled : operator.Spelled) (h : Rereads .unary e) : Rereads .unary (.unary operator e) := by
  have whole : (Expr.unary operator e).text.toList = operator.lexeme.toList ++ e.text.toList := by
    simp [Expr.text]
  have starts : operator.lexeme.toList.head? ≠ some '=' := by
    change (operator.onLine 0).lexeme.toList.head? ≠ some '='
    rcases List.mem_cons.mp is with bang | is
    · rw [spelled.onLine_eq bang rfl 0]
      decide
    · rw [spelled.onLine_eq (List.mem_singleton.mp is) rfl 0]
      decide
  constructor
  · rw [whole]
    exact head_append starts h.1
  · intro line
    obtain ⟨line', D, written⟩ := h.2 line
    refine ⟨line', .operate (Operator.onLine ⟨operator, is⟩ line) D, ?_, ?_, ?_, rfl,
      written.proper, ?_⟩
    · rw [whole]
      exact (Spells.unaryOperator is spelled line).append written.spells fun rest stops =>
        head_append h.1 (stops.head_ne rfl)
    · change Expr.unary operator.unplaced D.tree.bare = _
      rw [written.bare]
      rfl
    · change operator.lexeme ++ D.tree.text = _
      rw [written.text]
      rfl
    · change D.nesting + 1 = e.levels + 1
      rw [written.nesting]

/-- A derivation of the text of arguments. -/
structure ListWritten {n : Symbol} (es args : List Expr) (D : Derivation n) : Prop where
  bare : args.map Expr.bare = es.map Expr.bare
  texts : args.map Expr.text = es.map Expr.text
  proper : D.Proper
  nesting : D.nesting = Expr.argumentLevels es

theorem argumentLevels_append (es : List Expr) (e : Expr) :
    Expr.argumentLevels (es ++ [e]) = max (Expr.argumentLevels es) (e.levels + 1) := by
  induction es with
  | nil => exact Nat.max_comm _ _
  | cons first es ih =>
    change max (first.levels + 1) (Expr.argumentLevels (es ++ [e])) = _
    rw [ih, ← Nat.max_assoc]
    rfl

theorem oneArgument_written {e : Expr} {line line' : Nat} {D : Derivation (.expr .assignment)}
    (h : Written e line D line') : ListWritten [e] [D.tree] (.oneArgument (.expression D)) where
  bare := congrArg (fun e => [e]) h.bare
  texts := congrArg (fun e => [e]) h.text
  proper := h.proper
  nesting := by
    change D.nesting + 1 = max (e.levels + 1) 0
    rw [h.nesting, Nat.max_zero]

theorem anotherArgument_written (es : List Expr) (e : Expr) (L : Derivation .argumentList)
    (line : Nat) (h : Printed e) (hL : ListWritten es L.tree L) :
    ∃ (line' : Nat) (E : Derivation .argumentList) (us : List Token), E.tokens = L.tokens ++ us ∧
      Spells Stops (", ".toList ++ e.text.toList) line us line' ∧
      ListWritten (es ++ [e]) E.tree E := by
  obtain ⟨line', D, written⟩ := h.assignment.2 line
  refine ⟨line', .anotherArgument L (.spelled .comma "," line) (.expression D), _, rfl,
    .mark .comma (fun _ => rfl) (by decide) (.blank written.spells), ?_, ?_,
    ⟨hL.proper, written.proper⟩, ?_⟩
  · change (L.tree ++ [D.tree]).map Expr.bare = _
    rw [List.map_append, List.map_append, hL.bare, List.map_singleton, written.bare]
    rfl
  · change (L.tree ++ [D.tree]).map Expr.text = _
    rw [List.map_append, List.map_append, hL.texts, List.map_singleton, written.text]
    rfl
  · change max L.nesting (D.nesting + 1) = _
    rw [argumentLevels_append, hL.nesting, written.nesting]

/-- Arguments, with a comma between each two. -/
theorem arguments_written (es : List Expr) (h : ∀ e ∈ es, Printed e) (line : Nat) :
    ∃ (line' : Nat) (D : Derivation .arguments),
      Spells Stops (", ".intercalate (Expr.texts es)).toList line D.tokens line' ∧
      ListWritten es D.tree D := by
  cases es with
  | nil => exact ⟨line, .noArguments, .nil, rfl, rfl, trivial, rfl⟩
  | cons first more =>
    obtain ⟨here, others⟩ := List.forall_mem_cons.mp h
    obtain ⟨line', D, written⟩ := here.assignment.2 line
    have fit : ∀ (e : Expr) (rest : List Char), Stops rest →
        Stops (", ".toList ++ e.text.toList ++ rest) := fun _ _ _ => .of_mark (by decide)
    obtain ⟨line'', L, us, tokens, spells, list⟩ := grown_spells anotherArgument_written fit more
      others [first] (.oneArgument (.expression D)) line' (oneArgument_written written)
    refine ⟨line'', .someArguments L, ?_, list.bare, list.texts, list.proper, list.nesting⟩
    rw [Expr.texts, toList_intercalate_cons, Expr.texts_eq_map, List.flatMap_map]
    change Spells Stops _ line L.tokens line''
    rw [tokens]
    exact written.spells.append spells fun _ => flatMap_follows fit more

theorem call_rereads {callee : Expr} {paren : Token} {args : List Expr}
    (is : paren.kind = .rightParen) (spelled : paren.Spelled) (hcallee : Rereads .call callee)
    (hargs : ∀ e ∈ args, Printed e) (few : args.length ≤ Parse.maxArguments) :
    Rereads .call (.call callee paren args) := by
  have whole : (Expr.call callee paren args).text.toList = callee.text.toList ++
      '(' :: ((", ".intercalate (Expr.texts args)).toList ++ [')']) := by
    simp [Expr.text]
  constructor
  · rw [whole]
    exact head_append hcallee.1 (by simp)
  · intro line
    obtain ⟨line', C, written⟩ := hcallee.2 line
    obtain ⟨line'', A, spells, list⟩ := arguments_written args hargs line'
    have length : A.tree.length = args.length := by
      rw [← List.length_map Expr.bare, list.bare, List.length_map]
    refine ⟨line'', .apply C (.spelled .leftParen "(" line') A (.spelled .rightParen ")" line''),
      ?_, ?_, ?_, rfl, ⟨written.proper, list.proper, length ▸ few⟩, ?_⟩
    · rw [whole]
      exact written.spells.append spells.inParentheses fun _ _ => .of_mark (by decide)
    · change Expr.call C.tree.bare _ (Expr.bareAll A.tree) =
        Expr.call callee.bare (paren.onLine 0) (Expr.bareAll args)
      rw [written.bare, Expr.bareAll_eq_map, Expr.bareAll_eq_map, list.bare,
        spelled.onLine_eq is rfl 0]
      rfl
    · change C.tree.text ++ "(" ++ ", ".intercalate (Expr.texts A.tree) ++ ")" =
        callee.text ++ "(" ++ ", ".intercalate (Expr.texts args) ++ ")"
      rw [written.text, Expr.texts_eq_map, Expr.texts_eq_map, list.texts]
    · change max C.nesting A.nesting = max callee.levels (Expr.argumentLevels args)
      rw [written.nesting, list.nesting]

end Grammar

end LoxSyntax
