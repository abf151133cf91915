import Mathlib.Logic.Relation
import LoxSyntax.Proofs.Grammar.Lookahead

namespace LoxSyntax.Grammar

/-- The next token, if there is one, is of one of these kinds. -/
def NextAmong (kinds : List TokenKind) (rest : List Token) : Prop :=
  ∀ t ∈ rest.head?, t.kind ∈ kinds

theorem NextAmong.pull_eq_zero {kinds : List TokenKind} {rest : List Token}
    (h : NextAmong kinds rest) (weak : ∀ kind ∈ kinds, strength kind = 0) : pull rest = 0 := by
  cases rest with
  | nil => rfl
  | cons t rest => exact weak t.kind (h t rfl)

theorem NextAmong.pull_lt {kinds : List TokenKind} {rest : List Token} {rank : Nat}
    (h : NextAmong kinds rest) (weak : ∀ kind ∈ kinds, strength kind = 0)
    (positive : 0 < rank := by decide) : pull rest < rank := by
  rwa [h.pull_eq_zero weak]

theorem nextAmong_cons {kind : TokenKind} {kinds : List TokenKind} (t : Terminal kind)
    (rest : List Token) (h : kind ∈ kinds) : NextAmong kinds (t.1 :: rest) := by
  intro _ next
  cases next
  rwa [t.2]

namespace Derivation

/-- What follows does not carry the phrase on. -/
def EndsBefore : {n : Symbol} → Derivation n → List Token → Prop
  | .expr g, _, rest => pull rest < g.rank
  | .arguments, _, rest | .argumentList, _, rest | .parameters, _, rest
  | .parameterList, _, rest => NextAmong [.rightParen] rest
  | .optional, _, rest => NextAmong [.semicolon, .rightParen] rest
  | .initializer, _, rest => NextAmong [.semicolon] rest
  | .methods, _, rest | .declarations, _, rest => NextAmong [.rightBrace] rest
  | _, D, rest => D.endsOpen = true → ∀ t ∈ rest.head?, t.kind ≠ .elseKw

/-- The tokens are those of the phrase and then the rest, and the phrase is complete there. -/
structure Leads {n : Symbol} (D : Derivation n) (ts rest : List Token) : Prop where
  tokens : D.tokens ++ rest = ts
  proper : D.Proper
  ends : D.EndsBefore rest

/-- A phrase that cannot be empty starts with a token that its symbol can start with. -/
theorem starts_eq_true {n : Symbol} (D : Derivation n) (solid : n.nullable = false) {t : Token}
    {rest us : List Token} (h : D.tokens ++ rest = t :: us) : n.starts t.kind = true := by
  obtain ⟨u, vs, tokens, starts⟩ := D.begins.exists_cons solid
  rw [tokens] at h
  obtain ⟨rfl, -⟩ := List.cons.inj h
  exact starts

theorem not_starts {n : Symbol} (D : Derivation n) (solid : n.nullable = false) {t : Token}
    {rest us : List Token} (other : n.starts t.kind = false) : D.tokens ++ rest ≠ t :: us := by
  intro h
  simp [D.starts_eq_true solid h] at other

/-- Nor does it start with a token that may only stand behind it. -/
theorem not_next {n : Symbol} (D : Derivation n) (solid : n.nullable = false)
    {kinds : List TokenKind} {rest us : List Token} (next : NextAmong kinds us)
    (other : ∀ kind ∈ kinds, n.starts kind = false) : D.tokens ++ rest ≠ us := by
  intro h
  cases us with
  | nil =>
    obtain ⟨t, vs, tokens, -⟩ := D.begins.exists_cons solid
    rw [tokens] at h
    cases h
  | cons t us => exact D.not_starts solid (other t.kind (next t rfl)) h

/-- A phrase that cannot be empty leaves fewer tokens. -/
theorem Leads.length_lt {n : Symbol} {D : Derivation n} {ts rest : List Token} {size : Nat}
    (h : D.Leads ts rest) (solid : n.nullable = false) (short : ts.length < size + 1) :
    rest.length < size := by
  obtain ⟨t, us, tokens, -⟩ := D.begins.exists_cons solid
  have length : D.tokens.length + rest.length = ts.length := by
    rw [← List.length_append, h.tokens]
  rw [tokens, List.length_cons] at length
  omega

end Derivation

open Grammar.Derivation

/-- The tokens are this one, those of the phrase and then the rest. -/
def Derivation.Behind {n : Symbol} (D : Derivation n) (t : Token) (ts rest : List Token) : Prop :=
  ∃ us, ts = t :: us ∧ D.Leads us rest

/-- In front of fewer tokens than that, it is settled what a phrase denotes and where it ends. -/
def Settled (size : Nat) (n : Symbol) : Prop :=
  ∀ ts : List Token, ts.length < size → ∀ (D D' : Derivation n) (rest rest' : List Token),
    D.Leads ts rest → D'.Leads ts rest' → D.tree = D'.tree ∧ rest = rest'

theorem Settled.behind {n : Symbol} {size : Nat} (settled : Settled size n) {ts : List Token}
    (short : ts.length ≤ size) {D D' : Derivation n} {t t' : Token} {rest rest' : List Token}
    (h : D.Behind t ts rest) (h' : D'.Behind t' ts rest') :
    t = t' ∧ D.tree = D'.tree ∧ rest = rest' := by
  obtain ⟨us, rfl, lead⟩ := h
  obtain ⟨us', same, lead'⟩ := h'
  obtain ⟨token, rfl⟩ := List.cons.inj same
  exact ⟨token, settled us short D D' rest rest' lead lead'⟩

/-- Tokens of two kinds do not stand in the same place. -/
theorem clash {kind kind' : TokenKind} {t : Terminal kind} {t' : Terminal kind'}
    {us us' : List Token} (same : t.1 :: us = t'.1 :: us') (differ : kind ≠ kind' := by decide) :
    False := by
  obtain ⟨token, -⟩ := List.cons.inj same
  exact differ (t.2.symm.trans ((congrArg Token.kind token).trans t'.2))

/-- What stands behind a part of the tokens is no longer than all of them. -/
theorem length_behind {ts us vs : List Token} {size : Nat} (whole : us ++ vs = ts)
    (short : ts.length ≤ size) : vs.length ≤ size :=
  Nat.le_trans (whole ▸ (List.suffix_append us vs).length_le) short

theorem Derivation.Behind.length_lt {n : Symbol} {D : Derivation n} {t : Token}
    {ts rest : List Token} {size : Nat} (h : D.Behind t ts rest) (short : ts.length ≤ size) :
    rest.length < size := by
  obtain ⟨us, rfl, lead⟩ := h
  exact Nat.lt_of_le_of_lt (length_behind lead.tokens (Nat.le_refl _)) short

/-- An expression is complete in front of a mark that binds to nothing. -/
theorem Derivation.leads_mark {E : Derivation (.expr .expression)} (proper : E.Proper)
    {kind : TokenKind} (mark : Terminal kind) (rest : List Token) (weak : strength kind = 0) :
    E.Leads (E.tokens ++ mark.1 :: rest) (mark.1 :: rest) where
  tokens := rfl
  proper := proper
  ends := by
    change pull _ < 1
    rw [pull_cons, weak]
    exact Nat.one_pos

/-- One round of a repetition: an item that stands ahead is taken to what was read so far. -/
def Round {α : Type} (item : List Token → (α → α) → List Token → Prop) (s s' : α × List Token) :
    Prop :=
  ∃ f, item s.2 f s'.2 ∧ s'.1 = f s.1

/-- Rounds that go on as long as they can end in the same place. -/
theorem rounds_unique {α : Type} {item : List Token → (α → α) → List Token → Prop}
    (unique : ∀ ts f f' us us', item ts f us → item ts f' us' → f = f' ∧ us = us')
    {s s' s'' : α × List Token} (h : Relation.ReflTransGen (Round item) s s')
    (h' : Relation.ReflTransGen (Round item) s s'') (last : ∀ f us, ¬ item s'.2 f us)
    (last' : ∀ f us, ¬ item s''.2 f us) : s' = s'' := by
  have right : Relator.RightUnique (Round item) := by
    rintro ⟨a, ts⟩ ⟨b, us⟩ ⟨c, vs⟩ ⟨f, one, rfl⟩ ⟨g, other, rfl⟩
    obtain ⟨rfl, rfl⟩ := unique _ _ _ _ _ one other
    rfl
  rcases Relation.ReflTransGen.total_of_right_unique right h h' with on | on
  · rcases on.cases_head with same | ⟨_, ⟨f, one, _⟩, _⟩
    · exact same
    · exact absurd one (last f _)
  · rcases on.cases_head with same | ⟨_, ⟨f, one, _⟩, _⟩
    · exact same.symm
    · exact absurd one (last' f _)

/-- A repetition is settled if its beginning and its items are, and no item stands behind it. -/
theorem settled_of_rounds {n : Symbol} {size : Nat}
    (begins : List Token → n.Meaning × List Token → Prop)
    (item : List Token → (n.Meaning → n.Meaning) → List Token → Prop)
    (start : ∀ ts s s', ts.length < size → begins ts s → begins ts s' → s = s')
    (unique : ∀ ts f f' us us', item ts f us → item ts f' us' → f = f' ∧ us = us')
    (rounds : ∀ (D : Derivation n) ts rest, ts.length < size → D.Leads ts rest →
      ∃ s, begins ts s ∧ Relation.ReflTransGen (Round item) s (D.tree, rest))
    (last : ∀ (D : Derivation n) rest, D.EndsBefore rest → ∀ f us, ¬ item rest f us) :
    Settled size n := by
  intro ts short D D' rest rest' h h'
  obtain ⟨s, begun, run⟩ := rounds D ts rest short h
  obtain ⟨s', begun', run'⟩ := rounds D' ts rest' short h'
  obtain rfl := start ts s s' short begun begun'
  exact Prod.ext_iff.mp
    (rounds_unique unique run run' (last D rest h.ends) (last D' rest' h'.ends))

/-- The tokens begin with a phrase of this symbol, from which something is built. -/
def BegunBy {α : Type} (m : Symbol) (build : m.Meaning → α) (ts : List Token) (s : α × List Token) :
    Prop :=
  ∃ D : Derivation m, D.Leads ts s.2 ∧ s.1 = build D.tree

theorem BegunBy.unique {α : Type} {m : Symbol} {build : m.Meaning → α} {size : Nat}
    (settled : Settled size m) (ts : List Token) (s s' : α × List Token) (short : ts.length < size)
    (h : BegunBy m build ts s) (h' : BegunBy m build ts s') : s = s' := by
  obtain ⟨D, lead, value⟩ := h
  obtain ⟨D', lead', value'⟩ := h'
  obtain ⟨tree, rest⟩ := settled ts short D D' _ _ lead lead'
  exact Prod.ext (value.trans ((congrArg build tree).trans value'.symm)) rest

/-- What a primary expression of one token denotes. -/
def atom (t : Token) : Expr :=
  match t.kind with
  | .falseKw => .constant (.bool false)
  | .trueKw => .constant (.bool true)
  | .nilKw => .constant .nil
  | .thisKw => .this t
  | .identifier => .reference t
  | _ => .constant (t.literal.elim .nil .literal)

/-- A primary expression is a single token, a method of the superclass, or a group. -/
theorem primary_cases (D : Derivation (.expr .primary)) :
    (∃ t, D.tokens = [t] ∧ D.tree = atom t ∧ t.kind ∉ [TokenKind.superKw, .leftParen]) ∨
      (∃ keyword dot method, D = .superMethod keyword dot method) ∨
      ∃ opening inner closing, D = .group opening inner closing := by
  cases D with
  | superMethod keyword dot method => exact .inr (.inl ⟨keyword, dot, method, rfl⟩)
  | group opening inner closing => exact .inr (.inr ⟨opening, inner, closing, rfl⟩)
  | falsehood t | truth t | nothing t | number t | string t | this t | reference t =>
    exact .inl ⟨t.1, rfl, by simp only [atom, t.2]; rfl, by simp [t.2]⟩

theorem group_leads {opening : Terminal .leftParen} {inner : Derivation (.expr .expression)}
    {closing : Terminal .rightParen} {ts rest : List Token}
    (h : (Derivation.group opening inner closing).Leads ts rest) :
    inner.Behind opening.1 ts (closing.1 :: rest) := by
  obtain ⟨rfl, proper, -⟩ := h
  exact ⟨_, congrArg (opening.1 :: ·) (List.append_assoc _ [closing.1] rest),
    leads_mark proper closing rest rfl⟩

theorem primary_settled {size : Nat} (shorter : ∀ n, Settled size n) :
    Settled (size + 1) (.expr .primary) := by
  intro ts short D D' rest rest' h h'
  have same := h.tokens.trans h'.tokens.symm
  rcases primary_cases D with ⟨t, tokens, tree, other⟩ | ⟨keyword, dot, method, rfl⟩ |
    ⟨opening, inner, closing, rfl⟩ <;>
  rcases primary_cases D' with ⟨t', tokens', tree', other'⟩ | ⟨keyword', dot', method', rfl⟩ |
    ⟨opening', inner', closing', rfl⟩
  · rw [tokens, tokens'] at same
    obtain ⟨rfl, rest⟩ := List.cons.inj same
    exact ⟨tree.trans tree'.symm, rest⟩
  · rw [tokens] at same
    obtain ⟨rfl, -⟩ := List.cons.inj same
    simp [keyword'.2] at other
  · rw [tokens] at same
    obtain ⟨rfl, -⟩ := List.cons.inj same
    simp [opening'.2] at other
  · rw [tokens'] at same
    obtain ⟨rfl, -⟩ := List.cons.inj same
    simp [keyword.2] at other'
  · obtain ⟨keyword, same⟩ := List.cons.inj same
    obtain ⟨-, same⟩ := List.cons.inj same
    obtain ⟨method, rest⟩ := List.cons.inj same
    exact ⟨congrArg₂ Expr.super keyword method, rest⟩
  · exact (clash same).elim
  · rw [tokens'] at same
    obtain ⟨rfl, -⟩ := List.cons.inj same
    simp [opening.2] at other'
  · exact (clash same).elim
  · obtain ⟨-, tree, left⟩ :=
      (shorter _).behind (Nat.le_of_lt_succ short) (group_leads h) (group_leads h')
    exact ⟨congrArg Expr.grouping tree, (List.cons.inj left).2⟩

/-- A call or a property access, behind whatever it is made to. -/
def CallItem (size : Nat) (ts : List Token) (f : Expr → Expr) (rest : List Token) : Prop :=
  ts.length ≤ size ∧
    ((∃ (opening : Terminal .leftParen) (args : Derivation .arguments)
        (closing : Terminal .rightParen), args.Behind opening.1 ts (closing.1 :: rest) ∧
        f = fun e => .call e closing.1 args.tree) ∨
      ∃ (dot : Terminal .dot) (name : Terminal .identifier),
        ts = dot.1 :: name.1 :: rest ∧ f = fun e => .get e name.1)

theorem CallItem.unique {size : Nat} (shorter : ∀ n, Settled size n) (ts : List Token)
    (f f' : Expr → Expr) (us us' : List Token) (h : CallItem size ts f us)
    (h' : CallItem size ts f' us') : f = f' ∧ us = us' := by
  obtain ⟨short, ⟨opening, args, closing, ahead, rfl⟩ | ⟨dot, name, tokens, rfl⟩⟩ := h <;>
  obtain ⟨-, ⟨opening', args', closing', ahead', rfl⟩ | ⟨dot', name', tokens', rfl⟩⟩ := h'
  · obtain ⟨-, tree, left⟩ := (shorter _).behind short ahead ahead'
    obtain ⟨closing, rest⟩ := List.cons.inj left
    exact ⟨by rw [tree, closing], rest⟩
  · obtain ⟨vs, tokens, -⟩ := ahead
    exact (clash (tokens.symm.trans tokens')).elim
  · obtain ⟨vs, tokens', -⟩ := ahead'
    exact (clash (tokens.symm.trans tokens')).elim
  · have same := tokens.symm.trans tokens'
    obtain ⟨-, named⟩ := List.cons.inj same
    obtain ⟨name, rest⟩ := List.cons.inj named
    exact ⟨by rw [name], rest⟩

theorem CallItem.pull_eq {size : Nat} {ts us : List Token} {f : Expr → Expr}
    (h : CallItem size ts f us) : pull ts = Grade.call.rank := by
  obtain ⟨-, ⟨opening, _, _, ⟨_, rfl, -⟩, -⟩ | ⟨dot, _, rfl, -⟩⟩ := h
  · exact pull_cons opening _
  · exact pull_cons dot _

theorem call_rounds {size : Nat} (D : Derivation (.expr .call)) {ts rest : List Token}
    (short : ts.length ≤ size) (proper : D.Proper) (tokens : D.tokens ++ rest = ts) :
    ∃ s, BegunBy (.expr .primary) id ts s ∧
      Relation.ReflTransGen (Round (CallItem size)) s (D.tree, rest) := by
  match D with
  | .ofPrimary P =>
    exact ⟨(P.tree, rest), ⟨P, ⟨tokens, proper, Nat.lt_succ_of_le (pull_le rest)⟩, rfl⟩, .refl⟩
  | .apply callee opening args closing =>
    have whole : callee.tokens ++ opening.1 :: (args.tokens ++ [closing.1]) ++ rest = ts := tokens
    simp only [List.append_assoc, List.cons_append, List.nil_append] at whole
    have fewer : (opening.1 :: (args.tokens ++ closing.1 :: rest)).length ≤ size :=
      length_behind whole short
    obtain ⟨s, begun, run⟩ := call_rounds callee short proper.1 whole
    exact ⟨s, begun, run.tail ⟨_, ⟨fewer, .inl ⟨opening, args, closing,
      ⟨_, rfl, rfl, proper.2.1, nextAmong_cons closing rest (by decide)⟩, rfl⟩⟩, rfl⟩⟩
  | .property object dot name =>
    have whole : object.tokens ++ dot.1 :: name.1 :: rest = ts :=
      (List.append_assoc _ [dot.1, name.1] rest).symm.trans tokens
    have fewer : (dot.1 :: name.1 :: rest).length ≤ size :=
      length_behind whole short
    obtain ⟨s, begun, run⟩ := call_rounds object short proper whole
    exact ⟨s, begun, run.tail ⟨_, ⟨fewer, .inr ⟨dot, name, rfl, rfl⟩⟩, rfl⟩⟩

theorem call_settled {size : Nat} (shorter : ∀ n, Settled size n)
    (primary : Settled (size + 1) (.expr .primary)) : Settled (size + 1) (.expr .call) :=
  settled_of_rounds (BegunBy (.expr .primary) id) (CallItem size) (BegunBy.unique primary)
    (CallItem.unique shorter)
    (fun D _ _ short h => call_rounds D (Nat.le_of_lt_succ short) h.proper h.tokens)
    fun _ _ ends _ _ item => absurd item.pull_eq (Nat.ne_of_lt ends)

theorem operate_leads {operator : Operator [.bang, .minus]} {operand : Derivation (.expr .unary)}
    {ts rest : List Token} (h : (Derivation.operate operator operand).Leads ts rest) :
    operand.Behind operator.1 ts rest :=
  ⟨_, h.tokens.symm, rfl, h.proper, h.ends⟩

theorem ofCall_not_operate {E : Derivation (.expr .call)} {operator : Operator [.bang, .minus]}
    {rest us : List Token} : E.tokens ++ rest ≠ operator.1 :: us := by
  have other : ∀ kind ∈ [TokenKind.bang, .minus], startsPrimary kind = false := by decide
  exact E.not_starts rfl (other _ operator.2)

theorem unary_settled {size : Nat} (shorter : ∀ n, Settled size n)
    (call : Settled (size + 1) (.expr .call)) : Settled (size + 1) (.expr .unary) := by
  intro ts short D D' rest rest' h h'
  cases D with
  | ofCall E =>
    cases D' with
    | ofCall E' =>
      exact call ts short E E' rest rest' ⟨h.tokens, h.proper, h.ends⟩
        ⟨h'.tokens, h'.proper, h'.ends⟩
    | operate operator' F' => exact absurd (h.tokens.trans h'.tokens.symm) ofCall_not_operate
  | operate operator F =>
    cases D' with
    | ofCall E' => exact absurd (h'.tokens.trans h.tokens.symm) ofCall_not_operate
    | operate operator' F' =>
      obtain ⟨operator, tree, left⟩ :=
        (shorter _).behind (Nat.le_of_lt_succ short) (operate_leads h) (operate_leads h')
      exact ⟨congrArg₂ Expr.unary operator tree, left⟩

/-- An operator and its right operand. -/
def OperandItem (size : Nat) (level : Precedence) (ts : List Token) (f : Expr → Expr)
    (rest : List Token) : Prop :=
  ts.length ≤ size ∧
    ∃ (operator : Operator level.operators) (right : Derivation (.expr level.tighter)),
      right.Behind operator.1 ts rest ∧ f = fun left => level.node left operator.1 right.tree

theorem OperandItem.unique {size : Nat} {level : Precedence} (shorter : ∀ n, Settled size n)
    (ts : List Token) (f f' : Expr → Expr) (us us' : List Token)
    (h : OperandItem size level ts f us) (h' : OperandItem size level ts f' us') :
    f = f' ∧ us = us' := by
  obtain ⟨short, operator, right, ahead, rfl⟩ := h
  obtain ⟨-, operator', right', ahead', rfl⟩ := h'
  obtain ⟨operator, tree, left⟩ := (shorter _).behind short ahead ahead'
  exact ⟨by rw [operator, tree], left⟩

/-- A phrase of this grade in front of what binds no tighter than its operators. -/
theorem leads_operand {level : Precedence} {D : Derivation (.expr level.tighter)}
    {ts rest : List Token} (tokens : D.tokens ++ rest = ts) (proper : D.Proper)
    (weak : pull rest ≤ (Grade.binary level).rank) : D.Leads ts rest where
  tokens := tokens
  proper := proper
  ends := by
    change pull rest < level.tighter.rank
    rw [Grade.rank_tighter]
    exact Nat.lt_succ_of_le weak

theorem binary_rounds {size : Nat} {level : Precedence} (D : Derivation (.expr (.binary level)))
    {ts rest : List Token} (short : ts.length ≤ size) (proper : D.Proper)
    (tokens : D.tokens ++ rest = ts) (weak : pull rest ≤ (Grade.binary level).rank) :
    ∃ s, BegunBy (.expr level.tighter) id ts s ∧
      Relation.ReflTransGen (Round (OperandItem size level)) s (D.tree, rest) := by
  match D with
  | .ofTighter E => exact ⟨(E.tree, rest), ⟨E, leads_operand tokens proper weak, rfl⟩, .refl⟩
  | .fold left operator right =>
    have whole : left.tokens ++ operator.1 :: (right.tokens ++ rest) = ts :=
      (List.append_assoc _ (operator.1 :: right.tokens) rest).symm.trans tokens
    have fewer : (operator.1 :: (right.tokens ++ rest)).length ≤ size :=
      length_behind whole short
    obtain ⟨s, begun, run⟩ := binary_rounds left short proper.1 whole
      (Nat.le_of_eq (pull_operator operator _))
    exact ⟨s, begun, run.tail ⟨_, ⟨fewer, operator, right,
      ⟨_, rfl, leads_operand rfl proper.2 weak⟩, rfl⟩, rfl⟩⟩

theorem binary_settled {size : Nat} (shorter : ∀ n, Settled size n) (level : Precedence)
    (tighter : Settled (size + 1) (.expr level.tighter)) :
    Settled (size + 1) (.expr (.binary level)) := by
  refine settled_of_rounds (BegunBy (.expr level.tighter) id) (OperandItem size level)
    (BegunBy.unique tighter) (OperandItem.unique shorter) (fun D _ _ short h =>
      binary_rounds D (Nat.le_of_lt_succ short) h.proper h.tokens (Nat.le_of_lt h.ends)) ?_
  rintro _ _ ends _ _ ⟨-, operator, _, ⟨_, rfl, -⟩, -⟩
  exact absurd (pull_operator operator _) (Nat.ne_of_lt ends)

/-- What an assignment of this value to this target denotes. -/
def assigned : Expr → Expr → Expr
  | .reference name, value => .assign name value
  | .get object name, value => .set object name value
  | target, _ => target

/-- A call, as the target of an assignment. -/
theorem target_leads (D : Derivation (.expr .call)) (proper : D.Proper) (equal : Terminal .equal)
    (us : List Token) :
    ∃ T : Derivation (.expr (.binary .disjunction)), T.tree = D.tree ∧
      T.Leads (D.tokens ++ equal.1 :: us) (equal.1 :: us) := by
  obtain ⟨T, alike⟩ := (Derivation.ofCall D).alike_operand .disjunction
  refine ⟨.ofTighter T, alike.tree.symm, ?_, alike.proper.mp proper, ?_⟩
  · exact congrArg (· ++ equal.1 :: us) alike.tokens.symm
  · change pull _ < 2
    rw [pull_cons]
    decide

/-- An assignment is a target, and a value if an `=` follows. -/
theorem assignment_leads {D : Derivation (.expr .assignment)} {ts rest : List Token}
    (h : D.Leads ts rest) :
    ∃ (T : Derivation (.expr (.binary .disjunction))) (us : List Token), T.Leads ts us ∧
      (us = rest ∧ D.tree = T.tree ∨
        ∃ (equal : Terminal .equal) (V : Derivation (.expr .assignment)),
          V.Behind equal.1 us rest ∧ D.tree = assigned T.tree V.tree) := by
  obtain ⟨rfl, proper, ends⟩ := h
  cases D with
  | ofDisjunction T => exact ⟨T, rest, ⟨rfl, proper, Nat.lt_succ_of_lt ends⟩, .inl ⟨rfl, rfl⟩⟩
  | assign name equal V =>
    obtain ⟨T, tree, lead⟩ :=
      target_leads (.ofPrimary (.reference name)) trivial equal (V.tokens ++ rest)
    exact ⟨T, _, lead, .inr ⟨equal, V, ⟨_, rfl, rfl, proper, ends⟩, by rw [tree]; rfl⟩⟩
  | assignProperty object dot name equal V =>
    obtain ⟨T, tree, lead⟩ :=
      target_leads (.property object dot name) proper.1 equal (V.tokens ++ rest)
    have tokens : (Derivation.property object dot name).tokens ++ equal.1 :: (V.tokens ++ rest) =
        (Derivation.assignProperty object dot name equal V).tokens ++ rest :=
      (List.append_assoc _ [dot.1, name.1] _).trans
        (List.append_assoc object.tokens (dot.1 :: name.1 :: equal.1 :: V.tokens) rest).symm
    exact ⟨T, _, tokens ▸ lead, .inr ⟨equal, V, ⟨_, rfl, rfl, proper.2, ends⟩, by rw [tree]; rfl⟩⟩

/-- An assignment is not complete in front of an `=`. -/
theorem not_behind_equal {D V : Derivation (.expr .assignment)} {equal : Terminal .equal}
    {ts rest us : List Token} (h : D.Leads ts rest) : ¬ V.Behind equal.1 rest us := by
  rintro ⟨vs, rfl, -⟩
  have ends : pull (equal.1 :: vs) < 1 := h.ends
  rw [pull_cons] at ends
  exact absurd ends (by decide)

theorem assignment_settled {size : Nat} (shorter : ∀ n, Settled size n)
    (disjunction : Settled (size + 1) (.expr (.binary .disjunction))) :
    Settled (size + 1) (.expr .assignment) := by
  intro ts short D D' rest rest' h h'
  obtain ⟨T, us, lead, value⟩ := assignment_leads h
  obtain ⟨T', us', lead', value'⟩ := assignment_leads h'
  obtain ⟨target, rfl⟩ := disjunction ts short T T' us us' lead lead'
  have fewer : us.length ≤ size := length_behind lead.tokens (Nat.le_of_lt_succ short)
  rcases value with ⟨rfl, tree⟩ | ⟨equal, V, ahead, tree⟩ <;>
  rcases value' with ⟨same, tree'⟩ | ⟨equal', V', ahead', tree'⟩
  · exact ⟨tree.trans (target.trans tree'.symm), same⟩
  · exact (not_behind_equal h ahead').elim
  · exact (not_behind_equal h' (same ▸ ahead)).elim
  · obtain ⟨-, value, left⟩ := (shorter _).behind fewer ahead ahead'
    exact ⟨by rw [tree, tree', target, value], left⟩

theorem expression_settled {size : Nat} (assignment : Settled size (.expr .assignment)) :
    Settled size (.expr .expression) := by
  intro ts short D D' rest rest' h h'
  cases D with
  | expression E =>
    cases D' with
    | expression E' =>
      exact assignment ts short E E' rest rest' ⟨h.tokens, h.proper, h.ends⟩
        ⟨h'.tokens, h'.proper, h'.ends⟩

end LoxSyntax.Grammar
