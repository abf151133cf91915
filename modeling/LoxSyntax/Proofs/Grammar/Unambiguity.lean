import LoxSyntax.Proofs.Grammar.ExpressionUnambiguity

namespace LoxSyntax.Grammar

open Grammar.Derivation

/-- Phrases of one symbol are those of another, and the empty one where what can follow a phrase
does not start one. -/
theorem settled_of_optional {size : Nat} {n : Symbol} (m : Symbol) (kinds : List TokenKind)
    (nothing : n.Meaning) (build : m.Meaning → n.Meaning) (solid : m.nullable = false)
    (other : ∀ kind ∈ kinds, m.starts kind = false) (settled : Settled size m)
    (leads : ∀ (D : Derivation n) (ts rest : List Token), D.Leads ts rest →
      (D.tree = nothing ∧ ts = rest ∧ NextAmong kinds rest) ∨
        ∃ E : Derivation m, E.Leads ts rest ∧ D.tree = build E.tree) : Settled size n := by
  intro ts short D D' rest rest' h h'
  rcases leads D ts rest h with ⟨tree, rfl, next⟩ | ⟨E, lead, tree⟩ <;>
  rcases leads D' _ rest' h' with ⟨tree', same, next'⟩ | ⟨E', lead', tree'⟩
  · exact ⟨tree.trans tree'.symm, same⟩
  · exact absurd lead'.tokens (E'.not_next solid next other)
  · exact absurd (lead.tokens.trans same) (E.not_next solid next' other)
  · obtain ⟨same, left⟩ := settled ts short E E' rest rest' lead lead'
    exact ⟨by rw [tree, tree', same], left⟩

/-- A comma and one more argument. -/
def ArgumentItem (size : Nat) (ts : List Token) (f : List Expr → List Expr) (rest : List Token) :
    Prop :=
  ts.length ≤ size ∧
    ∃ (comma : Terminal .comma) (value : Derivation (.expr .expression)),
      value.Behind comma.1 ts rest ∧ f = fun es => es ++ [value.tree]

theorem ArgumentItem.unique {size : Nat} (shorter : ∀ n, Settled size n) (ts : List Token)
    (f f' : List Expr → List Expr) (us us' : List Token) (h : ArgumentItem size ts f us)
    (h' : ArgumentItem size ts f' us') : f = f' ∧ us = us' := by
  obtain ⟨short, comma, value, ahead, rfl⟩ := h
  obtain ⟨-, comma', value', ahead', rfl⟩ := h'
  obtain ⟨-, tree, left⟩ := (shorter _).behind short ahead ahead'
  exact ⟨by rw [tree], left⟩

theorem argumentList_rounds {size : Nat} (D : Derivation .argumentList) {ts rest : List Token}
    (short : ts.length ≤ size) (proper : D.Proper) (tokens : D.tokens ++ rest = ts)
    (weak : pull rest = 0) :
    ∃ s, BegunBy (.expr .expression) (fun e => [e]) ts s ∧
      Relation.ReflTransGen (Round (ArgumentItem size)) s (D.tree, rest) := by
  have ends {value : Derivation (.expr .expression)} : value.EndsBefore rest := by
    change pull rest < 1
    rw [weak]
    exact Nat.one_pos
  match D with
  | .oneArgument value => exact ⟨([value.tree], rest), ⟨value, ⟨tokens, proper, ends⟩, rfl⟩, .refl⟩
  | .anotherArgument list comma value =>
    have whole : list.tokens ++ comma.1 :: (value.tokens ++ rest) = ts :=
      (List.append_assoc _ (comma.1 :: value.tokens) rest).symm.trans tokens
    have fewer : (comma.1 :: (value.tokens ++ rest)).length ≤ size :=
      length_behind whole short
    obtain ⟨s, begun, run⟩ := argumentList_rounds list short proper.1 whole (pull_cons comma _)
    exact ⟨s, begun, run.tail ⟨_, ⟨fewer, comma, value, ⟨_, rfl, rfl, proper.2, ends⟩, rfl⟩, rfl⟩⟩

theorem argumentList_settled {size : Nat} (shorter : ∀ n, Settled size n)
    (expression : Settled (size + 1) (.expr .expression)) : Settled (size + 1) .argumentList := by
  refine settled_of_rounds (BegunBy (.expr .expression) fun e => [e]) (ArgumentItem size)
    (BegunBy.unique expression) (ArgumentItem.unique shorter) (fun D _ rest short h =>
      argumentList_rounds D (Nat.le_of_lt_succ short) h.proper h.tokens ?_) ?_
  · have ends : NextAmong [.rightParen] rest := h.ends
    exact ends.pull_eq_zero (by decide)
  · rintro _ _ ends _ _ ⟨-, comma, _, ⟨_, rfl, -⟩, -⟩
    have closing := ends comma.1 rfl
    simp [comma.2] at closing

theorem arguments_settled {size : Nat} (list : Settled size .argumentList) :
    Settled size .arguments := by
  refine settled_of_optional .argumentList [.rightParen] [] id rfl (by decide) list
    fun D ts rest h => ?_
  cases D with
  | noArguments => exact .inl ⟨rfl, h.tokens.symm, h.ends⟩
  | someArguments L => exact .inr ⟨L, ⟨h.tokens, h.proper, h.ends⟩, rfl⟩

/-- A comma and one more parameter. -/
def ParameterItem (ts : List Token) (f : List Token → List Token) (rest : List Token) : Prop :=
  ∃ (comma : Terminal .comma) (name : Terminal .identifier),
    ts = comma.1 :: name.1 :: rest ∧ f = fun names => names ++ [name.1]

/-- The first parameter, and what stands behind it. -/
def FirstParameter (ts : List Token) (s : List Token × List Token) : Prop :=
  ∃ name : Terminal .identifier, ts = name.1 :: s.2 ∧ s.1 = [name.1]

theorem parameterList_rounds (D : Derivation .parameterList) {ts rest : List Token}
    (tokens : D.tokens ++ rest = ts) :
    ∃ s, FirstParameter ts s ∧
      Relation.ReflTransGen (Round ParameterItem) s (D.tree, rest) := by
  match D with
  | .oneParameter name => exact ⟨([name.1], rest), ⟨name, tokens.symm, rfl⟩, .refl⟩
  | .anotherParameter list comma name =>
    have whole : list.tokens ++ comma.1 :: name.1 :: rest = ts :=
      (List.append_assoc _ [comma.1, name.1] rest).symm.trans tokens
    obtain ⟨s, begun, run⟩ := parameterList_rounds list whole
    exact ⟨s, begun, run.tail ⟨_, ⟨comma, name, rfl, rfl⟩, rfl⟩⟩

theorem parameterList_settled {size : Nat} : Settled size .parameterList := by
  refine settled_of_rounds FirstParameter ParameterItem ?_ ?_
    (fun D _ _ _ h => parameterList_rounds D h.tokens) ?_
  · rintro ts ⟨names, us⟩ ⟨names', us'⟩ - ⟨name, tokens, rfl⟩ ⟨name', tokens', rfl⟩
    obtain ⟨same, rest⟩ := List.cons.inj (tokens.symm.trans tokens')
    exact Prod.ext (congrArg (fun t => [t]) same) rest
  · rintro ts f f' us us' ⟨comma, name, tokens, rfl⟩ ⟨comma', name', tokens', rfl⟩
    obtain ⟨-, named⟩ := List.cons.inj (tokens.symm.trans tokens')
    obtain ⟨name, rest⟩ := List.cons.inj named
    exact ⟨by rw [name], rest⟩
  · rintro _ _ ends _ _ ⟨comma, _, rfl, -⟩
    have closing := ends comma.1 rfl
    simp [comma.2] at closing

theorem parameters_settled {size : Nat} : Settled size .parameters := by
  refine settled_of_optional .parameterList [.rightParen] [] id rfl (by decide)
    parameterList_settled fun D ts rest h => ?_
  cases D with
  | noParameters => exact .inl ⟨rfl, h.tokens.symm, h.ends⟩
  | someParameters L => exact .inr ⟨L, ⟨h.tokens, L.proper_parameterList, h.ends⟩, rfl⟩

namespace Symbol

/-- The kinds that tell, at the start of a phrase, which production it is derived by. -/
def openings : Symbol → List TokenKind
  | .declaration => [.classKw, .funKw, .varKw]
  | .form => [.printKw, .returnKw, .whileKw, .forKw, .ifKw, .leftBrace]
  | .forInit => [.semicolon, .varKw]
  | _ => []

end Symbol

/-- The kind of token that the production starts with, if it is told by that. -/
def Derivation.opening? : {n : Symbol} → Derivation n → Option TokenKind
  | _, classDecl .. => some .classKw
  | _, funDecl .. => some .funKw
  | _, varDecl .. | _, varInit .. => some .varKw
  | _, print .. => some .printKw
  | _, ret .. => some .returnKw
  | _, whileLoop .. => some .whileKw
  | _, forLoop .. => some .forKw
  | _, ifElse .. => some .ifKw
  | _, ofBlock _ => some .leftBrace
  | _, noInit _ => some .semicolon
  | _, _ => none

/-- One token tells the production. -/
theorem opening?_eq {n : Symbol} (D : Derivation n) (solid : n.nullable = false) {t : Token}
    {rest us : List Token} (h : D.tokens ++ rest = t :: us) :
    D.opening? = if t.kind ∈ n.openings then some t.kind else none := by
  have statement : ∀ kind, startsStatement kind = true → kind ∉ Symbol.openings .declaration := by
    intro kind; cases kind <;> decide
  have expression : ∀ kind, startsExpr kind = true →
      kind ∉ Symbol.openings .form ∧ kind ∉ Symbol.openings .forInit := by
    intro kind; cases kind <;> decide
  cases D with
  | classDecl keyword | funDecl keyword | varDecl keyword | varInit keyword | print keyword
  | ret keyword | whileLoop keyword | forLoop keyword | ifElse keyword | noInit keyword =>
    obtain ⟨rfl, -⟩ := List.cons.inj h
    rw [keyword.2]
    rfl
  | ofBlock B =>
    cases B with
    | block opening =>
      obtain ⟨rfl, -⟩ := List.cons.inj h
      rw [opening.2]
      rfl
  | ofStatement S => exact (if_neg (statement _ (S.starts_eq_true rfl h))).symm
  | ofExprStmt E => exact (if_neg (expression _ (E.starts_eq_true rfl h)).1).symm
  | exprInit E => exact (if_neg (expression _ (E.starts_eq_true rfl h)).2).symm
  | _ => rfl

theorem opening?_unique {n : Symbol} (solid : n.nullable = false) {D D' : Derivation n}
    {ts rest rest' : List Token} (h : D.Leads ts rest) (h' : D'.Leads ts rest') :
    D.opening? = D'.opening? := by
  obtain ⟨t, us, tokens, -⟩ := D.begins.exists_cons solid
  have first : D.tokens ++ rest = t :: (us ++ rest) := by rw [tokens]; rfl
  rw [opening?_eq D solid first, opening?_eq D' solid (h'.tokens.trans (h.tokens.symm.trans first))]

/-- A phrase and the token behind it. -/
theorem Settled.marked {size : Nat} {n : Symbol} (settled : Settled size n) {ts : List Token}
    (short : ts.length ≤ size) {D D' : Derivation n} {first first' mark mark' : Token}
    {rest rest' : List Token} (h : D.Behind first ts (mark :: rest))
    (h' : D'.Behind first' ts (mark' :: rest')) :
    first = first' ∧ D.tree = D'.tree ∧ rest = rest' := by
  obtain ⟨token, tree, left⟩ := settled.behind short h h'
  exact ⟨token, tree, (List.cons.inj left).2⟩

theorem optional_settled {size : Nat} (expression : Settled size (.expr .expression)) :
    Settled size .optional := by
  refine settled_of_optional (.expr .expression) [.semicolon, .rightParen] none some rfl
    (by decide) expression fun D ts rest h => ?_
  have next : NextAmong [.semicolon, .rightParen] rest := by cases D <;> exact h.ends
  cases D with
  | absent => exact .inl ⟨rfl, h.tokens.symm, next⟩
  | present value => exact .inr ⟨value, ⟨h.tokens, h.proper, next.pull_lt (by decide)⟩, rfl⟩

theorem initializer_leads {equal : Terminal .equal} {value : Derivation (.expr .expression)}
    {ts rest : List Token} (h : (Derivation.initializer equal value).Leads ts rest) :
    value.Behind equal.1 ts rest :=
  have next : NextAmong [.semicolon] rest := h.ends
  ⟨_, h.tokens.symm, rfl, h.proper, next.pull_lt (by decide)⟩

theorem noInitializer_leads {ts rest us : List Token}
    (h : Derivation.noInitializer.Leads ts rest) {equal : Terminal .equal}
    {value : Derivation (.expr .expression)} : ¬ value.Behind equal.1 ts us := by
  rintro ⟨vs, same, -⟩
  have ends := h.ends equal.1 (by rw [show rest = ts from h.tokens, same]; rfl)
  simp [equal.2] at ends

theorem initializer_settled {size : Nat} (shorter : ∀ n, Settled size n) :
    Settled (size + 1) .initializer := by
  intro ts short D D' rest rest' h h'
  cases D with
  | noInitializer =>
    cases D' with
    | noInitializer => exact ⟨rfl, h.tokens.trans h'.tokens.symm⟩
    | initializer equal' V' => exact absurd (initializer_leads h') (noInitializer_leads h)
  | initializer equal V =>
    cases D' with
    | noInitializer => exact absurd (initializer_leads h) (noInitializer_leads h')
    | initializer equal' V' =>
      obtain ⟨-, tree, left⟩ := (shorter _).behind (Nat.le_of_lt_succ short)
        (initializer_leads h) (initializer_leads h')
      exact ⟨congrArg some tree, left⟩

theorem binding_leads {name : Terminal .identifier} {value : Derivation .initializer}
    {semicolon : Terminal .semicolon} {ts rest : List Token}
    (h : (Derivation.binding name value semicolon).Leads ts rest) :
    value.Behind name.1 ts (semicolon.1 :: rest) :=
  ⟨_, h.tokens.symm, (List.append_assoc _ [semicolon.1] rest).symm, h.proper,
    nextAmong_cons semicolon rest (by decide)⟩

theorem binding_settled {size : Nat} (shorter : ∀ n, Settled size n) :
    Settled (size + 1) .binding := by
  intro ts short D D' rest rest' h h'
  cases D with
  | binding name value semicolon =>
    cases D' with
    | binding name' value' semicolon' =>
      obtain ⟨name, tree, left⟩ := (shorter _).marked (Nat.le_of_lt_succ short)
        (binding_leads h) (binding_leads h')
      exact ⟨congrArg₂ Stmt.varDecl name tree, left⟩

/-- Behind a phrase that does not end in an `if`, there may be an `else`. -/
theorem Derivation.ends_of_closed {n : Symbol} (D : Derivation n) (closed : n.mayEndOpen = false)
    (rest : List Token) : D.endsOpen = true → ∀ t ∈ rest.head?, t.kind ≠ .elseKw := by
  rw [D.endsOpen_eq_false closed]
  exact nofun

theorem exprStmt_leads {value : Derivation (.expr .expression)} {semicolon : Terminal .semicolon}
    {ts rest : List Token} (h : (Derivation.exprStmt value semicolon).Leads ts rest) :
    value.Leads ts (semicolon.1 :: rest) := by
  obtain ⟨rfl, proper, -⟩ := h
  have lead := leads_mark (E := value) proper semicolon rest rfl
  exact ⟨(List.append_assoc _ [semicolon.1] rest).symm, lead.proper, lead.ends⟩

theorem exprStmt_settled {size : Nat} (expression : Settled size (.expr .expression)) :
    Settled size .exprStmt := by
  intro ts short D D' rest rest' h h'
  cases D with
  | exprStmt value semicolon =>
    cases D' with
    | exprStmt value' semicolon' =>
      obtain ⟨tree, left⟩ :=
        expression ts short _ _ _ _ (exprStmt_leads h) (exprStmt_leads h')
      exact ⟨congrArg Stmt.expression tree, (List.cons.inj left).2⟩

theorem block_leads {opening : Terminal .leftBrace} {body : Derivation .declarations}
    {closing : Terminal .rightBrace} {ts rest : List Token}
    (h : (Derivation.block opening body closing).Leads ts rest) :
    body.Behind opening.1 ts (closing.1 :: rest) :=
  ⟨_, h.tokens.symm, (List.append_assoc _ [closing.1] rest).symm, h.proper,
    nextAmong_cons closing rest (by decide)⟩

theorem block_settled {size : Nat} (shorter : ∀ n, Settled size n) : Settled (size + 1) .block := by
  intro ts short D D' rest rest' h h'
  cases D with
  | block opening body closing =>
    cases D' with
    | block opening' body' closing' =>
      obtain ⟨-, tree, left⟩ := (shorter _).marked (Nat.le_of_lt_succ short)
        (block_leads h) (block_leads h')
      exact ⟨tree, left⟩

theorem definition_leads {name : Terminal .identifier} {opening : Terminal .leftParen}
    {params : Derivation .parameters} {closing : Terminal .rightParen} {body : Derivation .block}
    {ts rest : List Token}
    (h : (Derivation.definition name opening params closing body).Leads ts rest) :
    ∃ us vs, ts = name.1 :: us ∧ params.Behind opening.1 us vs ∧
      body.Behind closing.1 vs rest := by
  obtain ⟨rfl, ⟨-, proper⟩, -⟩ := h
  exact ⟨_, closing.1 :: (body.tokens ++ rest), rfl,
    ⟨_, rfl, (List.append_assoc _ (closing.1 :: body.tokens) rest).symm, params.proper_parameters,
      nextAmong_cons closing _ (by decide)⟩,
    ⟨_, rfl, rfl, proper, body.ends_of_closed rfl rest⟩⟩

theorem definition_settled {size : Nat} (shorter : ∀ n, Settled size n) :
    Settled (size + 1) .definition := by
  intro ts short D D' rest rest' h h'
  cases D with
  | definition name opening params closing body =>
    cases D' with
    | definition name' opening' params' closing' body' =>
      obtain ⟨us, vs, rfl, ahead, behind⟩ := definition_leads h
      obtain ⟨us', vs', same, ahead', behind'⟩ := definition_leads h'
      obtain ⟨name, rfl⟩ := List.cons.inj same
      have fewer : us.length ≤ size := Nat.le_of_lt (Nat.lt_of_succ_lt_succ short)
      obtain ⟨-, params, rfl⟩ := (shorter _).behind fewer ahead ahead'
      have fewer := Nat.le_of_lt (ahead.length_lt fewer)
      obtain ⟨-, body, left⟩ := (shorter _).behind fewer behind behind'
      exact ⟨(Function.mk.injEq ..).mpr ⟨name, params, body⟩, left⟩

theorem function_settled {size : Nat} (definition : Settled size .definition) :
    Settled size .function := by
  intro ts short D D' rest rest' h h'
  cases D with
  | function F =>
    cases D' with
    | function F' =>
      exact definition ts short F F' rest rest' ⟨h.tokens, h.proper, F.ends_of_closed rfl rest⟩
        ⟨h'.tokens, h'.proper, F'.ends_of_closed rfl rest'⟩

/-- One more method. -/
def MethodItem (size : Nat) (ts : List Token) (f : List Function → List Function)
    (rest : List Token) : Prop :=
  ts.length ≤ size ∧
    ∃ method : Derivation .function, method.Leads ts rest ∧ f = fun ms => ms ++ [method.tree]

theorem methods_rounds {size : Nat} (D : Derivation .methods) {ts rest : List Token}
    (short : ts.length ≤ size) (proper : D.Proper) (tokens : D.tokens ++ rest = ts) :
    Relation.ReflTransGen (Round (MethodItem size)) ([], ts) (D.tree, rest) := by
  match D with
  | .noMethods =>
    obtain rfl : rest = ts := tokens
    exact .refl
  | .anotherMethod methods method =>
    have whole : methods.tokens ++ (method.tokens ++ rest) = ts :=
      (List.append_assoc _ _ rest).symm.trans tokens
    exact (methods_rounds methods short proper.1 whole).tail ⟨_, ⟨length_behind whole short,
      method, ⟨rfl, proper.2, method.ends_of_closed rfl rest⟩, rfl⟩, rfl⟩

theorem methods_settled {size : Nat} (function : Settled (size + 1) .function) :
    Settled (size + 1) .methods := by
  refine settled_of_rounds (fun ts s => s = ([], ts)) (MethodItem size) ?_ ?_
    (fun D ts _ short h => ⟨_, rfl, methods_rounds D (Nat.le_of_lt_succ short) h.proper h.tokens⟩)
    ?_
  · rintro ts s s' - rfl rfl
    rfl
  · rintro ts f f' us us' ⟨short, method, lead, rfl⟩ ⟨-, method', lead', rfl⟩
    obtain ⟨tree, left⟩ := function ts (Nat.lt_succ_of_le short) _ _ _ _ lead lead'
    exact ⟨by rw [tree], left⟩
  · rintro _ _ ends _ _ ⟨-, method, lead, -⟩
    exact method.not_next rfl ends (by decide) lead.tokens

/-- A declaration with more behind it leads up to them. -/
theorem moreDeclarations_leads {first : Derivation .declaration} {more : Derivation .declarations}
    {ts rest : List Token} (h : (Derivation.moreDeclarations first more).Leads ts rest) :
    ∃ us, first.Leads ts us ∧ more.Leads us rest := by
  obtain ⟨rfl, proper, ends⟩ := h
  have next : NextAmong [.rightBrace] rest := ends
  have other : ∀ t ∈ rest.head?, t.kind ≠ .elseKw := by
    intro t first
    rw [List.mem_singleton.mp (next t first)]
    decide
  exact ⟨_, ⟨(List.append_assoc _ _ rest).symm, proper.1,
    fun _ => declarations_head_ne_else more other⟩, rfl, proper.2, next⟩

theorem declarations_settled {size : Nat} (shorter : ∀ n, Settled size n)
    (declaration : Settled (size + 1) .declaration) : Settled (size + 1) .declarations := by
  intro ts short D D' rest rest' h h'
  cases D with
  | noDeclarations =>
    obtain rfl : rest = ts := h.tokens
    cases D' with
    | noDeclarations => exact ⟨rfl, h'.tokens.symm⟩
    | moreDeclarations first' more' =>
      obtain ⟨us, lead, -⟩ := moreDeclarations_leads h'
      exact absurd lead.tokens (first'.not_next rfl h.ends (by decide))
  | moreDeclarations first more =>
    obtain ⟨us, lead, behind⟩ := moreDeclarations_leads h
    cases D' with
    | noDeclarations =>
      obtain rfl : rest' = ts := h'.tokens
      exact absurd lead.tokens (first.not_next rfl h'.ends (by decide))
    | moreDeclarations first' more' =>
      obtain ⟨us', lead', behind'⟩ := moreDeclarations_leads h'
      obtain ⟨tree, rfl⟩ := declaration ts short first first' us us' lead lead'
      obtain ⟨trees, left⟩ := shorter _ us (lead.length_lt rfl short) _ _ _ _ behind behind'
      exact ⟨congrArg₂ List.cons tree trees, left⟩

theorem forInit_settled {size : Nat} (binding : Settled size .binding)
    (exprStmt : Settled size .exprStmt) : Settled size .forInit := by
  intro ts short D D' rest rest' h h'
  have same := opening?_unique rfl h h'
  cases D with
  | noInit semicolon =>
    cases D' with
    | noInit semicolon' =>
      exact ⟨rfl, (List.cons.inj (h.tokens.trans h'.tokens.symm)).2⟩
    | _ => cases same
  | varInit keyword B =>
    cases D' with
    | varInit keyword' B' =>
      obtain ⟨-, tree, left⟩ := binding.behind (Nat.le_of_lt short)
        ⟨_, h.tokens.symm, rfl, h.proper, B.ends_of_closed rfl rest⟩
        ⟨_, h'.tokens.symm, rfl, h'.proper, B'.ends_of_closed rfl rest'⟩
      exact ⟨congrArg some tree, left⟩
    | _ => cases same
  | exprInit E =>
    cases D' with
    | exprInit E' =>
      obtain ⟨tree, left⟩ := exprStmt ts short E E' rest rest'
        ⟨h.tokens, h.proper, E.ends_of_closed rfl rest⟩
        ⟨h'.tokens, h'.proper, E'.ends_of_closed rfl rest'⟩
      exact ⟨congrArg some tree, left⟩
    | _ => cases same

/-- The superclass of a class is told from its body by the first token. -/
theorem superclass_unique {parent parent' : Option (Terminal .less × Terminal .identifier)}
    {opening opening' : Terminal .leftBrace} {us us' : List Token}
    (same : (parent.elim [] fun s => [s.1.1, s.2.1]) ++ opening.1 :: us =
      (parent'.elim [] fun s => [s.1.1, s.2.1]) ++ opening'.1 :: us') :
    parent.map (·.2.1) = parent'.map (·.2.1) ∧ opening.1 :: us = opening'.1 :: us' := by
  match parent, parent' with
  | none, none => exact ⟨rfl, same⟩
  | none, some _ => exact (clash same).elim
  | some _, none => exact (clash same).elim
  | some s, some s' =>
    obtain ⟨-, same⟩ := List.cons.inj same
    obtain ⟨name, same⟩ := List.cons.inj same
    exact ⟨congrArg some name, same⟩

theorem classDecl_leads {keyword : Terminal .classKw} {name : Terminal .identifier}
    {parent : Option (Terminal .less × Terminal .identifier)} {opening : Terminal .leftBrace}
    {methods : Derivation .methods} {closing : Terminal .rightBrace} {ts rest : List Token}
    (h : (Derivation.classDecl keyword name parent opening methods closing).Leads ts rest) :
    ∃ us, ts = keyword.1 :: name.1 :: ((parent.elim [] fun s => [s.1.1, s.2.1]) ++
        opening.1 :: us) ∧ methods.Leads us (closing.1 :: rest) := by
  obtain ⟨rfl, proper, -⟩ := h
  refine ⟨methods.tokens ++ closing.1 :: rest, ?_, rfl, proper,
    nextAmong_cons closing rest (by decide)⟩
  have body : (parent.elim [] fun s => [s.1.1, s.2.1]) ++
      opening.1 :: (methods.tokens ++ [closing.1]) ++ rest =
      (parent.elim [] fun s => [s.1.1, s.2.1]) ++ opening.1 :: (methods.tokens ++ closing.1 :: rest)
      := by simp only [List.append_assoc, List.cons_append, List.nil_append]
  exact congrArg (keyword.1 :: name.1 :: ·) body

theorem classDecl_unique {size : Nat} (shorter : ∀ n, Settled size n)
    {keyword keyword' : Terminal .classKw} {name name' : Terminal .identifier}
    {parent parent' : Option (Terminal .less × Terminal .identifier)}
    {opening opening' : Terminal .leftBrace} {methods methods' : Derivation .methods}
    {closing closing' : Terminal .rightBrace} {ts rest rest' : List Token}
    (short : ts.length ≤ size)
    (h : (Derivation.classDecl keyword name parent opening methods closing).Leads ts rest)
    (h' : (Derivation.classDecl keyword' name' parent' opening' methods' closing').Leads ts rest') :
    Stmt.classDecl name.1 (parent.map (·.2.1)) methods.tree =
      Stmt.classDecl name'.1 (parent'.map (·.2.1)) methods'.tree ∧ rest = rest' := by
  obtain ⟨us, rfl, lead⟩ := classDecl_leads h
  obtain ⟨us', same, lead'⟩ := classDecl_leads h'
  obtain ⟨-, same⟩ := List.cons.inj same
  obtain ⟨name, same⟩ := List.cons.inj same
  obtain ⟨parent, same⟩ := superclass_unique same
  obtain ⟨-, rfl⟩ := List.cons.inj same
  have fewer : us.length < size := by
    simp only [List.length_cons, List.length_append] at short
    omega
  obtain ⟨tree, left⟩ := shorter _ us fewer _ _ _ _ lead lead'
  exact ⟨by rw [name, parent, tree], (List.cons.inj left).2⟩

theorem declaration_settled {size : Nat} (shorter : ∀ n, Settled size n)
    (statement : Settled (size + 1) .statement) : Settled (size + 1) .declaration := by
  intro ts short D D' rest rest' h h'
  have same := opening?_unique rfl h h'
  have fewer : ts.length ≤ size := Nat.le_of_lt_succ short
  cases D with
  | classDecl =>
    cases D' with
    | classDecl => exact classDecl_unique shorter fewer h h'
    | _ => cases same
  | funDecl keyword F =>
    cases D' with
    | funDecl keyword' F' =>
      obtain ⟨-, tree, left⟩ := (shorter _).behind fewer
        ⟨_, h.tokens.symm, rfl, h.proper, F.ends_of_closed rfl rest⟩
        ⟨_, h'.tokens.symm, rfl, h'.proper, F'.ends_of_closed rfl rest'⟩
      exact ⟨congrArg Stmt.function tree, left⟩
    | _ => cases same
  | varDecl keyword B =>
    cases D' with
    | varDecl keyword' B' =>
      obtain ⟨-, tree, left⟩ := (shorter _).behind fewer
        ⟨_, h.tokens.symm, rfl, h.proper, B.ends_of_closed rfl rest⟩
        ⟨_, h'.tokens.symm, rfl, h'.proper, B'.ends_of_closed rfl rest'⟩
      exact ⟨tree, left⟩
    | _ => cases same
  | ofStatement S =>
    cases D' with
    | ofStatement S' =>
      exact statement ts short S S' rest rest' ⟨h.tokens, h.proper, h.ends⟩
        ⟨h'.tokens, h'.proper, h'.ends⟩
    | _ => cases same

theorem print_leads {ts rest : List Token} {keyword : Terminal .printKw}
    {value : Derivation (.expr .expression)} {semicolon : Terminal .semicolon}
    (h : (Derivation.print keyword value semicolon).Leads ts rest) :
    value.Behind keyword.1 ts (semicolon.1 :: rest) := by
  obtain ⟨rfl, proper, -⟩ := h
  exact ⟨_, congrArg (keyword.1 :: ·) (List.append_assoc _ [semicolon.1] rest),
    leads_mark proper semicolon rest rfl⟩

theorem ret_leads {ts rest : List Token} {keyword : Terminal .returnKw}
    {value : Derivation .optional} {semicolon : Terminal .semicolon}
    (h : (Derivation.ret keyword value semicolon).Leads ts rest) :
    value.Behind keyword.1 ts (semicolon.1 :: rest) :=
  ⟨_, h.tokens.symm, (List.append_assoc _ [semicolon.1] rest).symm, h.proper,
    by cases value <;> exact nextAmong_cons semicolon rest (by decide)⟩

theorem whileLoop_leads {ts rest : List Token} {keyword : Terminal .whileKw}
    {opening : Terminal .leftParen} {condition : Derivation (.expr .expression)}
    {closing : Terminal .rightParen} {body : Derivation .statement}
    (h : (Derivation.whileLoop keyword opening condition closing body).Leads ts rest) :
    ∃ us vs, ts = keyword.1 :: us ∧ condition.Behind opening.1 us vs ∧
      body.Behind closing.1 vs rest := by
  obtain ⟨rfl, ⟨proper, proper'⟩, ends⟩ := h
  refine ⟨opening.1 :: (condition.tokens ++ closing.1 :: (body.tokens ++ rest)), _, ?_,
    ⟨_, rfl, leads_mark proper closing _ rfl⟩, ⟨_, rfl, rfl, proper', ends⟩⟩
  exact congrArg (keyword.1 :: opening.1 :: ·)
    (List.append_assoc _ (closing.1 :: body.tokens) rest)

theorem forLoop_leads {ts rest : List Token} {keyword : Terminal .forKw}
    {opening : Terminal .leftParen} {init : Derivation .forInit} {condition : Derivation .optional}
    {semicolon : Terminal .semicolon} {increment : Derivation .optional}
    {closing : Terminal .rightParen} {body : Derivation .statement}
    (h : (Derivation.forLoop keyword opening init condition semicolon increment closing body).Leads
      ts rest) :
    ∃ us vs ws xs, ts = keyword.1 :: us ∧ init.Behind opening.1 us vs ∧ condition.Leads vs ws ∧
      increment.Behind semicolon.1 ws xs ∧ body.Behind closing.1 xs rest := by
  obtain ⟨rfl, ⟨properInit, properCondition, properIncrement, properBody⟩, ends⟩ := h
  have next (value : Derivation .optional) {kind : TokenKind} (mark : Terminal kind)
      (us : List Token) (closes : kind ∈ [TokenKind.semicolon, .rightParen]) :
      value.EndsBefore (mark.1 :: us) := by
    cases value <;> exact nextAmong_cons mark us closes
  let xs := closing.1 :: (body.tokens ++ rest)
  let ws := semicolon.1 :: (increment.tokens ++ xs)
  refine ⟨opening.1 :: (init.tokens ++ (condition.tokens ++ ws)), _, ws, xs, ?_,
    ⟨_, rfl, rfl, properInit, init.ends_of_closed rfl _⟩,
    ⟨rfl, properCondition, next condition semicolon _ (by decide)⟩,
    ⟨_, rfl, rfl, properIncrement, next increment closing _ (by decide)⟩,
    ⟨_, rfl, rfl, properBody, ends⟩⟩
  have clauses : init.tokens ++ (condition.tokens ++ semicolon.1 ::
      (increment.tokens ++ closing.1 :: body.tokens)) ++ rest =
      init.tokens ++ (condition.tokens ++ ws) := by
    simp only [List.append_assoc, List.cons_append, ws, xs]
  exact congrArg (keyword.1 :: opening.1 :: ·) clauses

/-- The branch of an `if` is complete in front of what stands behind it, as no `else` that could
join it stands there. -/
theorem thenBranch_ends {rest : List Token} {thenBranch : Derivation .statement}
    {tail : Derivation .elseTail} (nearest : tail.hasElse = true → thenBranch.endsOpen = false)
    (ends : tail.EndsBefore rest) : thenBranch.EndsBefore (tail.tokens ++ rest) := by
  cases tail with
  | noElse => exact fun _ => ends rfl
  | elseBranch keyword branch =>
    intro opens
    rw [nearest rfl] at opens
    cases opens

theorem ifElse_leads {ts rest : List Token} {keyword : Terminal .ifKw}
    {opening : Terminal .leftParen} {condition : Derivation (.expr .expression)}
    {closing : Terminal .rightParen} {thenBranch : Derivation .statement}
    {tail : Derivation .elseTail}
    (h : (Derivation.ifElse keyword opening condition closing thenBranch tail).Leads ts rest) :
    ∃ us vs ws, ts = keyword.1 :: us ∧ condition.Behind opening.1 us vs ∧
      thenBranch.Behind closing.1 vs ws ∧ tail.Leads ws rest := by
  obtain ⟨rfl, ⟨properCondition, properThen, properTail, nearest⟩, ends⟩ := h
  let vs := closing.1 :: (thenBranch.tokens ++ (tail.tokens ++ rest))
  refine ⟨opening.1 :: (condition.tokens ++ vs), vs, _, ?_,
    ⟨_, rfl, leads_mark properCondition closing _ rfl⟩,
    ⟨_, rfl, rfl, properThen, thenBranch_ends nearest ends⟩, ⟨rfl, properTail, ends⟩⟩
  have parts : condition.tokens ++ closing.1 :: (thenBranch.tokens ++ tail.tokens) ++ rest =
      condition.tokens ++ vs := by
    simp only [List.append_assoc, List.cons_append, vs]
  exact congrArg (keyword.1 :: opening.1 :: ·) parts

theorem elseTail_settled {size : Nat} (shorter : ∀ n, Settled size n) :
    Settled (size + 1) .elseTail := by
  intro ts short D D' rest rest' h h'
  have other {rest us : List Token} (h : Derivation.noElse.Leads ts rest) {t : Terminal .elseKw} :
      t.1 :: us ≠ ts := by
    rintro rfl
    exact h.ends rfl t.1 (by rw [show rest = _ from h.tokens]; rfl) t.2
  cases D with
  | noElse =>
    cases D' with
    | noElse => exact ⟨rfl, h.tokens.trans h'.tokens.symm⟩
    | elseBranch => exact absurd h'.tokens (other h)
  | elseBranch keyword branch =>
    cases D' with
    | noElse => exact absurd h.tokens (other h')
    | elseBranch keyword' branch' =>
      obtain ⟨-, tree, left⟩ := (shorter _).behind (Nat.le_of_lt_succ short)
        ⟨_, h.tokens.symm, rfl, h.proper, h.ends⟩ ⟨_, h'.tokens.symm, rfl, h'.proper, h'.ends⟩
      exact ⟨congrArg some tree, left⟩

theorem form_settled {size : Nat} (shorter : ∀ n, Settled size n)
    (exprStmt : Settled (size + 1) .exprStmt) (block : Settled (size + 1) .block) :
    Settled (size + 1) .form := by
  intro ts short D D' rest rest' h h'
  have same := opening?_unique rfl h h'
  have fewer : ts.length ≤ size := Nat.le_of_lt_succ short
  have behind {t t' : Token} {us us' : List Token} (tokens : ts = t :: us)
      (tokens' : ts = t' :: us') : us = us' ∧ us.length ≤ size := by
    subst tokens
    exact ⟨(List.cons.inj tokens').2, Nat.le_of_succ_le fewer⟩
  cases D with
  | ofExprStmt E =>
    cases D' with
    | ofExprStmt E' =>
      exact exprStmt ts short E E' rest rest' ⟨h.tokens, h.proper, E.ends_of_closed rfl rest⟩
        ⟨h'.tokens, h'.proper, E'.ends_of_closed rfl rest'⟩
    | _ => cases same
  | print keyword value semicolon =>
    cases D' with
    | print keyword' value' semicolon' =>
      obtain ⟨-, tree, left⟩ := (shorter _).marked fewer (print_leads h) (print_leads h')
      exact ⟨congrArg Stmt.print tree, left⟩
    | _ => cases same
  | ret keyword value semicolon =>
    cases D' with
    | ret keyword' value' semicolon' =>
      obtain ⟨keyword, tree, left⟩ := (shorter _).marked fewer (ret_leads h) (ret_leads h')
      exact ⟨congrArg₂ Stmt.ret keyword tree, left⟩
    | _ => cases same
  | whileLoop =>
    cases D' with
    | whileLoop =>
      obtain ⟨us, vs, tokens, condition, body⟩ := whileLoop_leads h
      obtain ⟨us', vs', tokens', condition', body'⟩ := whileLoop_leads h'
      obtain ⟨rfl, fewer⟩ := behind tokens tokens'
      obtain ⟨-, tree, rfl⟩ := (shorter _).behind fewer condition condition'
      have fewer := Nat.le_of_lt (condition.length_lt fewer)
      obtain ⟨-, tree', left⟩ := (shorter _).behind fewer body body'
      exact ⟨congrArg₂ Stmt.whileLoop tree tree', left⟩
    | _ => cases same
  | forLoop =>
    cases D' with
    | forLoop =>
      obtain ⟨us, vs, ws, xs, tokens, init, condition, increment, body⟩ := forLoop_leads h
      obtain ⟨us', vs', ws', xs', tokens', init', condition', increment', body'⟩ :=
        forLoop_leads h'
      obtain ⟨rfl, fewer⟩ := behind tokens tokens'
      obtain ⟨-, treeInit, rfl⟩ := (shorter _).behind fewer init init'
      have fewer := init.length_lt fewer
      obtain ⟨treeCondition, rfl⟩ := shorter _ vs fewer _ _ _ _ condition condition'
      have fewer := length_behind condition.tokens (Nat.le_of_lt fewer)
      obtain ⟨-, treeIncrement, rfl⟩ := (shorter _).behind fewer increment increment'
      have fewer := Nat.le_of_lt (increment.length_lt fewer)
      obtain ⟨-, treeBody, left⟩ := (shorter _).behind fewer body body'
      refine ⟨?_, left⟩
      change loop _ _ _ _ = loop _ _ _ _
      rw [treeInit, treeCondition, treeIncrement, treeBody]
    | _ => cases same
  | ifElse =>
    cases D' with
    | ifElse =>
      obtain ⟨us, vs, ws, tokens, condition, thenBranch, tail⟩ := ifElse_leads h
      obtain ⟨us', vs', ws', tokens', condition', thenBranch', tail'⟩ := ifElse_leads h'
      obtain ⟨rfl, fewer⟩ := behind tokens tokens'
      obtain ⟨-, treeCondition, rfl⟩ := (shorter _).behind fewer condition condition'
      have fewer := Nat.le_of_lt (condition.length_lt fewer)
      obtain ⟨-, treeThen, rfl⟩ := (shorter _).behind fewer thenBranch thenBranch'
      obtain ⟨treeElse, left⟩ := shorter _ ws (thenBranch.length_lt fewer) _ _ _ _ tail tail'
      refine ⟨?_, left⟩
      change Stmt.ifElse _ _ _ = Stmt.ifElse _ _ _
      rw [treeCondition, treeThen, treeElse]
    | _ => cases same
  | ofBlock B =>
    cases D' with
    | ofBlock B' =>
      obtain ⟨tree, left⟩ := block ts short B B' rest rest'
        ⟨h.tokens, h.proper, B.ends_of_closed rfl rest⟩
        ⟨h'.tokens, h'.proper, B'.ends_of_closed rfl rest'⟩
      exact ⟨congrArg Stmt.block tree, left⟩
    | _ => cases same

theorem statement_settled {size : Nat} (form : Settled size .form) : Settled size .statement := by
  intro ts short D D' rest rest' h h'
  cases D with
  | statement F =>
    cases D' with
    | statement F' =>
      exact form ts short F F' rest rest' ⟨h.tokens, h.proper, h.ends⟩
        ⟨h'.tokens, h'.proper, h'.ends⟩

/-- All symbols are settled in front of any number of tokens, by induction on their number: what a
phrase starts with is settled first, and behind a token fewer are left. -/
theorem settled (size : Nat) : ∀ n, Settled size n := by
  induction size with
  | zero => exact fun _ _ short => absurd short (Nat.not_lt_zero _)
  | succ size shorter =>
    have call := call_settled shorter (primary_settled shorter)
    have unary := unary_settled shorter call
    have binary (level : Precedence) : Settled (size + 1) (.expr (.binary level)) := by
      have factor := binary_settled shorter .factor unary
      have term := binary_settled shorter .term factor
      have comparison := binary_settled shorter .comparison term
      have equality := binary_settled shorter .equality comparison
      have conjunction := binary_settled shorter .conjunction equality
      have disjunction := binary_settled shorter .disjunction conjunction
      cases level <;> assumption
    have assignment := assignment_settled shorter (binary .disjunction)
    have expression := expression_settled assignment
    have argumentList := argumentList_settled shorter expression
    have exprStmt := exprStmt_settled expression
    have binding := binding_settled shorter
    have definition := definition_settled shorter
    have function := function_settled definition
    have block := block_settled shorter
    have form := form_settled shorter exprStmt block
    have statement := statement_settled form
    have declaration := declaration_settled shorter statement
    intro n
    cases n with
    | expr grade =>
      cases grade with
      | binary level => exact binary level
      | primary => exact primary_settled shorter
      | _ => assumption
    | arguments => exact arguments_settled argumentList
    | parameters => exact parameters_settled
    | parameterList => exact parameterList_settled
    | optional => exact optional_settled expression
    | initializer => exact initializer_settled shorter
    | methods => exact methods_settled function
    | declarations => exact declarations_settled shorter declaration
    | forInit => exact forInit_settled binding exprStmt
    | elseTail => exact elseTail_settled shorter
    | _ => assumption

/-- A program where every `else` belongs to the nearest `if` is known from its tokens. -/
theorem Derivation.tree_unique {D D' : Program} (proper : D.Proper) (proper' : D'.Proper)
    (same : D.tokens = D'.tokens) : D.tree = D'.tree := by
  have end_ (D : Program) : D.EndsBefore [] := nofun
  exact (settled _ .declarations D.tokens (Nat.lt_succ_self _) D D' [] []
    ⟨List.append_nil _, proper, end_ D⟩
    ⟨(List.append_nil _).trans same.symm, proper', end_ D'⟩).1

end LoxSyntax.Grammar
