import LoxSyntax.Program
import LoxSyntax.Proofs.Parse.ProgramCompleteness
import LoxSyntax.Proofs.Print.Statement

namespace LoxSyntax

namespace Grammar

theorem pair_rereads {isOpen : Bool} {s t : Stmt} (hs : RereadsDeclaration s)
    (ht : RereadsDeclaration t) : RereadsStatement isOpen (.block [s, t]) :=
  (block_rereads (by simp [hs, ht])).weaken

/-- What a `for` loop stands for is as open as its body, or closed by braces. -/
theorem loop_rereads {isOpen : Bool} {init : Option Stmt} {condition increment : Option Expr}
    {body : Stmt} (hinit : ∀ s ∈ init, RereadsDeclaration s)
    (hcondition : ∀ e ∈ condition, Printed e) (hincrement : ∀ e ∈ increment, Printed e)
    (hbody : RereadsStatement isOpen body) :
    RereadsStatement isOpen (loop init condition increment body) := by
  have tested : Printed (condition.getD (.constant (.bool true))) := by
    cases condition with
    | none => exact .of_primary true_rereads
    | some e => exact hcondition e rfl
  have round : RereadsStatement isOpen
      (enclosed (body :: increment.toList.map .expression)) := by
    cases increment with
    | none => exact hbody
    | some e =>
      exact pair_rereads hbody.declaration (expression_rereads (hincrement e rfl)).declaration
  have whole := whileLoop_rereads tested round
  cases init with
  | none => exact whole
  | some s => exact pair_rereads (hinit s rfl) whole.declaration

/-- What reading the text of a tree again comes to, for each kind of phrase that denotes one. -/
def Restated : {n : Symbol} → Derivation n → Prop
  | .expr .primary, D => Rereads .primary D.tree ∧ D.tree.isParenthesized = false
  | .expr .call, D => Rereads .call D.tree ∧ D.tree.isParenthesized = false
  | .expr _, D => Printed D.tree
  | .arguments, D | .argumentList, D => ∀ e ∈ D.tree, Printed e
  | .parameters, D | .parameterList, D => ∀ t ∈ D.tree, t.Named
  | .optional, D | .initializer, D => ∀ e ∈ D.tree, Printed e
  | .function, D | .definition, D => RereadsFunction D.tree
  | .methods, D => ∀ f ∈ D.tree, RereadsFunction f
  | .block, D | .declarations, D => ∀ s ∈ D.tree, RereadsDeclaration s
  | .binding, D | .declaration, D => RereadsDeclaration D.tree
  | .statement, D | .form, D => RereadsStatement D.endsOpen D.tree
  | .exprStmt, D => RereadsStatement false D.tree
  | .forInit, D => ∀ s ∈ D.tree, RereadsDeclaration s
  | .elseTail, D => ∀ s ∈ D.tree, RereadsStatement D.endsOpen s

theorem Restated.printed {level : Precedence} {D : Derivation (.expr level.tighter)}
    (h : Restated D) : Printed D.tree := by
  cases level <;> exact h

/-- The tree of every phrase that was spelled by a source is written as such a phrase. -/
theorem restated {n : Symbol} (D : Derivation n) (spelled : ∀ t ∈ D.tokens, t.Spelled)
    (proper : D.Proper) : Restated D := by
  -- An operator or an assignment is written as a primary expression, which may stand anywhere; so
  -- no case has to know what is around its phrase.
  induction D with
    simp only [Derivation.tokens, List.forall_mem_cons, List.forall_mem_append] at spelled
  | falsehood => exact ⟨false_rereads, rfl⟩
  | truth => exact ⟨true_rereads, rfl⟩
  | nothing => exact ⟨nil_rereads, rfl⟩
  | number t =>
    obtain ⟨num, den, value, finite⟩ := spelled.1.number t.2
    change Rereads .primary (.constant (t.1.literal.elim .nil .literal)) ∧ _
    rw [value]
    exact ⟨number_rereads finite, rfl⟩
  | string t =>
    obtain ⟨value, literal, inside⟩ := spelled.1.string t.2
    change Rereads .primary (.constant (t.1.literal.elim .nil .literal)) ∧ _
    rw [literal]
    exact ⟨string_rereads inside, rfl⟩
  | superMethod keyword dot method =>
    obtain ⟨first, -, named, -⟩ := spelled
    exact ⟨super_rereads keyword.2 first ⟨method.2, named⟩, rfl⟩
  | this t => exact ⟨this_rereads t.2 spelled.1, rfl⟩
  | reference t => exact ⟨reference_rereads ⟨t.2, spelled.1⟩, rfl⟩
  | group opening D closing ih =>
    obtain ⟨-, inner, -⟩ := spelled
    exact ⟨grouping_rereads (ih inner proper), rfl⟩
  | ofPrimary D ih =>
    obtain ⟨read, closed⟩ := ih spelled proper
    exact ⟨read.call, closed⟩
  | apply callee opening args closing ih ihargs =>
    obtain ⟨called, -, inner, last, -⟩ := spelled
    obtain ⟨here, there, few⟩ := proper
    exact ⟨call_rereads closing.2 last (ih called here).1 (ihargs inner there) few, rfl⟩
  | property object dot name ih =>
    obtain ⟨first, -, named, -⟩ := spelled
    exact ⟨get_rereads ⟨name.2, named⟩ (ih first proper).1, rfl⟩
  | ofCall D ih =>
    obtain ⟨read, closed⟩ := ih spelled proper
    exact ⟨read.unary, fun own => absurd own (Bool.eq_false_iff.mp closed)⟩
  | operate operator D ih =>
    obtain ⟨sign, operand⟩ := spelled
    exact ⟨unary_rereads operator.2 sign (ih operand proper).1, nofun⟩
  | ofTighter D ih => exact (ih spelled proper).printed
  | @fold level left operator right ihl ihr =>
    obtain ⟨first, sign, last⟩ := spelled
    exact .of_primary (operation_rereads level operator.2 sign (ihl first proper.1)
      (ihr last proper.2).printed)
  | ofDisjunction D ih => exact ih spelled proper
  | assign name equal D ih =>
    obtain ⟨named, -, value⟩ := spelled
    exact .of_primary (assign_rereads ⟨name.2, named⟩ (ih value proper))
  | assignProperty object dot name equal D ih ih' =>
    obtain ⟨first, -, named, -, value⟩ := spelled
    exact .of_primary (set_rereads ⟨name.2, named⟩ (ih first proper.1).1 (ih' value proper.2))
  | expression D ih => exact ih spelled proper
  | noArguments => exact nofun
  | someArguments D ih => exact ih spelled proper
  | oneArgument D ih => exact List.forall_mem_singleton.mpr (ih spelled proper)
  | anotherArgument L comma D ih ih' =>
    obtain ⟨first, -, last⟩ := spelled
    exact List.forall_mem_append.mpr
      ⟨ih first proper.1, List.forall_mem_singleton.mpr (ih' last proper.2)⟩
  | noParameters => exact List.forall_mem_nil _
  | someParameters D ih => exact ih spelled D.proper_parameterList
  | oneParameter name => exact List.forall_mem_singleton.mpr ⟨name.2, spelled.1⟩
  | anotherParameter L comma name ih =>
    obtain ⟨first, -, named, -⟩ := spelled
    exact List.forall_mem_append.mpr
      ⟨ih first L.proper_parameterList, List.forall_mem_singleton.mpr ⟨name.2, named⟩⟩
  | absent => exact nofun
  | present D ih =>
    intro _ inside
    cases inside
    exact ih spelled proper
  | noInitializer => exact nofun
  | initializer equal D ih =>
    intro _ inside
    cases inside
    exact ih spelled.2 proper
  | binding name D semicolon ih =>
    obtain ⟨named, value, -⟩ := spelled
    exact varDecl_rereads ⟨name.2, named⟩ (ih value proper)
  | function D ih => exact ih spelled proper
  | definition name opening params closing body ih ih' =>
    obtain ⟨named, -, taken, -, inner⟩ := spelled
    obtain ⟨few, proper⟩ := proper
    exact function_rereads ⟨name.2, named⟩ (ih taken params.proper_parameters) few
      (ih' inner proper)
  | noMethods => exact nofun
  | anotherMethod M D ih ih' =>
    exact List.forall_mem_append.mpr
      ⟨ih spelled.1 proper.1, List.forall_mem_singleton.mpr (ih' spelled.2 proper.2)⟩
  | block opening D closing ih =>
    obtain ⟨-, inner, -⟩ := spelled
    exact ih inner proper
  | noDeclarations => exact nofun
  | moreDeclarations F M ih ih' =>
    exact List.forall_mem_cons.mpr ⟨ih spelled.1 proper.1, ih' spelled.2 proper.2⟩
  | classDecl keyword name superclass opening M closing ih =>
    obtain ⟨-, named, extended, -, inner, -⟩ := spelled
    refine classDecl_rereads ⟨name.2, named⟩ ?_ (ih inner proper)
    cases superclass with
    | none =>
      intro _ inside
      cases inside
    | some s =>
      intro _ inside
      cases inside
      exact ⟨s.2.2, extended s.2.1 (by simp)⟩
  | funDecl keyword D ih => exact functionDecl_rereads (ih spelled.2 proper)
  | varDecl keyword D ih => exact ih spelled.2 proper
  | ofStatement D ih => exact (ih spelled proper).declaration
  | statement D ih => exact ih spelled proper
  | ofExprStmt D ih => exact ih spelled proper
  | print keyword D semicolon ih =>
    obtain ⟨-, value, -⟩ := spelled
    exact print_rereads (ih value proper)
  | ret keyword D semicolon ih =>
    obtain ⟨word, value, -⟩ := spelled
    exact ret_rereads keyword.2 word (ih value proper)
  | whileLoop keyword opening C closing B ih ih' =>
    obtain ⟨-, -, condition, -, body⟩ := spelled
    exact whileLoop_rereads (ih condition proper.1) (ih' body proper.2)
  | forLoop keyword opening I C semicolon S closing B ihI ihC ihS ihB =>
    obtain ⟨-, -, init, condition, -, increment, -, body⟩ := spelled
    obtain ⟨properI, properC, properS, properB⟩ := proper
    exact loop_rereads (ihI init properI) (ihC condition properC) (ihS increment properS)
      (ihB body properB)
  | ifElse keyword opening C closing B E ihC ihB ihE =>
    obtain ⟨-, -, condition, -, body, tail⟩ := spelled
    obtain ⟨properC, properB, properE, closed⟩ := proper
    -- The branch in front of an `else` was closed in the source, and what it is written as is too.
    have tested : Printed C.tree := ihC condition properC
    have branch : RereadsStatement B.endsOpen B.tree := ihB body properB
    have other : ∀ s ∈ E.tree, RereadsStatement E.endsOpen s := ihE tail properE
    cases E with
    | noElse => exact ifAlone_rereads tested branch
    | elseBranch els E => exact ifElse_rereads tested (closed rfl ▸ branch) (other _ rfl)
  | ofBlock D ih => exact block_rereads (ih spelled proper)
  | exprStmt D semicolon ih => exact expression_rereads (ih spelled.1 proper)
  | noInit => exact nofun
  | varInit keyword D ih =>
    intro _ inside
    cases inside
    exact ih spelled.2 proper
  | exprInit D ih =>
    intro _ inside
    cases inside
    exact (ih spelled proper).declaration
  | noElse => exact nofun
  | elseBranch keyword D ih =>
    intro _ inside
    cases inside
    exact ih spelled.2 proper

/-- The text of a program is scanned as tokens of a derivation. -/
theorem programText_written (program : List Stmt) (h : ∀ s ∈ program, RereadsDeclaration s) :
    ∃ (line : Nat) (D : Program),
      scan (programText program) = ⟨D.tokens ++ [Token.eof line], []⟩ ∧
      BodyWritten program D.tree D := by
  cases program with
  | nil =>
    have nothing : Spells Anything "".toList 1 [] 1 := .nil
    exact ⟨1, .noDeclarations, nothing.scan trivial, rfl, rfl, trivial, rfl⟩
  | cons s more =>
    obtain ⟨first, others⟩ := List.forall_mem_cons.mp h
    obtain ⟨line, F, f⟩ := first 1
    obtain ⟨line', M, spells, rest⟩ := declarations_written .newline more others line
    refine ⟨line', .moreDeclarations F M, ?_, ?_, ?_, ⟨f.proper, rest.proper⟩, ?_⟩
    · have whole : (programText (s :: more)).toList =
          s.text.toList ++ more.flatMap fun s => '\n' :: s.text.toList := by
        rw [programText, Stmt.texts, toList_intercalate_cons, Stmt.texts_eq_map, List.flatMap_map]
        rfl
      have read := f.spells.append spells fun _ _ => trivial
      rw [← whole] at read
      exact read.scan trivial
    · change F.tree.bare :: M.tree.map Stmt.bare = _
      rw [f.bare, rest.bare]
      rfl
    · change F.tree.text :: M.tree.map Stmt.text = _
      rw [f.text, rest.texts]
      rfl
    · change max F.nesting M.nesting = max s.levels (Stmt.levelsAll more)
      rw [f.nesting, rest.nesting]

end Grammar

open Grammar

/-- Every statement of a program that was read is written as a declaration. -/
theorem readProgram_rereads {source : String} {program : List Stmt}
    (h : readProgram source = .ok program) : ∀ s ∈ program, RereadsDeclaration s := by
  obtain ⟨-, quiet, rfl⟩ := readProgram_ok h
  obtain ⟨final, ⟨D, tree, read⟩, -⟩ := Parse.program_reads _ quiet
  have spelled : ∀ t ∈ D.tokens, t.Spelled := by
    intro t is
    have ahead : t ∈ (Parse.State.start (scan source).tokens).ahead := by
      rw [read.ahead]
      exact List.mem_append_left _ is
    exact scan_spelled source t ((List.takeWhile_sublist _).subset ahead)
  rw [← tree]
  exact restated D spelled read.proper

/-- The text of a program that was read is scanned as a derivation, and its nesting decides whether
it is read as what that denotes, or given up for nothing but the nesting. -/
theorem programText_outcome {source : String} {program : List Stmt}
    (h : readProgram source = .ok program) :
    ∃ D : Program, BodyWritten program D.tree D ∧ (scan (programText program)).errors = [] ∧
      (D.nesting ≤ Parse.maxDepth → readProgram (programText program) = .ok D.tree) ∧
      (Parse.maxDepth < D.nesting →
        ∃ t, readProgram (programText program) = .error ⟨[], [⟨t, .tooDeep⟩]⟩) := by
  obtain ⟨line, D, scanned, written⟩ := programText_written program (readProgram_rereads h)
  obtain ⟨fits, beyond⟩ := Parse.program_outcome D written.proper (.eof line) rfl []
  unfold readProgram
  rw [scanned]
  dsimp only
  refine ⟨D, written, rfl, fun shallow => ?_, fun deep => ?_⟩
  · rw [fits shallow]
    rfl
  · obtain ⟨t, errors⟩ := beyond deep
    rw [errors]
    exact ⟨t, rfl⟩

/-- The text of a program that was read has no fault, and is read as the same program but for
groupings, which has the same text; or it is given up for its nesting, and for nothing else. -/
theorem programText_reread {source : String} {program : List Stmt}
    (h : readProgram source = .ok program) :
    (scan (programText program)).errors = [] ∧
      ((∃ again, readProgram (programText program) = .ok again ∧
          Stmt.bareAll again = Stmt.bareAll program ∧ programText again = programText program) ∨
        ∃ t, readProgram (programText program) = .error ⟨[], [⟨t, .tooDeep⟩]⟩) := by
  obtain ⟨D, written, scanned, fits, beyond⟩ := programText_outcome h
  refine ⟨scanned, ?_⟩
  rcases Nat.lt_or_ge Parse.maxDepth D.nesting with deep | shallow
  · exact .inr (beyond deep)
  · refine .inl ⟨D.tree, fits shallow, ?_, ?_⟩
    · rw [Stmt.bareAll_eq_map, Stmt.bareAll_eq_map, written.bare]
    · rw [programText, programText, Stmt.texts_eq_map, Stmt.texts_eq_map, written.texts]

/-- An endless loop over two lines. -/
def endlessLoop : String := "for (;;)\n  print -a + 1;"

def endlessLoopTree : List Stmt := (parse (scan endlessLoop).tokens).statements

example : programText endlessLoopTree = "while (true) print (-a + 1);" := by decide +kernel

theorem programText_reread_endlessLoop :
    readProgram endlessLoop = .ok endlessLoopTree ∧
      (scan (programText endlessLoopTree)).errors = [] ∧
      ((∃ again, readProgram (programText endlessLoopTree) = .ok again ∧
          Stmt.bareAll again = Stmt.bareAll endlessLoopTree ∧
          programText again = programText endlessLoopTree) ∨
        ∃ t, readProgram (programText endlessLoopTree) = .error ⟨[], [⟨t, .tooDeep⟩]⟩) :=
  have none : Diagnostics.isEmpty ⟨(scan endlessLoop).errors,
      (parse (scan endlessLoop).tokens).errors⟩ = true := by decide +kernel
  have read : readProgram endlessLoop = .ok endlessLoopTree := if_pos none
  ⟨read, programText_reread read⟩

/-- The text of a program that was read is read again unless it nests too deep: the parentheses
that it has and the source had not count as well. -/
theorem programText_accepted_iff {source : String} {program : List Stmt}
    (h : readProgram source = .ok program) :
    (∃ again, readProgram (programText program) = .ok again) ↔
      Stmt.levelsAll program ≤ Parse.maxDepth := by
  obtain ⟨D, written, -, fits, beyond⟩ := programText_outcome h
  rw [← written.nesting]
  constructor
  · intro h'
    obtain ⟨again, read⟩ := h'
    refine Nat.le_of_not_lt fun deep => ?_
    obtain ⟨t, refused⟩ := beyond deep
    cases read.symm.trans refused
  · exact fun shallow => ⟨D.tree, fits shallow⟩

/-- `a = a = … = a`, with so many assignments. -/
def chain : Nat → Derivation (.expr .assignment)
  | 0 => .ofDisjunction (Parse.loosened (.ofPrimary (.reference (.spelled .identifier "a" 1))))
  | n + 1 => .assign (.spelled .identifier "a" 1) (.spelled .equal "=" 1) (chain n)

def chainText : Nat → String
  | 0 => "a"
  | n + 1 => "a" ++ " = " ++ chainText n

theorem chain_spells (n : Nat) : Spells Stops (chainText n).toList 1 (chain n).tokens 1 := by
  have named : (Terminal.spelled .identifier "a" 1).1.Named :=
    ⟨rfl, ⟨'a', [], rfl, rfl, nofun⟩, rfl, rfl⟩
  induction n with
  | zero => exact Spells.name named 1
  | succ n ih =>
    have whole : (chainText (n + 1)).toList =
        "a".toList ++ ' ' :: '=' :: ' ' :: (chainText n).toList := by
      simp [chainText]
    rw [whole]
    exact (Spells.name named 1).append ih.equalTo fun _ _ => .of_mark (by decide)

theorem chain_proper (n : Nat) : (chain n).Proper := by
  induction n with
  | zero => trivial
  | succ n ih => exact ih

theorem chain_nesting (n : Nat) : (chain n).nesting = n := by
  induction n with
  | zero => rfl
  | succ n ih => exact congrArg (· + 1) ih

/-- Each assignment is written in parentheses, and so nests two levels. -/
theorem chain_levels (n : Nat) : (chain n).tree.levels = 2 * n := by
  induction n with
  | zero => rfl
  | succ n ih =>
    change (chain n).tree.levels + 2 = _
    omega

theorem readProgram_chain (n : Nat) (h : n + 2 ≤ Parse.maxDepth) :
    readProgram (chainText n ++ ";") = .ok [.expression (chain n).tree] := by
  let D : Program := .moreDeclarations (.ofStatement (.statement (.ofExprStmt (.exprStmt
    (.expression (chain n)) (.spelled .semicolon ";" 1))))) .noDeclarations
  have spells : Spells Anything (chainText n ++ ";").toList 1 D.tokens 1 := by
    rw [String.toList_append]
    change Spells Anything _ 1 ((chain n).tokens ++ [_] ++ []) 1
    rw [List.append_nil]
    exact (chain_spells n).ended
  have nesting : D.nesting = n + 2 := by
    change max ((chain n).nesting + 1 + 1) 0 = n + 2
    rw [chain_nesting, Nat.max_zero]
  have read := (Parse.program_outcome D ⟨chain_proper n, trivial⟩ (.eof 1) rfl []).1 (nesting ▸ h)
  unfold readProgram
  rw [spells.scan trivial]
  dsimp only
  rw [read]
  rfl

/-- With 128 assignments, the source is read and its text is not. -/
theorem programText_accepted_iff_chain :
    readProgram (chainText 128 ++ ";") = .ok [.expression (chain 128).tree] ∧
      ¬ ∃ again, readProgram (programText [.expression (chain 128).tree]) = .ok again := by
  have read := readProgram_chain 128 (by decide)
  refine ⟨read, fun accepted => ?_⟩
  have levels : max ((chain 128).tree.levels + 2) 0 ≤ Parse.maxDepth :=
    (programText_accepted_iff read).mp accepted
  rw [chain_levels] at levels
  exact absurd levels (by decide)

end LoxSyntax
