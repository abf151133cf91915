import LoxSyntax.Proofs.Grammar.Brackets
import LoxSyntax.Proofs.Grammar.Lookahead
import LoxSyntax.Proofs.Token.Kind
import Mathlib.Data.List.Basic

namespace LoxSyntax

namespace Grammar

/-- Phrases, put together of single tokens and of the symbols of the grammar. -/
inductive Ebnf where
  | empty
  /-- One token of any of these kinds. -/
  | mark (kinds : List TokenKind)
  | phrase (n : Symbol)
  | seq (first second : Ebnf)
  | alt (first second : Ebnf)
  | many (item : Ebnf)

namespace Ebnf

/-- What may be left out. -/
def optional (e : Ebnf) : Ebnf := alt e empty

/-- Phrases one behind the other. -/
def line (es : List Ebnf) : Ebnf := es.foldr seq empty

/-- One of two or more phrases. -/
def oneOf (e : Ebnf) : List Ebnf → Ebnf
  | [] => e
  | e' :: es => alt e (oneOf e' es)

end Ebnf

open Ebnf

/-- The productions of each symbol, one of them loosened: any operation may stand in front of the
`=` of an assignment, as a parser reads one there before it knows of the `=`. -/
def loose : Symbol → Ebnf
  | .expr .expression => phrase (.expr .assignment)
  | .expr .assignment => line [phrase (.expr (.binary .disjunction)),
      optional (line [mark [.equal], phrase (.expr .assignment)])]
  | .expr (.binary level) => line [phrase (.expr level.tighter),
      many (line [mark level.operators, phrase (.expr level.tighter)])]
  | .expr .unary => oneOf (line [mark [.bang, .minus], phrase (.expr .unary)])
      [phrase (.expr .call)]
  | .expr .call => line [phrase (.expr .primary), many (oneOf
      (line [mark [.leftParen], phrase .arguments, mark [.rightParen]])
      [line [mark [.dot], mark [.identifier]]])]
  | .expr .primary => oneOf
      (mark [.falseKw, .trueKw, .nilKw, .number, .string, .thisKw, .identifier])
      [line [mark [.superKw], mark [.dot], mark [.identifier]],
        line [mark [.leftParen], phrase (.expr .expression), mark [.rightParen]]]
  | .arguments => optional (phrase .argumentList)
  | .argumentList => line [phrase (.expr .expression),
      many (line [mark [.comma], phrase (.expr .expression)])]
  | .parameters => optional (phrase .parameterList)
  | .parameterList => line [mark [.identifier], many (line [mark [.comma], mark [.identifier]])]
  | .optional => optional (phrase (.expr .expression))
  | .initializer => optional (line [mark [.equal], phrase (.expr .expression)])
  | .binding => line [mark [.identifier], phrase .initializer, mark [.semicolon]]
  | .function => phrase .definition
  | .definition => line [mark [.identifier], mark [.leftParen], phrase .parameters,
      mark [.rightParen], phrase .block]
  | .methods => many (phrase .function)
  | .block => line [mark [.leftBrace], phrase .declarations, mark [.rightBrace]]
  | .declarations => many (phrase .declaration)
  | .declaration => oneOf
      (line [mark [.classKw], mark [.identifier],
        optional (line [mark [.less], mark [.identifier]]), mark [.leftBrace], phrase .methods,
        mark [.rightBrace]])
      [line [mark [.funKw], phrase .function], line [mark [.varKw], phrase .binding],
        phrase .statement]
  | .statement => phrase .form
  | .form => oneOf
      (line [mark [.forKw], mark [.leftParen], phrase .forInit, phrase .optional,
        mark [.semicolon], phrase .optional, mark [.rightParen], phrase .statement])
      [line [mark [.ifKw], mark [.leftParen], phrase (.expr .expression), mark [.rightParen],
        phrase .statement, phrase .elseTail],
      line [mark [.printKw], phrase (.expr .expression), mark [.semicolon]],
      line [mark [.returnKw], phrase .optional, mark [.semicolon]],
      line [mark [.whileKw], mark [.leftParen], phrase (.expr .expression), mark [.rightParen],
        phrase .statement],
      phrase .block, phrase .exprStmt]
  | .exprStmt => line [phrase (.expr .expression), mark [.semicolon]]
  | .forInit => oneOf (mark [.semicolon])
      [line [mark [.varKw], phrase .binding], phrase .exprStmt]
  | .elseTail => optional (line [mark [.elseKw], phrase .statement])

/-- The strings of kinds that a phrase can be. -/
inductive Derives : Ebnf → List TokenKind → Prop where
  | empty : Derives empty []
  | mark {kinds : List TokenKind} {k : TokenKind} (h : k ∈ kinds) : Derives (mark kinds) [k]
  | phrase {n : Symbol} {w : List TokenKind} (h : Derives (loose n) w) : Derives (phrase n) w
  | seq {a b : Ebnf} {u v : List TokenKind} (first : Derives a u) (second : Derives b v) :
      Derives (seq a b) (u ++ v)
  | altLeft {a b : Ebnf} {w : List TokenKind} (h : Derives a w) : Derives (alt a b) w
  | altRight {a b : Ebnf} {w : List TokenKind} (h : Derives b w) : Derives (alt a b) w
  | none {a : Ebnf} : Derives (many a) []
  | more {a : Ebnf} {u v : List TokenKind} (first : Derives a u) (others : Derives (many a) v) :
      Derives (many a) (u ++ v)

namespace Ebnf

/-- Whether a phrase can be of no tokens at all. -/
def nullable : Ebnf → Bool
  | empty | many _ => true
  | mark _ => false
  | phrase n => n.nullable
  | seq a b => a.nullable && b.nullable
  | alt a b => a.nullable || b.nullable

/-- The kinds of token that a phrase can start with. -/
def starts : Ebnf → TokenKind → Bool
  | empty, _ => false
  | mark kinds, k => kinds.contains k
  | phrase n, k => n.starts k
  | seq a b, k => a.starts k || (a.nullable && b.starts k)
  | alt a b, k => a.starts k || b.starts k
  | many a, k => a.starts k

/-- What can be next in front of a phrase, if these can be next behind it. -/
def leads (e : Ebnf) (follow : Option TokenKind → Bool) (next : Option TokenKind) : Bool :=
  next.any e.starts || (e.nullable && follow next)

end Ebnf

theorem derives_empty {w : List TokenKind} : Derives .empty w ↔ w = [] := by
  constructor
  · intro h
    cases h
    rfl
  · rintro rfl
    exact .empty

theorem derives_mark {kinds w : List TokenKind} :
    Derives (.mark kinds) w ↔ ∃ k ∈ kinds, w = [k] := by
  constructor
  · intro h
    cases h with
    | mark among => exact ⟨_, among, rfl⟩
  · rintro ⟨k, among, rfl⟩
    exact .mark among

theorem derives_phrase {n : Symbol} {w : List TokenKind} :
    Derives (.phrase n) w ↔ Derives (loose n) w :=
  ⟨fun | .phrase inside => inside, .phrase⟩

theorem derives_seq {a b : Ebnf} {w : List TokenKind} :
    Derives (.seq a b) w ↔ ∃ u v, w = u ++ v ∧ Derives a u ∧ Derives b v := by
  constructor
  · intro h
    cases h with
    | seq first second => exact ⟨_, _, rfl, first, second⟩
  · rintro ⟨u, v, rfl, first, second⟩
    exact .seq first second

theorem derives_alt {a b : Ebnf} {w : List TokenKind} :
    Derives (.alt a b) w ↔ Derives a w ∨ Derives b w :=
  ⟨fun | .altLeft first => .inl first | .altRight second => .inr second,
    fun | .inl first => .altLeft first | .inr second => .altRight second⟩

theorem derives_many {a : Ebnf} {w : List TokenKind} :
    Derives (.many a) w ↔ w = [] ∨ ∃ u v, w = u ++ v ∧ Derives a u ∧ Derives (.many a) v := by
  constructor
  · intro h
    cases h with
    | none => exact .inl rfl
    | more first others => exact .inr ⟨_, _, rfl, first, others⟩
  · rintro (rfl | ⟨u, v, rfl, first, others⟩)
    · exact .none
    · exact .more first others

theorem derives_seq_empty {a : Ebnf} {w : List TokenKind} :
    Derives (.seq a .empty) w ↔ Derives a w := by
  simp [derives_seq, derives_empty]

theorem derives_empty_seq {b : Ebnf} {w : List TokenKind} :
    Derives (.seq .empty b) w ↔ Derives b w := by
  simp [derives_seq, derives_empty]

theorem derives_alt_comm {a b : Ebnf} {w : List TokenKind} :
    Derives (.alt a b) w ↔ Derives (.alt b a) w := by
  rw [derives_alt, derives_alt, or_comm]

theorem derives_line_append {w : List TokenKind} (es es' : List Ebnf) :
    Derives (.seq (line es) (line es')) w ↔ Derives (line (es ++ es')) w := by
  induction es generalizing w with
  | nil => exact derives_empty_seq
  | cons e es ih =>
    change Derives (.seq (.seq e (line es)) (line es')) w ↔ Derives (.seq e (line (es ++ es'))) w
    simp only [derives_seq, ← ih]
    constructor
    · rintro ⟨_, v, rfl, ⟨u, u', rfl, first, second⟩, others⟩
      exact ⟨u, u' ++ v, List.append_assoc u u' v, first, u', v, rfl, second, others⟩
    · rintro ⟨u, _, rfl, first, u', v, rfl, second, others⟩
      exact ⟨u ++ u', v, (List.append_assoc u u' v).symm, ⟨u, u', rfl, first, second⟩, others⟩

theorem nullable_loose (n : Symbol) : (loose n).nullable = n.nullable := by
  cases n with
  | expr g => cases g <;> rfl
  | _ => rfl

theorem starts_loose (n : Symbol) (k : TokenKind) : (loose n).starts k = n.starts k := by
  revert k
  cases n with
  | expr g =>
    cases g with
    | binary level => cases level <;> decide
    | _ => decide
  | _ => decide

/-- The first token of a phrase is one that it can start with. -/
theorem Derives.begins {e : Ebnf} {w : List TokenKind} (h : Derives e w) :
    (w = [] ∧ e.nullable = true) ∨ ∃ k v, w = k :: v ∧ e.starts k = true := by
  induction h with
  | empty | none => exact .inl ⟨rfl, rfl⟩
  | @mark kinds k among => exact .inr ⟨k, [], rfl, by simpa [starts] using among⟩
  | @phrase n w _ ih => simpa only [nullable, starts, nullable_loose, starts_loose] using ih
  | @seq a b u v _ _ ih ih' =>
    rcases ih with ⟨rfl, null⟩ | ⟨k, u', rfl, starts⟩
    · rcases ih' with ⟨rfl, null'⟩ | ⟨k, v', rfl, starts'⟩
      · exact .inl ⟨rfl, by simp [nullable, null, null']⟩
      · exact .inr ⟨k, v', rfl, by simp [Ebnf.starts, null, starts']⟩
    · exact .inr ⟨k, u' ++ v, rfl, by simp [Ebnf.starts, starts]⟩
  | altLeft _ ih =>
    exact ih.imp (fun h => ⟨h.1, by simp [nullable, h.2]⟩)
      fun ⟨k, v, whole, starts⟩ => ⟨k, v, whole, by simp [Ebnf.starts, starts]⟩
  | altRight _ ih =>
    exact ih.imp (fun h => ⟨h.1, by simp [nullable, h.2]⟩)
      fun ⟨k, v, whole, starts⟩ => ⟨k, v, whole, by simp [Ebnf.starts, starts]⟩
  | @more a u v _ _ ih ih' =>
    rcases ih with ⟨rfl, -⟩ | ⟨k, u', rfl, starts⟩
    · exact ih'
    · exact .inr ⟨k, u' ++ v, rfl, starts⟩

/-- A phrase and what follows it start with what leads up to both. -/
theorem Derives.leads {e : Ebnf} {x r : List TokenKind} {follow : Option TokenKind → Bool}
    (h : Derives e x) (behind : follow r.head? = true) : e.leads follow (x ++ r).head? = true := by
  rcases h.begins with ⟨rfl, null⟩ | ⟨k, v, rfl, starts⟩
  · simp [Ebnf.leads, null, behind]
  · simp [Ebnf.leads, starts]

/-- Whether every `else` in a phrase belongs to a symbol of it. -/
def Ebnf.plain : Ebnf → Bool
  | empty | phrase _ => true
  | mark kinds => !kinds.contains .elseKw
  | seq a b | alt a b => a.plain && b.plain
  | many a => a.plain

theorem eq_elseTail {n : Symbol} (starts : n.starts .elseKw = true) : n = .elseTail := by
  cases n with
  | expr g => cases g with
    | binary level => cases level <;> cases starts
    | _ => cases starts
  | elseTail => rfl
  | _ => cases starts

/-- Behind an `else` that starts a phrase is a statement, and behind that such a phrase again. -/
theorem Derives.behindElse {e : Ebnf} {w : List TokenKind} (h : Derives e w)
    (plain : e.plain = true) {v : List TokenKind} (starts : w = .elseKw :: v) :
    ∃ x y, v = x ++ y ∧ Derives (.phrase .statement) x ∧ Derives e y := by
  induction h generalizing v with
  | empty | none => cases starts
  | @mark kinds k among =>
    cases starts
    simp [Ebnf.plain, among] at plain
  | @phrase n w inside _ =>
    subst starts
    rcases inside.begins with ⟨no, -⟩ | ⟨k, u, first, begins⟩
    · cases no
    · cases first
      rw [starts_loose] at begins
      cases eq_elseTail begins
      rcases derives_alt.mp inside with some | none
      · obtain ⟨_, x, whole, keyword, statement⟩ := derives_seq.mp some
        obtain ⟨_, -, rfl⟩ := derives_mark.mp keyword
        cases whole
        exact ⟨x, [], (List.append_nil x).symm, derives_seq_empty.mp statement,
          .phrase (.altRight .empty)⟩
      · cases derives_empty.mp none
  | @seq a b u v' first second ih ih' =>
    obtain ⟨plain, plain'⟩ := (Bool.and_eq_true _ _).mp plain
    cases u with
    | nil =>
      obtain ⟨x, y, whole, statement, others⟩ := ih' plain' starts
      exact ⟨x, y, whole, statement, .seq first others⟩
    | cons k u =>
      cases starts
      obtain ⟨x, y, rfl, statement, others⟩ := ih plain rfl
      exact ⟨x, y ++ v', List.append_assoc x y v', statement, .seq others second⟩
  | altLeft _ ih =>
    obtain ⟨x, y, whole, statement, others⟩ := ih ((Bool.and_eq_true _ _).mp plain).1 starts
    exact ⟨x, y, whole, statement, .altLeft others⟩
  | altRight _ ih =>
    obtain ⟨x, y, whole, statement, others⟩ := ih ((Bool.and_eq_true _ _).mp plain).2 starts
    exact ⟨x, y, whole, statement, .altRight others⟩
  | @more a u v' first others ih ih' =>
    cases u with
    | nil => exact ih' plain starts
    | cons k u =>
      cases starts
      obtain ⟨x, y, rfl, statement, first⟩ := ih plain rfl
      exact ⟨x, y ++ v', List.append_assoc x y v', statement, .more first others⟩

/-- Some string is such a phrase. -/
def Productive (e : Ebnf) : Prop := ∃ w, Derives e w

namespace Productive

theorem mark {kinds : List TokenKind} (some : kinds ≠ []) : Productive (.mark kinds) :=
  ⟨[kinds.head some], .mark (kinds.head_mem some)⟩

theorem phrase {n : Symbol} (h : Productive (loose n)) : Productive (.phrase n) :=
  h.imp fun _ => .phrase

theorem seq {a b : Ebnf} (first : Productive a) (second : Productive b) :
    Productive (.seq a b) := by
  obtain ⟨u, derives⟩ := first
  obtain ⟨v, derives'⟩ := second
  exact ⟨u ++ v, .seq derives derives'⟩

theorem left {a b : Ebnf} (h : Productive a) : Productive (.alt a b) := h.imp fun _ => .altLeft

theorem right {a b : Ebnf} (h : Productive b) : Productive (.alt a b) := h.imp fun _ => .altRight

theorem empty : Productive .empty := ⟨[], .empty⟩

theorem many {a : Ebnf} : Productive (.many a) := ⟨[], .none⟩

theorem expr (g : Grade) : Productive (.phrase (.expr g)) := by
  have primary : Productive (.phrase (.expr .primary)) := .phrase (.left (.mark nofun))
  have call : Productive (.phrase (.expr .call)) := .phrase (primary.seq (many.seq empty))
  have unary : Productive (.phrase (.expr .unary)) := .phrase (.right call)
  have looser (level : Precedence) (h : Productive (.phrase (.expr level.tighter))) :
      Productive (.phrase (.expr (.binary level))) :=
    .phrase (h.seq (many.seq empty))
  have factor := looser .factor unary
  have term := looser .term factor
  have comparison := looser .comparison term
  have equality := looser .equality comparison
  have conjunction := looser .conjunction equality
  have disjunction := looser .disjunction conjunction
  have assignment : Productive (.phrase (.expr .assignment)) :=
    .phrase (disjunction.seq (.seq (.right empty) empty))
  cases g with
  | expression => exact .phrase assignment
  | assignment => exact assignment
  | binary level => cases level <;> assumption
  | unary => exact unary
  | call => exact call
  | primary => exact primary

/-- Every symbol stands for something. -/
theorem symbol (n : Symbol) : Productive (.phrase n) := by
  have mark {k : TokenKind} : Productive (.mark [k]) := .mark nofun
  have exprStmt : Productive (.phrase .exprStmt) :=
    .phrase ((expr .expression).seq (mark.seq empty))
  have form : Productive (.phrase .form) :=
    .phrase (.right (.right (.right (.right (.right (.right exprStmt))))))
  have statement : Productive (.phrase .statement) := .phrase form
  have declarations : Productive (.phrase .declarations) := .phrase many
  have block : Productive (.phrase .block) := .phrase (mark.seq (declarations.seq (mark.seq empty)))
  have initializer : Productive (.phrase .initializer) := .phrase (.right empty)
  have parameters : Productive (.phrase .parameters) := .phrase (.right empty)
  have definition : Productive (.phrase .definition) :=
    .phrase (mark.seq (mark.seq (parameters.seq (mark.seq (block.seq empty)))))
  cases n with
  | expr g => exact expr g
  | arguments => exact .phrase (.right empty)
  | argumentList => exact .phrase ((expr .expression).seq (many.seq empty))
  | parameters => exact parameters
  | parameterList => exact .phrase (mark.seq (many.seq empty))
  | optional => exact .phrase (.right empty)
  | initializer => exact initializer
  | binding => exact .phrase (mark.seq (initializer.seq (mark.seq empty)))
  | function => exact .phrase definition
  | definition => exact definition
  | methods => exact .phrase many
  | block => exact block
  | declarations => exact declarations
  | declaration => exact .phrase (.right (.right (.right statement)))
  | statement => exact statement
  | form => exact form
  | exprStmt => exact exprStmt
  | forInit => exact .phrase (.left mark)
  | elseTail => exact .phrase (.right empty)

end Productive

/-- How many more braces are opened than closed by each phrase, if that is the same for all. -/
def Ebnf.braces : Ebnf → Option Int
  | empty => some 0
  | mark kinds => kinds.head?.bind fun k =>
      if kinds.all (brace · == brace k) then some (brace k) else none
  | phrase _ => some 0
  | seq a b => a.braces.bind fun m => b.braces.map (m + ·)
  | alt a b => if a.braces = b.braces then a.braces else none
  | many a => if a.braces = some 0 then some 0 else none

theorem braces_loose (n : Symbol) : (loose n).braces = some 0 := by
  cases n with
  | expr g =>
    cases g with
    | binary level => cases level <;> decide
    | _ => decide
  | _ => decide

theorem Derives.braces {e : Ebnf} {w : List TokenKind} (h : Derives e w) {c : Int}
    (even : e.braces = some c) : total brace w = c := by
  induction h generalizing c with
  | empty => simpa [Ebnf.braces] using even
  | @mark kinds k among =>
    cases kinds with
    | nil => cases among
    | cons first others =>
      simp only [Ebnf.braces, List.head?_cons, Option.bind_some, Option.ite_none_right_eq_some,
        List.all_eq_true, beq_iff_eq, Option.some.injEq] at even
      obtain ⟨same, rfl⟩ := even
      simpa using same k among
  | @phrase n w _ ih =>
    obtain rfl : 0 = c := by simpa [Ebnf.braces] using even
    exact ih (braces_loose n)
  | @seq a b u v _ _ ih ih' =>
    obtain ⟨m, first, n, second, rfl⟩ :
        ∃ m, a.braces = some m ∧ ∃ n, b.braces = some n ∧ m + n = c := by
      simpa [Ebnf.braces, Option.bind_eq_some_iff] using even
    rw [total_append, ih first, ih' second]
  | @altLeft a b w _ ih =>
    obtain ⟨-, first⟩ : a.braces = b.braces ∧ a.braces = some c := by
      simpa [Ebnf.braces] using even
    exact ih first
  | @altRight a b w _ ih =>
    obtain ⟨same, first⟩ : a.braces = b.braces ∧ a.braces = some c := by
      simpa [Ebnf.braces] using even
    exact ih (same ▸ first)
  | none =>
    obtain ⟨-, is⟩ := Option.ite_none_right_eq_some.mp even
    exact Option.some.inj is
  | @more a u v _ _ ih ih' =>
    obtain ⟨none, is⟩ := Option.ite_none_right_eq_some.mp even
    obtain rfl := Option.some.inj is
    rw [total_append, ih none, ih' even, Int.add_zero]

/-- What has braces to count is not void. -/
theorem Productive.of_braces {e : Ebnf} {c : Int} (even : e.braces = some c) : Productive e := by
  induction e generalizing c with
  | empty => exact .empty
  | mark kinds =>
    cases kinds with
    | nil => cases even
    | cons => exact .mark nofun
  | phrase n => exact .symbol n
  | seq a b ih ih' =>
    obtain ⟨m, first, n, second, -⟩ :
        ∃ m, a.braces = some m ∧ ∃ n, b.braces = some n ∧ m + n = c := by
      simpa [Ebnf.braces, Option.bind_eq_some_iff] using even
    exact (ih first).seq (ih' second)
  | alt a b ih _ =>
    obtain ⟨-, first⟩ : a.braces = b.braces ∧ a.braces = some c := by
      simpa [Ebnf.braces] using even
    exact (ih first).left
  | many a => exact .many

end Grammar

end LoxSyntax
