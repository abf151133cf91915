import LoxSyntax.Proofs.Grammar.Ebnf

namespace LoxSyntax.Grammar

open Ebnf (line)

/-- Such a phrase, and behind it a string of the context. -/
def after (e : Ebnf) (K : List TokenKind → Prop) (z : List TokenKind) : Prop :=
  ∃ x y, z = x ++ y ∧ Derives e x ∧ K y

/-- Only these may be next in the context. Where it starts with an `else` it can do without, as the
statement behind that can stand in front of the context just as well. -/
structure Context (follow : Option TokenKind → Bool) (K : List TokenKind → Prop) : Prop where
  heads {z : List TokenKind} (h : K z) : follow z.head? = true
  absorbs {z : List TokenKind} (h : K (.elseKw :: z)) : after (.phrase .statement) K z

theorem derives_else {w : List TokenKind}
    (h : Derives (.seq (.mark [.elseKw]) (.phrase .statement)) w) :
    Derives (.phrase .elseTail) w := by
  obtain ⟨u, v, rfl, keyword, statement⟩ := derives_seq.mp h
  exact .phrase (.altLeft (.seq keyword (derives_seq_empty.mpr statement)))

/-- What is guarded and the links behind it are a statement. -/
theorem derives_if {w : List TokenKind}
    (h : Derives (.seq (line [.mark [.ifKw], .mark [.leftParen],
      .phrase (.expr .expression), .mark [.rightParen], .phrase .statement])
      (.phrase .elseTail)) w) : Derives (.phrase .statement) w := by
  refine .phrase (.phrase (.altRight (.altLeft ?_)))
  refine (derives_line_append [.mark [.ifKw], .mark [.leftParen], .phrase (.expr .expression),
    .mark [.rightParen], .phrase .statement] [.phrase .elseTail]).mp ?_
  obtain ⟨u, v, rfl, guarded, links⟩ := derives_seq.mp h
  exact .seq guarded (derives_seq_empty.mpr links)

theorem after_congr {e : Ebnf} {K : List TokenKind → Prop} {e' : Ebnf}
    (same : ∀ w, Derives e w ↔ Derives e' w) : after e K = after e' K := by
  funext z
  simp only [after, same]

theorem after_empty {K : List TokenKind → Prop} : after .empty K = K := by
  funext z
  simp [after, derives_empty]

theorem after_phrase {n : Symbol} {K : List TokenKind → Prop} :
    after (.phrase n) K = after (loose n) K :=
  after_congr fun _ => derives_phrase

theorem after_seq {a b : Ebnf} {K : List TokenKind → Prop} :
    after (.seq a b) K = after a (after b K) := by
  funext z
  apply propext
  constructor
  · rintro ⟨_, y, rfl, h, behind⟩
    obtain ⟨u, v, rfl, first, second⟩ := derives_seq.mp h
    exact ⟨u, v ++ y, List.append_assoc u v y, first, v, y, rfl, second, behind⟩
  · rintro ⟨u, _, rfl, first, v, y, rfl, second, behind⟩
    exact ⟨u ++ v, y, (List.append_assoc u v y).symm, .seq first second, behind⟩

theorem after_line_one {e : Ebnf} {K : List TokenKind → Prop} : after (line [e]) K = after e K := by
  rw [line, List.foldr_cons, List.foldr_nil, after_seq, after_empty]

theorem after_mark {K : List TokenKind → Prop} {z : List TokenKind} {k : TokenKind} :
    after (.mark [k]) K (k :: z) ↔ K z := by
  constructor
  · rintro ⟨x, y, whole, h, behind⟩
    obtain ⟨k', among, rfl⟩ := derives_mark.mp h
    cases whole
    exact behind
  · exact fun behind => ⟨[k], z, rfl, .mark (List.mem_singleton_self k), behind⟩

theorem after_alt {a b : Ebnf} {K : List TokenKind → Prop} {z : List TokenKind} :
    after (.alt a b) K z ↔ after a K z ∨ after b K z := by
  simp only [after, derives_alt]
  constructor
  · rintro ⟨x, y, whole, first | second, behind⟩
    · exact .inl ⟨x, y, whole, first, behind⟩
    · exact .inr ⟨x, y, whole, second, behind⟩
  · rintro (⟨x, y, whole, first, behind⟩ | ⟨x, y, whole, second, behind⟩)
    · exact ⟨x, y, whole, .inl first, behind⟩
    · exact ⟨x, y, whole, .inr second, behind⟩

theorem after_many {a : Ebnf} {K : List TokenKind → Prop} {z : List TokenKind} :
    after (.many a) K z ↔ K z ∨ after a (after (.many a) K) z := by
  rw [← after_seq]
  constructor
  · rintro ⟨x, y, rfl, h, behind⟩
    rcases derives_many.mp h with rfl | ⟨u, v, rfl, first, others⟩
    · exact .inl behind
    · exact .inr ⟨u ++ v, y, rfl, .seq first others, behind⟩
  · rintro (behind | ⟨x, y, rfl, h, behind⟩)
    · exact ⟨[], z, rfl, .none, behind⟩
    · obtain ⟨u, v, rfl, first, others⟩ := derives_seq.mp h
      exact ⟨u ++ v, y, rfl, .more first others, behind⟩

/-- A phrase that is not empty starts with a token of its own. -/
theorem after.starts {e : Ebnf} {K : List TokenKind → Prop} {z : List TokenKind} (h : after e K z)
    (solid : e.nullable = false) : z.head?.any e.starts = true := by
  obtain ⟨x, y, rfl, derives, -⟩ := h
  rcases derives.begins with ⟨-, null⟩ | ⟨k, v, rfl, starts⟩
  · simp [solid] at null
  · exact starts

theorem after.first {a b : Ebnf} {K : List TokenKind → Prop} {z : List TokenKind} {k : TokenKind}
    (behind : after (.alt a b) K (k :: z)) (solid : b.nullable = false)
    (other : b.starts k = false) : after a K (k :: z) := by
  rcases after_alt.mp behind with first | second
  · exact first
  · have starts := second.starts solid
    simp [other] at starts

theorem after.second {a b : Ebnf} {K : List TokenKind → Prop} {z : List TokenKind} {k : TokenKind}
    (behind : after (.alt a b) K (k :: z)) (solid : a.nullable = false)
    (other : a.starts k = false) : after b K (k :: z) := by
  rcases after_alt.mp behind with first | second
  · have starts := first.starts solid
    simp [other] at starts
  · exact second

/-- What starts with an `if` is read as an `if` statement. -/
theorem after.ifStatement {K : List TokenKind → Prop} {z : List TokenKind}
    (behind : after (.phrase .statement) K (.ifKw :: z)) :
    after (line [.mark [.leftParen], .phrase (.expr .expression), .mark [.rightParen],
      .phrase .statement]) (after (.phrase .elseTail) K) z := by
  rw [after_phrase, loose, after_phrase, loose] at behind
  have guarded := (behind.second rfl rfl).first rfl rfl
  rw [line, List.foldr_cons, after_seq, after_mark] at guarded
  rw [← after_line_one (K := K), ← after_seq]
  rwa [after_congr fun _ => derives_line_append _ _]

namespace Context

/-- A phrase leads up to its context. -/
theorem leads {e : Ebnf} {K : List TokenKind → Prop} {z : List TokenKind}
    {follow : Option TokenKind → Bool} (h : Context follow K) (behind : after e K z) :
    e.leads follow z.head? = true := by
  obtain ⟨x, y, rfl, derives, inside⟩ := behind
  exact derives.leads (h.heads inside)

/-- A phrase and its context are a context of what stands in front. -/
theorem push {e : Ebnf} {K : List TokenKind → Prop} {follow between : Option TokenKind → Bool}
    (h : Context follow K) (leads : ∀ next, e.leads follow next = true → between next = true)
    (plain : e.plain = true) : Context between (after e K) where
  heads behind := leads _ (h.leads behind)
  absorbs := by
    rintro z ⟨x, y, whole, derives, inside⟩
    cases x with
    | nil =>
      subst whole
      obtain ⟨u, v, rfl, statement, behind⟩ := h.absorbs inside
      exact ⟨u, v, rfl, statement, [], v, rfl, derives, behind⟩
    | cons k x =>
      cases whole
      obtain ⟨u, v, rfl, statement, others⟩ := derives.behindElse plain rfl
      exact ⟨u, v ++ y, List.append_assoc u v y, statement, v, y, rfl, others, inside⟩

/-- An `else` may as well be the one in front of the context. -/
theorem elseTail {K : List TokenKind → Prop} {z : List TokenKind} {follow : Option TokenKind → Bool}
    (h : Context follow K) (behind : after (.phrase .elseTail) K (.elseKw :: z)) :
    after (.phrase .statement) K z := by
  rw [after_phrase, loose, Ebnf.optional] at behind
  rcases after_alt.mp behind with some | none
  · rw [line, List.foldr_cons, after_seq, after_mark] at some
    rwa [← after_line_one]
  · rw [after_empty] at none
    exact h.absorbs none

end Context

/-- Behind a program there is nothing. -/
theorem context_end {follow : Option TokenKind → Bool} (ends : follow none = true) :
    Context follow (· = []) where
  heads h := by rwa [h]
  absorbs h := by cases h

end LoxSyntax.Grammar
