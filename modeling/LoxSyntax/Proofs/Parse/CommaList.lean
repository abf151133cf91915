import LoxSyntax.Proofs.Grammar.Derivation
import LoxSyntax.Proofs.Parse.Acceptance

namespace LoxSyntax.Parse

open Grammar

/-- An item of a list: its tokens, of which there is a first one, and what they denote. -/
structure Item (α : Type) where
  start : Token
  more : List Token
  value : α

def Item.tokens {α : Type} (item : Item α) : List Token := item.start :: item.more

/-- The tokens of items, and a comma between each two. -/
inductive Separated {α : Type} : List (Item α) → List Token → Prop where
  | none : Separated [] []
  | one (item : Item α) : Separated [item] item.tokens
  | more (item : Item α) (comma : Terminal .comma) {items : List (Item α)} {ts : List Token}
      (some : items ≠ []) (others : Separated items ts) :
      Separated (item :: items) (item.tokens ++ comma.1 :: ts)

/-- The tokens of items, with the same comma between each two. -/
def listed {α : Type} (comma : Terminal .comma) : List (Item α) → List Token
  | [] => []
  | [item] => item.tokens
  | item :: next :: items => item.tokens ++ comma.1 :: listed comma (next :: items)

theorem listed_separated {α : Type} (comma : Terminal .comma) (items : List (Item α)) :
    Separated items (listed comma items) := by
  induction items with
  | nil => exact .none
  | cons item items ih =>
    cases items with
    | nil => exact .one item
    | cons next items => exact .more item comma (List.cons_ne_nil next items) ih

/-- The rule reads the item at this depth, in front of a comma or of what closes the list. -/
structure Item.ReadBy {α : Type} (rule : Rule α) (depth : Nat) (item : Item α) : Prop where
  opens : item.start.kind ≠ .rightParen
  reads (s : State) (t : Token) (rest : List Token) (level : s.depth = depth)
    (ends : t.kind ∈ [TokenKind.comma, .rightParen]) :
    rule (s.facing (item.tokens ++ t :: rest)) = .ok item.value (s.facing (t :: rest))

/-- What starts a list does not close it. -/
theorem Separated.starts {α : Type} {rule : Rule α} {depth : Nat} {items : List (Item α)}
    {ts : List Token} (h : Separated items ts) (each : ∀ item ∈ items, item.ReadBy rule depth)
    (some : items ≠ []) : ∃ t us, ts = t :: us ∧ t.kind ≠ .rightParen := by
  cases h with
  | none => exact absurd rfl some
  | one item => exact ⟨_, _, rfl, (each item List.mem_cons_self).opens⟩
  | more item => exact ⟨_, _, rfl, (each item List.mem_cons_self).opens⟩

/-- The same state with more errors recorded. -/
def State.reporting (s : State) (es : List ParseError) : State :=
  { s with errors := s.errors ++ es.toArray }

theorem State.reporting_reporting (s : State) (es es' : List ParseError) :
    (s.reporting es).reporting es' = s.reporting (es ++ es') := by
  simp [reporting]

/-- The errors of items behind so many others: each past the limit is reported at its first
token. -/
def excessErrors {α : Type} (excess : Problem) (count : Nat) (items : List (Item α)) :
    List ParseError :=
  (items.drop (maxArguments - count)).map fun item => ⟨item.start, excess⟩

theorem excessErrors_cons {α : Type} (excess : Problem) (count : Nat) (item : Item α)
    (items : List (Item α)) :
    excessErrors excess count (item :: items) =
      excessErrors excess count [item] ++ excessErrors excess (count + 1) items := by
  unfold excessErrors
  rw [← List.map_append]
  congr 1
  cases room : maxArguments - count with
  | zero =>
    have none : maxArguments - (count + 1) = 0 := by omega
    simp [none]
  | succ left =>
    have fewer : maxArguments - (count + 1) = left := by omega
    simp [fewer]

namespace Rule

/-- An item past the limit is reported at its first token. -/
theorem checkCount_eq {α : Type} (excess : Problem) {s : State} (live : s.halted = false)
    (item : Item α) (count : Nat) (rest : List Token) :
    Rule.checkCount count excess (s.facing (item.tokens ++ rest)) =
      .ok () ((s.reporting (excessErrors excess count [item])).facing (item.tokens ++ rest)) := by
  have current : (s.facing (item.tokens ++ rest)).current = item.start := rfl
  unfold Rule.checkCount
  rw [current]
  by_cases full : maxArguments ≤ count
  · have one : excessErrors excess count [item] = [⟨item.start, excess⟩] := by
      simp [excessErrors, Nat.sub_eq_zero_of_le full]
    rw [if_pos full, one]
    simp [State.record, State.facing, State.reporting, live]
  · obtain ⟨left, some⟩ : ∃ left, maxArguments - count = left + 1 :=
      Nat.exists_eq_add_one.mpr (by omega)
    have none : excessErrors excess count [item] = [] := by simp [excessErrors, some]
    rw [if_neg full, none]
    simp [State.facing, State.reporting]

/-- It is read all the same. -/
theorem addItem_eq {α : Type} {rule : Rule α} {depth : Nat} (excess : Problem) {s : State}
    (live : s.halted = false) (level : s.depth = depth) {item : Item α} (h : item.ReadBy rule depth)
    (read : Array α) {t : Token} (ends : t.kind ∈ [TokenKind.comma, .rightParen])
    (rest : List Token) :
    Rule.addItem rule excess read (s.facing (item.tokens ++ t :: rest)) =
      .ok (read.push item.value)
        ((s.reporting (excessErrors excess read.size [item])).facing (t :: rest)) := by
  unfold Rule.addItem
  rw [bind_ok _ (checkCount_eq excess live item read.size (t :: rest)),
    bind_ok _ (h.reads (s.reporting _) t rest level ends)]
  rfl

/-- Behind a comma there is one more item, and others may follow. -/
theorem moreItems_comma {α : Type} {rule : Rule α} (excess : Problem) {P : State → α → State → Prop}
    (reads : rule.Yields P) (read : Array α) (s : State) (comma : Terminal .comma)
    (us : List Token) :
    moreItems rule excess read (s.facing (comma.1 :: us)) =
      (Rule.addItem rule excess read >>= moreItems rule excess) (s.facing us) := by
  conv => lhs; rw [moreItems, iterate_eq_bind (moreItems_advances reads excess), Rule.behind]
  rw [bind_assoc, bind_ok _ (accept_true comma.2), if_pos rfl, map_eq_pure_bind, bind_assoc]
  rfl

/-- The list goes on behind what was read of it, up to what closes it. The induction is on the items
that are left. -/
theorem items_eq {α : Type} {rule : Rule α} {depth : Nat} (excess : Problem)
    {P : State → α → State → Prop} (reads : rule.Yields P) {items : List (Item α)} {ts : List Token}
    (h : Separated items ts) (each : ∀ item ∈ items, item.ReadBy rule depth) (some : items ≠ [])
    {s : State} (live : s.halted = false) (level : s.depth = depth) (shallow : depth ≤ maxDepth)
    (read : Array α) (closing : Terminal .rightParen) (rest : List Token) :
    (Rule.addItem rule excess read >>= moreItems rule excess) (s.facing (ts ++ closing.1 :: rest)) =
      .ok (read ++ (items.map Item.value).toArray)
        ((s.reporting (excessErrors excess read.size items)).facing (closing.1 :: rest)) := by
  induction h generalizing read s with
  | none => exact absurd rfl some
  | one item =>
    have ends : closing.1.kind ∈ [TokenKind.comma, .rightParen] := by simp [closing.2]
    have first := addItem_eq excess live level (each item List.mem_cons_self) read ends rest
    have last : (moreItems rule excess (read.push item.value)).Accepts
        (s.reporting (excessErrors excess read.size [item])) (closing.1 :: rest) (closing.1 :: rest)
        0 (read.push item.value) :=
      .noItem reads excess _ fun t next => by
        obtain rfl := Option.some.inj next
        rw [closing.2]
        decide
    rw [bind_ok _ first, last.fits (Nat.le_trans (Nat.le_of_eq level) shallow)]
    simp
  | @more item comma items ts more others ih =>
    obtain ⟨one, behind⟩ := List.forall_mem_cons.mp each
    have ends : comma.1.kind ∈ [TokenKind.comma, .rightParen] := by simp [comma.2]
    have first := addItem_eq excess live level one read ends (ts ++ closing.1 :: rest)
    have later := @ih behind more (s.reporting (excessErrors excess read.size [item])) live level
      (read.push item.value)
    rw [State.reporting_reporting, Array.size_push, ← excessErrors_cons] at later
    rw [List.append_assoc, List.cons_append, bind_ok _ first, moreItems_comma excess reads, later]
    simp

/-- A list is read whole, whatever its length. -/
theorem commaSeparated_eq_ok {α : Type} {rule : Rule α} {depth : Nat} (excess : Problem)
    {P : State → α → State → Prop} (reads : rule.Yields P) {items : List (Item α)} {ts : List Token}
    (h : Separated items ts) (each : ∀ item ∈ items, item.ReadBy rule depth) (some : items ≠ [])
    {s : State} (live : s.halted = false) (level : s.depth = depth) (shallow : depth ≤ maxDepth)
    (closing : Terminal .rightParen) (rest : List Token) :
    Rule.commaSeparated rule excess (s.facing (ts ++ closing.1 :: rest)) =
      .ok (items.map Item.value)
        ((s.reporting (excessErrors excess 0 items)).facing (closing.1 :: rest)) := by
  have all := items_eq excess reads h each some live level shallow #[] closing rest
  rw [commaSeparated_eq, map_eq_pure_bind, bind_ok _ all]
  simp
  rfl

/-- So is one in parentheses, which may have no items. -/
theorem before_commaSeparated {α : Type} {rule : Rule α} {depth : Nat} (excess : Problem)
    {P : State → α → State → Prop} (reads : rule.Yields P) {items : List (Item α)} {ts : List Token}
    (h : Separated items ts) (each : ∀ item ∈ items, item.ReadBy rule depth) {s : State}
    (live : s.halted = false) (level : s.depth = depth) (shallow : depth ≤ maxDepth)
    (closing : Terminal .rightParen) (rest : List Token) :
    ∃ found : Option (List α), found.getD [] = items.map Item.value ∧
      Rule.before .rightParen (Rule.commaSeparated rule excess)
          (s.facing (ts ++ closing.1 :: rest)) =
        .ok found ((s.reporting (excessErrors excess 0 items)).facing (closing.1 :: rest)) := by
  have closes : closing.1.kind = .rightParen := closing.2
  unfold Rule.before
  by_cases some : items = []
  · subst some
    cases h with
    | none =>
      have next : Rule.isNext .rightParen (s.facing (closing.1 :: rest)) =
          .ok true (s.facing (closing.1 :: rest)) := by
        simp [Rule.isNext, State.facing, closes]
      refine ⟨none, rfl, ?_⟩
      rw [List.nil_append, bind_ok _ next, if_pos rfl]
      simp [excessErrors, State.reporting]
      rfl
  · have all := commaSeparated_eq_ok excess reads h each some live level shallow closing rest
    have next : Rule.isNext .rightParen (s.facing (ts ++ closing.1 :: rest)) =
        .ok false (s.facing (ts ++ closing.1 :: rest)) := by
      obtain ⟨t, us, tokens, opens⟩ := h.starts each some
      have differs : (t.kind == .rightParen) = false := by simpa using opens
      rw [tokens]
      simp [Rule.isNext, State.facing, differs]
    refine ⟨items.map Item.value, rfl, ?_⟩
    rw [bind_ok _ next, if_neg Bool.false_ne_true, map_eq_pure_bind, bind_ok _ all]
    rfl

end Rule

end LoxSyntax.Parse
