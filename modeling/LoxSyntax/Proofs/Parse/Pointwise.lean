import LoxSyntax.Proofs.Grammar.Context
import LoxSyntax.Proofs.Parse.Attempts

namespace LoxSyntax.Parse

open Grammar
open Ebnf (line)
open Rule (Tries Noted)

/-- Of these phrases, only those of the one sort can start with the next token. -/
def Narrows (e e' : Ebnf) (follow : Option TokenKind → Bool) (s : State) : Prop :=
  (∀ w, Derives e w → Derives e' w) ∧
    ∀ K z, Context follow K → z.head? = s.next → after e' K z → after e K z

theorem Narrows.of_alike {e e' : Ebnf} {follow : Option TokenKind → Bool} {s : State}
    (same : ∀ w, Derives e w ↔ Derives e' w) : Narrows e e' follow s :=
  ⟨fun w => (same w).mp, fun K z _ _ behind => by rwa [after_congr same]⟩

theorem Narrows.left {e e' : Ebnf} {follow : Option TokenKind → Bool} {s : State}
    (other : e'.leads follow s.next = false) : Narrows e (.alt e e') follow s := by
  refine ⟨fun _ => .altLeft, fun K z context next behind => ?_⟩
  refine (after_alt.mp behind).resolve_right fun second => ?_
  have leads := context.leads second
  simp [next, other] at leads

theorem Narrows.right {e e' : Ebnf} {follow : Option TokenKind → Bool} {s : State}
    (other : e.leads follow s.next = false) : Narrows e' (.alt e e') follow s := by
  refine ⟨fun _ => .altRight, fun K z context next behind => ?_⟩
  refine (after_alt.mp behind).resolve_left fun first => ?_
  have leads := context.leads first
  simp [next, other] at leads

theorem Narrows.many {a : Ebnf} {follow : Option TokenKind → Bool} {s : State}
    (other : follow s.next = false) : Narrows (.seq a (.many a)) (.many a) follow s := by
  refine ⟨fun w h => ?_, fun K z context next behind => ?_⟩
  · obtain ⟨u, v, rfl, first, others⟩ := derives_seq.mp h
    exact .more first others
  · rw [after_seq]
    refine (after_many.mp behind).resolve_left fun ended => ?_
    have ends := context.heads ended
    simp [next, other] at ends

theorem next_of_any {s : State} {k : TokenKind} (is : s.next.any [k].contains = true) :
    s.next = some k := by
  cases next : s.next with
  | none => simp [next] at is
  | some k' => simpa [next] using is

/-- What starts with an `else` is a statement behind it, whatever the context. -/
theorem Narrows.ofElse {follow : Option TokenKind → Bool} {s : State} (is : s.next = some .elseKw) :
    Narrows (.seq (.mark [.elseKw]) (.phrase .statement)) (.phrase .elseTail) follow s := by
  refine ⟨fun _ => derives_else, fun K z context next behind => ?_⟩
  obtain ⟨z', rfl⟩ := List.head?_eq_some_iff.mp (next.trans is)
  rw [after_seq, after_mark]
  exact context.elseTail behind

/-- What starts with an `if` is what is guarded and the links behind it. -/
theorem Narrows.ofIf {follow : Option TokenKind → Bool} {s : State} (is : s.next = some .ifKw) :
    Narrows (.seq (line [.mark [.ifKw], .mark [.leftParen], .phrase (.expr .expression),
      .mark [.rightParen], .phrase .statement]) (.phrase .elseTail)) (.phrase .statement) follow
      s := by
  refine ⟨fun _ => derives_if, fun K z context next behind => ?_⟩
  obtain ⟨z', rfl⟩ := List.head?_eq_some_iff.mp (next.trans is)
  rw [after_seq, line, List.foldr_cons, after_seq, after_mark]
  exact behind.ifStatement

/-- Rules of a phrase and what may be next behind it, and the single states they are run from. -/
abbrev RunProperty :=
  (α : Type) → Ebnf → (Option TokenKind → Bool) → Rule α → State → Prop

/-- A rule that only moves on, and has the property from every state that is ready. -/
structure FromReady (Ready : State → Prop) (Q : RunProperty) (e : Ebnf)
    (follow : Option TokenKind → Bool) (α : Type) (rule : Rule α) : Prop where
  orderly : rule.Orderly
  holds {s : State} (live : s.halted = false) (ready : Ready s) : Q α e follow rule s

/-- What has to be known of a property of single runs for it to hold of every rule from the states
that are ready: the primitive rules, two rules one behind the other, and a block. -/
structure Pointwise (Ready : State → Prop) (Q : RunProperty) : Prop where
  stays {s : State} {depth : Nat} (ready : Ready s) : Ready { s with depth := depth }
  widen {e e' : Ebnf} {follow : Option TokenKind → Bool} {α : Type} {rule : Rule α} {s : State}
    (h : Q α e follow rule s) (narrows : Narrows e e' follow s) : Q α e' follow rule s
  congr {e : Ebnf} {follow : Option TokenKind → Bool} {α : Type} {rule rule' : Rule α} {s : State}
    (h : Q α e follow rule s) (same : rule' s = rule s)
    (tries : ∀ {level d}, Tries level d rule s → Tries level d rule' s) : Q α e follow rule' s
  still {e : Ebnf} {follow : Option TokenKind → Bool} {α : Type} {rule : Rule α} {s s' : State}
    {x : α} (run : rule s = .ok x s') (ready : Ready s') (ahead : s'.ahead = s.ahead)
    (errors : s'.errors = s.errors) (null : Derives e [])
    (only : ∀ K r, Context follow K → r.head? = s.next → after e K r → K r) : Q α e follow rule s
  limit {e : Ebnf} {follow : Option TokenKind → Bool} {α : Type} {rule : Rule α} {s : State}
    (run : rule s = .error ⟨s.current, .tooDeep⟩ s) (ready : Ready s) : Q α e follow rule s
  note {follow : Option TokenKind → Bool} (place : Token → Token) {problem : Problem}
    (noted : Noted problem) {s : State} (live : s.halted = false) (ready : Ready s) :
    Q Unit .empty follow (Rule.note place problem) s
  oneOf {kinds : List TokenKind} {follow : Option TokenKind → Bool} {problem : Problem}
    (some : kinds ≠ []) (other : problem ≠ .noMark .rightBrace .afterBlock) {s : State}
    (ready : Ready s) : Q Token (.mark kinds) follow (Rule.oneOf kinds problem) s
  bind {a b : Ebnf} {between follow : Option TokenKind → Bool} {α β : Type} {rule : Rule α}
    {f : α → Rule β} {s : State} (live : s.halted = false) (orderly : rule.Orderly)
    (orderly' : ∀ x, (f x).Orderly) (h : Q α a between rule s)
    (h' : ∀ x s', rule s = .ok x s' → Ready s' → Q β b follow (f x) s')
    (leads : ∀ next, b.leads follow next = true → between next = true)
    (closes : Rule.closing b = true) : Q β (.seq a b) follow (rule >>= f) s
  keepingDepth {e : Ebnf} {follow : Option TokenKind → Bool} {α : Type} {rule : Rule α} {s : State}
    (h : Q α e follow rule s) : Q α e follow (Rule.keepingDepth rule) s
  block {level : Nat} (each : FromReady Ready Q (.phrase .declaration) Rule.anything Stmt
      (declarationRule (rules level))) {s : State} (live : s.halted = false) (ready : Ready s) :
    Q (List Stmt) (line [.phrase .declarations, .mark [.rightBrace]]) Rule.anything
      (block (rules level)) s

namespace Pointwise

open Rule (Orderly)

theorem chooseFirst {Ready : State → Prop} {Q : RunProperty} (laws : Pointwise Ready Q) {α : Type}
    {e : Ebnf} {follow : Option TokenKind → Bool} {rule : Rule α} {s : State}
    {p : Option TokenKind → Bool} {other : Rule α} (h : Q α e follow rule s)
    (is : p s.next = true) : Q α e follow (Rule.choose p rule other) s :=
  laws.congr h (Rule.choose_first is) fun tried => .choice (by rwa [if_pos is])

theorem chooseSecond {Ready : State → Prop} {Q : RunProperty} (laws : Pointwise Ready Q) {α : Type}
    {e : Ebnf} {follow : Option TokenKind → Bool} {rule : Rule α} {s : State}
    {p : Option TokenKind → Bool} {other : Rule α} (h : Q α e follow rule s)
    (is : p s.next = false) : Q α e follow (Rule.choose p other rule) s :=
  laws.congr h (Rule.choose_second is) fun tried => .choice (by rwa [if_neg (by simp [is])])

theorem choose {Ready : State → Prop} {Q : RunProperty} (laws : Pointwise Ready Q) {α : Type}
    {a b : Ebnf} {follow : Option TokenKind → Bool} {rule : Rule α} {p : Option TokenKind → Bool}
    {other : Rule α} (h : FromReady Ready Q a follow α rule)
    (h' : FromReady Ready Q b follow α other)
    (decides : ∀ next,
      if p next then b.leads follow next = false else a.leads follow next = false) :
    FromReady Ready Q (.alt a b) follow α (Rule.choose p rule other) where
  orderly := h.orderly.choose p h'.orderly
  holds {s} live ready := by
    have apart := decides s.next
    cases is : p s.next with
    | true =>
      rw [if_pos is] at apart
      exact laws.chooseFirst (laws.widen (h.holds live ready) (.left apart)) is
    | false =>
      rw [if_neg (by simp [is])] at apart
      exact laws.chooseSecond (laws.widen (h'.holds live ready) (.right apart)) is

theorem still_empty {Ready : State → Prop} {Q : RunProperty} (laws : Pointwise Ready Q) {α : Type}
    {follow : Option TokenKind → Bool} {rule : Rule α} {s : State} {x : α} {s' : State}
    (run : rule s = .ok x s') (ready : Ready s') (ahead : s'.ahead = s.ahead)
    (errors : s'.errors = s.errors) : Q α .empty follow rule s :=
  laws.still run ready ahead errors .empty fun K r _ _ behind => by rwa [after_empty] at behind

theorem pure {Ready : State → Prop} {Q : RunProperty} (laws : Pointwise Ready Q) {α : Type}
    {follow : Option TokenKind → Bool} (x : α) : FromReady Ready Q .empty follow α (Pure.pure x) :=
  ⟨Rule.pure_orderly x, fun _ ready => laws.still_empty rfl ready rfl rfl⟩

theorem then_ {Ready : State → Prop} {Q : RunProperty} (laws : Pointwise Ready Q) {α β : Type}
    {a b : Ebnf} {follow between : Option TokenKind → Bool} {rule : Rule α} {f : α → Rule β}
    (h : FromReady Ready Q a between α rule) (h' : ∀ x, FromReady Ready Q b follow β (f x))
    (leads : ∀ next, b.leads follow next = true → between next = true)
    (closes : Rule.closing b = true) : FromReady Ready Q (.seq a b) follow β (rule >>= f) where
  orderly := h.orderly.bind fun x => (h' x).orderly
  holds live ready := laws.bind live h.orderly (fun x => (h' x).orderly) (h.holds live ready)
    (fun x _ run ready' => (h' x).holds (h.orderly.live_ok run live) ready') leads closes

theorem alike {Ready : State → Prop} {Q : RunProperty} (laws : Pointwise Ready Q) {α : Type}
    {e e' : Ebnf} {follow : Option TokenKind → Bool} {rule : Rule α}
    (h : FromReady Ready Q e follow α rule) (same : ∀ w, Derives e w ↔ Derives e' w) :
    FromReady Ready Q e' follow α rule :=
  ⟨h.orderly, fun live ready => laws.widen (h.holds live ready) (.of_alike same)⟩

theorem map {Ready : State → Prop} {Q : RunProperty} (laws : Pointwise Ready Q) {α β : Type}
    {e : Ebnf} {follow : Option TokenKind → Bool} {rule : Rule α} (g : α → β)
    (h : FromReady Ready Q e follow α rule) : FromReady Ready Q e follow β (g <$> rule) := by
  rw [map_eq_pure_bind]
  refine laws.alike (laws.then_ h (fun x => laws.pure (g x)) (fun next behind => ?_) rfl)
    fun _ => derives_seq_empty
  rwa [Rule.Descent.leads_empty] at behind

/-- A loop, by induction on the tokens ahead: every round uses up some. -/
theorem iterate {Ready : State → Prop} {Q : RunProperty} (laws : Pointwise Ready Q) {α : Type}
    {a : Ebnf} {follow between : Option TokenKind → Bool} {step : α → Rule (Option α)}
    {body : α → Rule α} {goesOn : Option TokenKind → Bool}
    (shape : ∀ x, step x = Rule.choose goesOn (some <$> body x) (Pure.pure none))
    (advances : ∀ x, (step x).Advances) (each : ∀ x, FromReady Ready Q a between α (body x))
    (leads : ∀ next, (Ebnf.many a).leads follow next = true → between next = true)
    (decides : ∀ next, if goesOn next then follow next = false else next.any a.starts = false)
    (solid : a.nullable = false) (closes : Rule.closing (.many a) = true) (x : α) :
    FromReady Ready Q (.many a) follow α (Rule.iterate step x) := by
  have orderly (x : α) : (step x).Orderly := by
    rw [shape]
    exact ((each x).orderly.map some).choose goesOn (Rule.pure_orderly none)
  refine ⟨.iterate orderly advances x, fun {s} live ready => ?_⟩
  induction length : s.ahead.length using Nat.strongRecOn generalizing s x with
  | ind n ih =>
    have apart := decides s.next
    rw [Rule.iterate_eq_choose advances (shape x)]
    cases is : goesOn s.next with
    | false =>
      rw [if_neg (by simp [is])] at apart
      refine laws.chooseSecond (laws.still rfl ready rfl rfl .none fun K r context next behind => ?_) is
      refine (after_many.mp behind).resolve_right fun more => ?_
      have starts := more.starts solid
      simp [next, apart] at starts
    | true =>
      rw [if_pos is] at apart
      have rounds : Q α (.seq a (.many a)) follow (body x >>= Rule.iterate step) s := by
        refine laws.bind live (each x).orderly (.iterate orderly advances)
          ((each x).holds live ready) (fun y s' run ready' => ?_) leads closes
        have shorter : s'.ahead.length < s.ahead.length := by
          refine advances x s y s' ?_
          rw [shape, Rule.choose_first is, map_eq_pure_bind, Rule.bind_ok _ run]
          rfl
        exact ih _ (length ▸ shorter) y ((each x).orderly.live_ok run live) ready' rfl
      exact laws.chooseFirst (laws.widen rounds (.many apart)) is

theorem keyword {Ready : State → Prop} {Q : RunProperty} (laws : Pointwise Ready Q)
    (kind : TokenKind) :
    FromReady Ready Q (.mark [kind]) Rule.anything Token (Rule.oneOf [kind] .noExpression) :=
  ⟨Rule.oneOf_orderly _ _, fun _ ready => laws.oneOf (by simp) (by simp) ready⟩

theorem deeper {Ready : State → Prop} {Q : RunProperty} (laws : Pointwise Ready Q)
    {follow : Option TokenKind → Bool} : FromReady Ready Q .empty follow Unit Rule.descend where
  orderly := Rule.descend_orderly
  holds {s} _ ready := by
    by_cases room : s.depth < maxDepth
    · exact laws.still_empty (Rule.descend_ok room) (laws.stays ready) rfl rfl
    · exact laws.limit (Rule.descend_error room) ready

theorem elseIf {Ready : State → Prop} {Q : RunProperty} (laws : Pointwise Ready Q) {inner : Rules}
    (guard : FromReady Ready Q (line [.mark [.leftParen], .phrase (.expr .expression),
      .mark [.rightParen], .phrase .statement]) Rule.anything (Expr × Stmt) (guarded inner))
    (links : Links) :
    FromReady Ready Q (line [.mark [.ifKw], .mark [.leftParen], .phrase (.expr .expression),
      .mark [.rightParen], .phrase .statement]) Rule.anything Links (Rule.elseIf inner links) := by
  have inside : FromReady Ready Q (line [.mark [.leftParen], .phrase (.expr .expression),
      .mark [.rightParen], .phrase .statement]) Rule.anything Links
      (Rule.descend >>= fun _ =>
        (fun g => { links with guards := links.guards.push g }) <$> guarded inner) :=
    laws.alike (laws.then_ laws.deeper (fun _ => laws.map _ guard) (fun _ => id) rfl) fun _ =>
      derives_empty_seq
  exact laws.then_ (laws.keyword .ifKw) (fun _ => inside) (fun _ _ => rfl) rfl

theorem links_orderly {Ready : State → Prop} {Q : RunProperty} {inner : Rules}
    (advances : ∀ links, (elseLink inner links).Advances)
    (guard : FromReady Ready Q (line [.mark [.leftParen], .phrase (.expr .expression),
      .mark [.rightParen], .phrase .statement]) Rule.anything (Expr × Stmt) (guarded inner))
    (branch : FromReady Ready Q (.phrase .statement) Rule.anything Stmt (statement inner))
    (links : Links) : (Rule.iterate (elseLink inner) links).Orderly :=
  .iterate (Rule.elseLink_orderly guard.orderly branch.orderly) advances links

/-- What stands behind an `else` is a statement. What starts with an `if` is one with links of its
own, and with them the others are read. -/
theorem behindElse {Ready : State → Prop} {Q : RunProperty} (laws : Pointwise Ready Q)
    {inner : Rules} (advances : ∀ links, (elseLink inner links).Advances)
    (guard : FromReady Ready Q (line [.mark [.leftParen], .phrase (.expr .expression),
      .mark [.rightParen], .phrase .statement]) Rule.anything (Expr × Stmt) (guarded inner))
    (branch : FromReady Ready Q (.phrase .statement) Rule.anything Stmt (statement inner))
    {links : Links} (open_ : links.last = none) {s : State} (live : s.halted = false)
    (ready : Ready s)
    (further : ∀ {links : Links} {s' : State}, links.last = none →
      s'.halted = false → Ready s' → s'.ahead.length ≤ s.ahead.length →
      Q Links (.phrase .elseTail) Rule.anything (Rule.iterate (elseLink inner) links) s') :
    Q Links (.phrase .statement) Rule.anything (Rule.choose (·.any [TokenKind.ifKw].contains)
      (Rule.elseIf inner links >>= Rule.iterate (elseLink inner))
      (Rule.lastElse inner links >>= Rule.iterate (elseLink inner))) s := by
  have orderly := links_orderly advances guard branch
  cases isIf : s.next.any [TokenKind.ifKw].contains with
  | true =>
    have another := laws.elseIf guard links
    have both := laws.bind live another.orderly orderly (another.holds live ready)
      (fun links' s' run ready' => further ((Rule.elseIf_last run).trans open_)
        (another.orderly.live_ok run live) ready' (another.orderly.extends_ok run).ahead.length_le)
      (fun _ _ => rfl) rfl
    exact laws.chooseFirst (laws.widen both (.ofIf (next_of_any isIf))) isIf
  | false =>
    have last : FromReady Ready Q (.phrase .statement) Rule.anything Links
        (Rule.lastElse inner links) := laws.map _ branch
    have both := laws.bind live last.orderly orderly (last.holds live ready)
      (fun links' s' run ready' => by
        rw [iterate_elseLink_closed advances (Rule.lastElse_last run)]
        have done : FromReady Ready Q .empty Rule.anything Links (Pure.pure links') :=
          laws.pure links'
        exact done.holds (last.orderly.live_ok run live) ready')
      (fun _ _ => rfl) rfl
    exact laws.chooseSecond (laws.widen both (.of_alike fun _ => derives_seq_empty)) isIf

theorem chain {Ready : State → Prop} {Q : RunProperty} (laws : Pointwise Ready Q) {inner : Rules}
    (advances : ∀ links, (elseLink inner links).Advances)
    (guard : FromReady Ready Q (line [.mark [.leftParen], .phrase (.expr .expression),
      .mark [.rightParen], .phrase .statement]) Rule.anything (Expr × Stmt) (guarded inner))
    (branch : FromReady Ready Q (.phrase .statement) Rule.anything Stmt (statement inner))
    {links : Links} (open_ : links.last = none) :
    FromReady Ready Q (.phrase .elseTail) Rule.anything Links
      (Rule.iterate (elseLink inner) links) := by
  have orderly := links_orderly advances guard branch
  refine ⟨orderly links, fun {s} live ready => ?_⟩
  induction length : s.ahead.length using Nat.strongRecOn generalizing s links with
  | ind n ih =>
    rw [Rule.iterate_elseLink advances open_]
    cases is : s.next.any [TokenKind.elseKw].contains with
    | false =>
      refine laws.chooseSecond (laws.still rfl ready rfl rfl (.phrase (.altRight .empty))
        fun K r context next behind => ?_) is
      rw [after_phrase, loose, Ebnf.optional] at behind
      rcases after_alt.mp behind with some | none
      · have starts : r.head?.any _ = true := some.starts rfl
        rw [next] at starts
        cases first : s.next with
        | none => simp [first] at starts
        | some k => simp_all [Ebnf.starts, Ebnf.nullable, line]
      · rwa [after_empty] at none
    | true =>
      have keyword := laws.keyword .elseKw
      have goesOn (t : Token) : (Rule.choose (·.any [TokenKind.ifKw].contains)
          (Rule.elseIf inner links >>= Rule.iterate (elseLink inner))
          (Rule.lastElse inner links >>= Rule.iterate (elseLink inner))).Orderly :=
        ((laws.elseIf guard links).orderly.bind orderly).choose _
          ((branch.orderly.map _).bind orderly)
      have both := laws.bind live keyword.orderly goesOn (keyword.holds live ready)
        (fun t s' run ready' => by
          have shorter := Rule.Consumes.expect .elseKw .noExpression s t s' run
          exact laws.behindElse advances guard branch open_ (keyword.orderly.live_ok run live)
            ready' fun open' live' ready'' within => ih _ (by omega) open' live' ready'' rfl)
        (fun _ _ => rfl) rfl
      exact laws.chooseFirst (laws.widen both (.ofElse (next_of_any is))) is

/-- Such a property holds of all rules. -/
theorem descent {Ready : State → Prop} {Q : RunProperty} (laws : Pointwise Ready Q) :
    Rule.Descent (FromReady Ready Q) where
  alike h same := laws.alike h same
  pure := laws.pure
  tooDeep := ⟨Rule.fail_orderly .tooDeep, fun _ ready => laws.limit rfl ready⟩
  note place _ noted := ⟨Rule.note_orderly place noted, laws.note place noted⟩
  descend := laws.deeper
  oneOf some other := ⟨Rule.oneOf_orderly _ _, fun _ ready => laws.oneOf some other ready⟩
  bind first second leads closes := laws.then_ first second leads closes
  choose first second decides := laws.choose first second decides
  iterate shape advances each leads decides solid closes x :=
    laws.iterate shape advances each leads decides solid closes x
  keepingDepth inside :=
    ⟨Rule.keepingDepth_orderly inside.orderly, fun live ready =>
      laws.keepingDepth (inside.holds live ready)⟩
  block each := ⟨Rule.block_orderly _, laws.block each⟩
  chain open_ advances guard branch := laws.chain advances guard branch open_

end Pointwise

end LoxSyntax.Parse
