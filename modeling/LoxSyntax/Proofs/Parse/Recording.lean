import LoxSyntax.Proofs.Parse.Rule

namespace LoxSyntax.Parse

/-- An error, and the tokens from the one at which it was found. -/
structure Mark where
  rest : List Token
  error : ParseError

/-- What can be found in the value of an assignment before its target is reported. -/
def foundInValue : List Problem := [.invalidTarget, .tooManyArguments]

/-- The second mark is at the same token or further on; or it is a target, and the first mark is in
its value, without the end of a statement between them. -/
def Mark.Before (a b : Mark) : Prop :=
  b.rest <:+ a.rest ∨
    (b.error.problem = .invalidTarget ∧ a.error.problem ∈ foundInValue ∧
      ∃ between, b.rest = between ++ a.rest ∧ ∀ t ∈ between, t.kind ≠ .semicolon)

/-- Between the states only such tokens were used up and only such errors were recorded, each found
at a token on the way, and in order. -/
structure State.Records (uses : TokenKind → Prop) (finds : Problem → Prop) (s s' : State) :
    Prop where
  stop : s'.stop = s.stop
  used : ∃ used, s.ahead = used ++ s'.ahead ∧ ∀ t ∈ used, uses t.kind
  marks : ∃ marks : List Mark, s'.errors.toList = s.errors.toList ++ marks.map Mark.error ∧
    marks.Pairwise Mark.Before ∧ ∀ m ∈ marks, m.rest <:+ s.ahead ∧ s'.ahead <:+ m.rest ∧
      m.error.token = m.rest.headD s.stop ∧ finds m.error.problem

namespace State.Records

theorem refl {uses : TokenKind → Prop} {finds : Problem → Prop} (s : State) :
    s.Records uses finds s :=
  ⟨rfl, ⟨[], rfl, List.forall_mem_nil _⟩, [], by simp, .nil, List.forall_mem_nil _⟩

theorem suffix {uses : TokenKind → Prop} {finds : Problem → Prop} {s s' : State}
    (h : s.Records uses finds s') : s'.ahead <:+ s.ahead := by
  obtain ⟨used, ahead, -⟩ := h.used
  exact ⟨used, ahead.symm⟩

/-- What is recorded later was found further on. -/
theorem trans {uses : TokenKind → Prop} {finds : Problem → Prop} {s s' s'' : State}
    (h : s.Records uses finds s') (h' : s'.Records uses finds s'') : s.Records uses finds s'' where
  stop := h'.stop.trans h.stop
  used := by
    obtain ⟨used, ahead, all⟩ := h.used
    obtain ⟨used', ahead', all'⟩ := h'.used
    exact ⟨used ++ used', by rw [ahead, ahead', List.append_assoc],
      List.forall_mem_append.mpr ⟨all, all'⟩⟩
  marks := by
    obtain ⟨marks, errors, order, within⟩ := h.marks
    obtain ⟨marks', errors', order', within'⟩ := h'.marks
    refine ⟨marks ++ marks', by simp [errors', errors], ?_, ?_⟩
    · refine List.pairwise_append.mpr ⟨order, order', fun a first b second => .inl ?_⟩
      exact (within' b second).1.trans (within a first).2.1
    · refine List.forall_mem_append.mpr ⟨fun m is => ?_, fun m is => ?_⟩
      · obtain ⟨front, back, located, found⟩ := within m is
        exact ⟨front, h'.suffix.trans back, located, found⟩
      · obtain ⟨front, back, located, found⟩ := within' m is
        exact ⟨front.trans h.suffix, back, by rw [located, h.stop], found⟩

theorem mono {uses uses' : TokenKind → Prop} {finds finds' : Problem → Prop} {s s' : State}
    (h : s.Records uses finds s') (huses : ∀ kind, uses kind → uses' kind)
    (hfinds : ∀ problem, finds problem → finds' problem) : s.Records uses' finds' s' where
  stop := h.stop
  used := by
    obtain ⟨used, ahead, all⟩ := h.used
    exact ⟨used, ahead, fun t is => huses _ (all t is)⟩
  marks := by
    obtain ⟨marks, errors, order, within⟩ := h.marks
    refine ⟨marks, errors, order, fun m is => ?_⟩
    obtain ⟨front, back, located, found⟩ := within m is
    exact ⟨front, back, located, hfinds _ found⟩

theorem withDepth {uses : TokenKind → Prop} {finds : Problem → Prop} {s s' : State}
    (h : s.Records uses finds s') (d d' : Nat) :
    State.Records uses finds { s with depth := d } { s' with depth := d' } :=
  ⟨h.stop, h.used, h.marks⟩

/-- Moving on over such tokens. -/
theorem of_append {uses : TokenKind → Prop} {finds : Problem → Prop} {s s' : State}
    {used : List Token} (stop : s'.stop = s.stop) (errors : s'.errors = s.errors)
    (ahead : s.ahead = used ++ s'.ahead) (all : ∀ t ∈ used, uses t.kind) :
    s.Records uses finds s' :=
  ⟨stop, ⟨used, ahead, all⟩, [], by simp [errors], .nil, List.forall_mem_nil _⟩

/-- An error is recorded at the current token. -/
theorem record {uses : TokenKind → Prop} {finds : Problem → Prop} (s : State) {e : ParseError}
    (located : e.token = s.current) (found : finds e.problem) :
    s.Records uses finds (s.record e) := by
  unfold State.record
  split
  · exact refl s
  · refine ⟨rfl, ⟨[], rfl, List.forall_mem_nil _⟩, [⟨s.ahead, e⟩], by simp, List.pairwise_singleton _ _, ?_⟩
    intro m is
    obtain rfl := List.mem_singleton.mp is
    exact ⟨List.suffix_rfl, List.suffix_rfl, located, found⟩

/-- An error is recorded where the failure was, in front of what recovery leaves out. -/
theorem recover (s : State) {e : ParseError} (located : e.token = s.current) :
    s.Records (fun _ => True) (fun _ => True) (s.recover e) := by
  have recorded : s.Records (fun _ => True) (fun _ => True) (s.record e) := record s located trivial
  have dropped (rest : List Token) (halted : Bool) (behind : rest <:+ (s.record e).ahead) :
      (s.record e).Records (fun _ => True) (fun _ => True)
        { s.record e with ahead := rest, halted := halted } := by
    obtain ⟨used, ahead⟩ := behind
    exact of_append rfl rfl ahead.symm fun _ _ => trivial
  unfold State.recover
  dsimp only
  split
  · exact recorded.trans (dropped [] true List.nil_suffix)
  · exact recorded.trans (dropped _ (s.record e).halted (synchronize_suffix _))

/-- An error found at the start and reported at the end, behind those found in between. -/
theorem recordLate {s s' : State} {e : ParseError}
    (h : s.Records (· ≠ .semicolon) (· ∈ foundInValue) s') (located : e.token = s.current)
    (target : e.problem = .invalidTarget) :
    s.Records (· ≠ .semicolon) (· ∈ foundInValue) (s'.record e) := by
  unfold State.record
  split
  · exact h
  · obtain ⟨used, whole, all⟩ := h.used
    obtain ⟨marks, errors, order, within⟩ := h.marks
    -- What is between the start and any of the marks was used up by the rule.
    have late : ∀ m ∈ marks, m.Before ⟨s.ahead, e⟩ := by
      intro m is
      obtain ⟨⟨between, front⟩, ⟨behind, back⟩, -, found⟩ := within m is
      have split : between ++ behind = used := by
        rw [← back, ← List.append_assoc, whole] at front
        exact List.append_cancel_right front
      refine .inr ⟨target, found, between, front.symm, fun t among => all t ?_⟩
      rw [← split]
      exact List.mem_append_left _ among
    refine ⟨h.stop, h.used, marks ++ [⟨s.ahead, e⟩], by simp [errors], ?_, ?_⟩
    · exact List.pairwise_append.mpr ⟨order, List.pairwise_singleton _ _, by simpa using late⟩
    · refine List.forall_mem_append.mpr ⟨within, fun m is => ?_⟩
      obtain rfl := List.mem_singleton.mp is
      exact ⟨List.suffix_rfl, h.suffix, located, by simp [target, foundInValue]⟩

end State.Records

namespace Rule

/-- What the rule records, however it ends; and it fails at the token that it has come to. -/
structure Records {α : Type} (uses : TokenKind → Prop) (finds : Problem → Prop) (rule : Rule α) :
    Prop where
  moves : ∀ s : State, s.Records uses finds (rule.after s)
  fails : ∀ {s e s'}, rule s = .error e s' → e.token = s'.current

/-- What the rule records where this token is the next one. -/
structure RecordsAt {α : Type} (uses : TokenKind → Prop) (finds : Problem → Prop) (t : Token)
    (rule : Rule α) : Prop where
  moves : ∀ {s : State}, s.ahead.head? = some t → s.Records uses finds (rule.after s)
  fails : ∀ {s e s'}, s.ahead.head? = some t → rule s = .error e s' → e.token = s'.current

namespace Records

theorem anywhere {α : Type} {uses : TokenKind → Prop} {finds : Problem → Prop} {rule : Rule α}
    (h : Records uses finds rule) (t : Token) : RecordsAt uses finds t rule :=
  ⟨fun _ => h.moves _, fun _ => h.fails⟩

theorem mono {α : Type} {uses : TokenKind → Prop} {finds : Problem → Prop} {rule : Rule α}
    {uses' : TokenKind → Prop} {finds' : Problem → Prop} (h : Records uses finds rule)
    (huses : ∀ kind, uses kind → uses' kind) (hfinds : ∀ problem, finds problem → finds' problem) :
    Records uses' finds' rule :=
  ⟨fun s => (h.moves s).mono huses hfinds, h.fails⟩

theorem pure {α : Type} {uses : TokenKind → Prop} {finds : Problem → Prop} (a : α) :
    Records uses finds (Pure.pure a : Rule α) where
  moves s := State.Records.refl s
  fails run := by cases run

theorem bind {α β : Type} {uses : TokenKind → Prop} {finds : Problem → Prop} {rule : Rule α}
    {f : α → Rule β} (h : Records uses finds rule) (hf : ∀ a, Records uses finds (f a)) :
    Records uses finds (rule >>= f) where
  moves := after_bind_related State.Records.trans h.moves fun a => (hf a).moves
  fails := by
    intro s e s'' both
    obtain run | ⟨a, s', -, run'⟩ := exists_of_bind_error both
    · exact h.fails run
    · exact (hf a).fails run'

theorem map {α β : Type} {uses : TokenKind → Prop} {finds : Problem → Prop} {rule : Rule α}
    (g : α → β) (h : Records uses finds rule) : Records uses finds (g <$> rule) := by
  rw [map_eq_pure_bind]
  exact h.bind fun a => pure (g a)

theorem ite {α : Type} {uses : TokenKind → Prop} {finds : Problem → Prop} {rule rule' : Rule α}
    (c : Prop) [Decidable c] (h : Records uses finds rule) (h' : Records uses finds rule') :
    Records uses finds (if c then rule else rule') := by
  split
  · exact h
  · exact h'

theorem fail {α : Type} {uses : TokenKind → Prop} {finds : Problem → Prop} (problem : Problem) :
    Records uses finds (Rule.fail problem : Rule α) where
  moves s := State.Records.refl s
  fails run := by
    cases run
    rfl

theorem isNext {uses : TokenKind → Prop} {finds : Problem → Prop} (kind : TokenKind) :
    Records uses finds (Rule.isNext kind) where
  moves s := State.Records.refl s
  fails run := by cases run

theorem descend {uses : TokenKind → Prop} {finds : Problem → Prop} :
    Records uses finds Rule.descend where
  moves s := by
    by_cases room : s.depth < maxDepth
    · rw [after_ok (descend_ok room)]
      exact (State.Records.refl s).withDepth s.depth (s.depth + 1)
    · rw [after_error (descend_error room)]
      exact State.Records.refl s
  fails := by
    intro s e s' run
    by_cases room : s.depth < maxDepth
    · cases (descend_ok room).symm.trans run
    · cases (descend_error room).symm.trans run
      rfl

theorem keepingDepth {α : Type} {uses : TokenKind → Prop} {finds : Problem → Prop} {rule : Rule α}
    (h : Records uses finds rule) : Records uses finds (Rule.keepingDepth rule) where
  moves s := by
    rw [after_keepingDepth]
    exact (h.moves s).withDepth s.depth s.depth
  fails := by
    intro s e s' run
    obtain ⟨t, inner, rfl⟩ := keepingDepth_eq_error run
    have located : e.token = t.current := h.fails inner
    exact located

theorem nested {α : Type} {uses : TokenKind → Prop} {finds : Problem → Prop} {rule : Rule α}
    (h : Records uses finds rule) : Records uses finds (Rule.nested rule) :=
  keepingDepth (descend.bind fun _ => h)

theorem bind_peek? {β : Type} {uses : TokenKind → Prop} {finds : Problem → Prop}
    {f : Option Token → Rule β} (hnone : Records uses finds (f none))
    (hsome : ∀ t, RecordsAt uses finds t (f (some t))) : Records uses finds (Rule.peek? >>= f) := by
  have peeked (s : State) : Rule.peek? s = .ok s.ahead.head? s := rfl
  refine ⟨fun s => ?_, ?_⟩
  · rw [after_bind f (peeked s)]
    cases next : s.ahead.head? with
    | none => exact hnone.moves s
    | some t => exact (hsome t).moves next
  · intro s e s' run
    rw [bind_ok f (peeked s)] at run
    cases next : s.ahead.head? with
    | none => exact hnone.fails (next ▸ run)
    | some t => exact (hsome t).fails next (next ▸ run)

/-- To take a token is to skip it, where it is there. -/
theorem bind_take? {β : Type} {uses : TokenKind → Prop} {finds : Problem → Prop}
    {kinds : List TokenKind} {f : Option Token → Rule β} (hnone : Records uses finds (f none))
    (hsome : ∀ t, t.kind ∈ kinds → RecordsAt uses finds t (Rule.skip >>= fun _ => f (some t))) :
    Records uses finds (Rule.take? kinds >>= f) := by
  refine ⟨fun s => ?_, ?_⟩
  · unfold after
    rcases take?_bind kinds f s with none | ⟨t, next, is, some⟩
    · rw [none]
      exact hnone.moves s
    · rw [some]
      exact (hsome t is).moves next
  · intro s e s' run
    rcases take?_bind kinds f s with none | ⟨t, next, is, some⟩
    · exact hnone.fails (none ▸ run)
    · exact (hsome t is).fails next (some ▸ run)

end Records

namespace RecordsAt

theorem skip_bind {α : Type} {uses : TokenKind → Prop} {finds : Problem → Prop} {rule : Rule α}
    {t : Token} (h : Records uses finds rule) (allowed : uses t.kind) :
    RecordsAt uses finds t (Rule.skip >>= fun _ => rule) := by
  have skipped (s : State) : Rule.skip s = .ok () { s with ahead := s.ahead.tail } := rfl
  refine ⟨fun {s} next => ?_, fun next run => ?_⟩
  · obtain ⟨rest, ahead⟩ := List.head?_eq_some_iff.mp next
    rw [after_bind _ (skipped s)]
    have split : s.ahead = [t] ++ s.ahead.tail := by simp [ahead]
    have taken : s.Records uses finds { s with ahead := s.ahead.tail } :=
      .of_append rfl rfl split (by simpa using allowed)
    exact taken.trans (h.moves _)
  · rw [bind_ok _ (skipped _)] at run
    exact h.fails run

/-- A target is reported at the `=` behind it, once the value is read. -/
theorem report_bind {α β : Type} {t : Token} {value : Rule α} (b : β)
    (h : RecordsAt (· ≠ .semicolon) (· ∈ foundInValue) t value) :
    RecordsAt (· ≠ .semicolon) (· ∈ foundInValue) t
      (value >>= fun _ => Rule.report ⟨t, .invalidTarget⟩ >>= fun _ => Pure.pure b) := by
  refine ⟨fun {s} next => ?_, fun {s e s'} next run => ?_⟩
  · have first := h.moves next
    obtain ⟨rest, ahead⟩ := List.head?_eq_some_iff.mp next
    have current : s.current = t := by simp [State.current, ahead]
    cases run : value s with
    | error e s' => rwa [after_bind_error _ run]
    | ok a s' =>
      rw [after_ok run] at first
      rw [after_bind _ run]
      exact first.recordLate current.symm rfl
  · obtain inner | ⟨a, t, -, reported⟩ := exists_of_bind_error run
    · exact h.fails next inner
    · cases reported

end RecordsAt

namespace Records

theorem take? {uses : TokenKind → Prop} {finds : Problem → Prop} {kinds : List TokenKind}
    (allowed : ∀ kind ∈ kinds, uses kind) : Records uses finds (Rule.take? kinds) := by
  have whole : Rule.take? kinds = Rule.take? kinds >>= Pure.pure := (bind_pure _).symm
  rw [whole]
  exact bind_take? (pure none) fun t is => .skip_bind (pure (some t)) (allowed t.kind is)

theorem accept {uses : TokenKind → Prop} {finds : Problem → Prop} {kind : TokenKind}
    (allowed : uses kind) : Records uses finds (Rule.accept kind) :=
  (take? (by simpa using allowed)).bind fun found => pure found.isSome

theorem expect {uses : TokenKind → Prop} {finds : Problem → Prop} {kind : TokenKind}
    (problem : Problem) (allowed : uses kind) : Records uses finds (Rule.expect kind problem) := by
  refine (take? (by simpa using allowed)).bind fun found => ?_
  cases found with
  | none => exact fail problem
  | some t => exact pure t

theorem behind {α : Type} {uses : TokenKind → Prop} {finds : Problem → Prop} {rule : Rule α}
    {kind : TokenKind} (allowed : uses kind) (h : Records uses finds rule) :
    Records uses finds (Rule.behind kind rule) :=
  (accept allowed).bind fun _ => ite _ (h.map some) (pure none)

theorem before {α : Type} {uses : TokenKind → Prop} {finds : Problem → Prop} {rule : Rule α}
    (kind : TokenKind) (h : Records uses finds rule) : Records uses finds (Rule.before kind rule) :=
  (isNext kind).bind fun _ => ite _ (pure none) (h.map some)

theorem addItem {α : Type} {uses : TokenKind → Prop} {finds : Problem → Prop} {rule : Rule α}
    {excess : Problem} (items : Array α) (found : finds excess) (h : Records uses finds rule) :
    Records uses finds (Rule.addItem rule excess items) := by
  have count : Records uses finds (Rule.checkCount items.size excess) := by
    refine ⟨fun s => ?_, fun run => by cases run⟩
    change s.Records uses finds (if maxArguments ≤ items.size then s.record ⟨s.current, excess⟩ else s)
    split
    · exact State.Records.record s rfl found
    · exact State.Records.refl s
  exact count.bind fun _ => h.map items.push

theorem rounds {α : Type} {uses : TokenKind → Prop} {finds : Problem → Prop}
    {step : α → Rule (Option α)} (h : ∀ a, Records uses finds (step a)) (bound : List Token)
    (a : α) : Records uses finds (Rule.rounds step bound a) := by
  induction bound generalizing a with
  | nil => exact (h a).bind fun found => pure (found.getD a)
  | cons _ bound ih =>
    refine (h a).bind fun found => ?_
    cases found with
    | none => exact pure a
    | some b => exact ih b

theorem iterate {α : Type} {uses : TokenKind → Prop} {finds : Problem → Prop}
    {step : α → Rule (Option α)} (h : ∀ a, Records uses finds (step a)) (a : α) :
    Records uses finds (Rule.iterate step a) :=
  ⟨fun s => (rounds h s.ahead a).moves s, fun run => (rounds h _ a).fails run⟩

theorem commaSeparated {α : Type} {uses : TokenKind → Prop} {finds : Problem → Prop} {rule : Rule α}
    {excess : Problem} (comma : uses .comma) (found : finds excess) (h : Records uses finds rule) :
    Records uses finds (Rule.commaSeparated rule excess) :=
  (addItem #[] found h).bind fun items =>
    (iterate (fun items => behind comma (addItem items found h)) items).bind fun all => pure all.toList

end Records

end Rule

end LoxSyntax.Parse
