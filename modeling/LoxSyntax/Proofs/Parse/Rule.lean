import LoxSyntax.Parse.Rule

namespace LoxSyntax.Parse

@[simp]
theorem State.ahead_record (s : State) (e : ParseError) : (s.record e).ahead = s.ahead := by
  unfold State.record
  split <;> rfl

@[simp]
theorem State.stop_record (s : State) (e : ParseError) : (s.record e).stop = s.stop := by
  unfold State.record
  split <;> rfl

@[simp]
theorem State.depth_record (s : State) (e : ParseError) : (s.record e).depth = s.depth := by
  unfold State.record
  split <;> rfl

@[simp]
theorem State.halted_record (s : State) (e : ParseError) : (s.record e).halted = s.halted := by
  unfold State.record
  split <;> rfl

@[simp]
theorem State.depth_recover (s : State) (e : ParseError) : (s.recover e).depth = s.depth := by
  unfold State.recover
  dsimp only
  split <;> exact s.depth_record e

/-- What recovery records does not depend on what it leaves out. -/
theorem State.errors_recover (s : State) (e : ParseError) :
    (s.recover e).errors = (s.record e).errors := by
  unfold State.recover
  dsimp only
  split <;> rfl

theorem State.errors_record {s : State} (e : ParseError) (live : s.halted = false) :
    (s.record e).errors = s.errors.push e := by
  simp [State.record, live]

theorem State.mem_record {s : State} (e : ParseError) {e' : ParseError}
    (among : e' ∈ (s.record e).errors.toList) : e' ∈ s.errors.toList ∨ e' = e := by
  unfold State.record at among
  split at among
  · exact .inl among
  · rw [Array.toList_push] at among
    exact (List.mem_append.mp among).imp_right List.mem_singleton.mp

/-- What every rule does to the state, whatever its outcome. -/
structure State.Extends (s s' : State) : Prop where
  ahead : s'.ahead <:+ s.ahead
  errors : s.errors.toList <+: s'.errors.toList
  stop : s'.stop = s.stop
  halted : s.halted = true → s'.halted = true
  /-- A parse is given up only with an error to show for it. -/
  reported : s.halted = false → s'.halted = true → s.errors.size < s'.errors.size

namespace State.Extends

theorem refl (s : State) : s.Extends s :=
  ⟨List.suffix_rfl, List.prefix_rfl, rfl, id, fun off on => by simp [off] at on⟩

theorem size_le {s s' : State} (h : s.Extends s') :
    s.errors.size ≤ s'.errors.size := h.errors.length_le

theorem trans {s s' s'' : State} (h : s.Extends s') (h' : s'.Extends s'') : s.Extends s'' where
  ahead := h'.ahead.trans h.ahead
  errors := h.errors.trans h'.errors
  stop := h'.stop.trans h.stop
  halted on := h'.halted (h.halted on)
  reported off on := by
    cases between : s'.halted with
    | true => exact Nat.lt_of_lt_of_le (h.reported off between) h'.size_le
    | false => exact Nat.lt_of_le_of_lt h.size_le (h'.reported between on)

/-- Changing the depth alone changes nothing that counts here. -/
theorem withDepth {s s' : State} (h : s.Extends s') (d d' : Nat) :
    State.Extends { s with depth := d } { s' with depth := d' } :=
  ⟨h.ahead, h.errors, h.stop, h.halted, h.reported⟩

/-- Moving on over tokens. -/
theorem of_suffix (s : State) {ts : List Token} (h : ts <:+ s.ahead) :
    s.Extends { s with ahead := ts } :=
  ⟨h, List.prefix_rfl, rfl, id, fun off on => by simp [off] at on⟩

theorem record (s : State) (e : ParseError) : s.Extends (s.record e) := by
  unfold State.record
  split
  · exact refl s
  · exact ⟨List.suffix_rfl, by simp, rfl, id, fun off on => by simp [off] at on⟩

/-- Recovery moves on, and leaves an error behind. -/
theorem recover (s : State) (e : ParseError) : s.Extends (s.recover e) := by
  have recorded := record s e
  unfold State.recover
  dsimp only
  split
  · refine ⟨List.nil_suffix, recorded.errors, recorded.stop, fun _ => rfl, fun off _ => ?_⟩
    simp [State.errors_record e off]
  · exact ⟨by simpa using synchronize_suffix s.ahead, recorded.errors, recorded.stop,
      recorded.halted, recorded.reported⟩

end State.Extends

/-- Nothing was recorded between two states of a parse that is not given up. -/
def State.Quiet (s s' : State) : Prop := s.halted = false ∧ s'.errors.size = s.errors.size

theorem State.Quiet.split {s s' s'' : State} (q : s.Quiet s'') (h : s.Extends s')
    (h' : s'.Extends s'') : s.Quiet s' ∧ s'.Quiet s'' := by
  have first := h.size_le
  have second := h'.size_le
  have size : s'.errors.size = s.errors.size := by have := q.2; omega
  refine ⟨⟨q.1, size⟩, ?_, by rw [q.2, size]⟩
  cases on : s'.halted with
  | false => rfl
  | true => have := h.reported q.1 on; omega

/-- A failure that is recovered from is not quiet. -/
theorem State.not_quiet_recover {s s' : State} (e : ParseError) (h : s.Extends s') :
    ¬ s.Quiet (s'.recover e) := by
  intro q
  obtain ⟨_, rest⟩ := q.split h (State.Extends.recover s' e)
  have size := rest.2
  simp [State.errors_recover, State.errors_record e rest.1] at size

namespace Rule

/-- The state in which a rule ends. -/
def after {α : Type} (rule : Rule α) (s : State) : State :=
  match rule s with
  | .ok _ s' => s'
  | .error _ s' => s'

theorem after_ok {α : Type} {rule : Rule α} {s s' : State} {a : α} (h : rule s = .ok a s') :
    rule.after s = s' := by
  simp only [after, h]

theorem after_error {α : Type} {rule : Rule α} {s s' : State} {e : ParseError}
    (h : rule s = .error e s') : rule.after s = s' := by
  simp only [after, h]

theorem bind_ok {α β : Type} {rule : Rule α} (f : α → Rule β) {s s' : State} {a : α}
    (h : rule s = .ok a s') : (rule >>= f) s = f a s' := by
  change EStateM.bind rule f s = _
  simp only [EStateM.bind, h]

theorem bind_error {α β : Type} {rule : Rule α} (f : α → Rule β) {s s' : State} {e : ParseError}
    (h : rule s = .error e s') : (rule >>= f) s = .error e s' := by
  change EStateM.bind rule f s = _
  simp only [EStateM.bind, h]

/-- What comes of two rules comes of the second behind the first. -/
theorem exists_of_bind_ok {α β : Type} {rule : Rule α} {f : α → Rule β} {s s'' : State} {b : β}
    (h : (rule >>= f) s = .ok b s'') : ∃ a s', rule s = .ok a s' ∧ f a s' = .ok b s'' := by
  cases run : rule s with
  | error e s' => simp [bind_error f run] at h
  | ok a s' => exact ⟨a, s', rfl, by rwa [bind_ok f run] at h⟩

/-- Two rules fail with what the first fails with, or the second behind it. -/
theorem exists_of_bind_error {α β : Type} {rule : Rule α} {f : α → Rule β} {s s'' : State}
    {e : ParseError} (h : (rule >>= f) s = .error e s'') :
    rule s = .error e s'' ∨ ∃ a s', rule s = .ok a s' ∧ f a s' = .error e s'' := by
  cases run : rule s with
  | error e' s' =>
    cases (bind_error f run).symm.trans h
    exact .inl rfl
  | ok a s' => exact .inr ⟨a, s', rfl, by rwa [bind_ok f run] at h⟩

theorem exists_of_map_ok {α β : Type} {rule : Rule α} {g : α → β} {s s' : State} {b : β}
    (h : (g <$> rule) s = .ok b s') : ∃ a, rule s = .ok a s' ∧ g a = b := by
  rw [map_eq_pure_bind] at h
  obtain ⟨a, t, run, made⟩ := exists_of_bind_ok h
  cases made
  exact ⟨a, run, rfl⟩

theorem after_bind {α β : Type} {rule : Rule α} (f : α → Rule β) {s s' : State} {a : α}
    (h : rule s = .ok a s') : (rule >>= f).after s = (f a).after s' := by
  simp only [after, bind_ok f h]

theorem after_bind_error {α β : Type} {rule : Rule α} (f : α → Rule β) {s s' : State}
    {e : ParseError} (h : rule s = .error e s') : (rule >>= f).after s = rule.after s := by
  rw [after_error (bind_error f h), after_error h]

/-- What two rules do behind the first depends on what they do in the state it ends in. -/
theorem bind_congr_at {α β : Type} {rule : Rule α} {f g : α → Rule β} {s : State}
    (same : ∀ a s', rule s = .ok a s' → f a s' = g a s') : (rule >>= f) s = (rule >>= g) s := by
  cases run : rule s with
  | error e s' => rw [bind_error f run, bind_error g run]
  | ok a s' => rw [bind_ok f run, bind_ok g run, same a s' run]

/-- What holds across each of two rules, and of two steps if it holds of both, holds across them. -/
theorem after_bind_related {α β : Type} {R : State → State → Prop} {rule : Rule α} {f : α → Rule β}
    (trans : ∀ {s s' s''}, R s s' → R s' s'' → R s s'') (first : ∀ s, R s (rule.after s))
    (second : ∀ a s, R s ((f a).after s)) (s : State) : R s ((rule >>= f).after s) := by
  have moved := first s
  cases run : rule s with
  | error e s' => rwa [after_bind_error f run]
  | ok a s' =>
    rw [after_ok run] at moved
    rw [after_bind f run]
    exact trans moved (second a s')

/-- To take a token is to skip it, if it is there and of these kinds. -/
theorem take?_bind {β : Type} (kinds : List TokenKind) (f : Option Token → Rule β) (s : State) :
    (Rule.take? kinds >>= f) s = f none s ∨ ∃ t, s.ahead.head? = some t ∧ t.kind ∈ kinds ∧
      (Rule.take? kinds >>= f) s = (Rule.skip >>= fun _ => f (some t)) s := by
  cases ahead : s.ahead with
  | nil =>
    have none : Rule.take? kinds s = .ok none s := by simp only [Rule.take?, ahead]
    exact .inl (bind_ok f none)
  | cons t rest =>
    by_cases taken : t.kind ∈ kinds
    · have some : Rule.take? kinds s = .ok (some t) { s with ahead := rest } := by
        simp [Rule.take?, ahead, taken]
      have skip : Rule.skip s = .ok () { s with ahead := rest } := by simp [Rule.skip, ahead]
      refine .inr ⟨t, rfl, taken, ?_⟩
      rw [bind_ok _ some, bind_ok _ skip]
    · have none : Rule.take? kinds s = .ok none s := by simp [Rule.take?, ahead, taken]
      exact .inl (bind_ok f none)

theorem descend_ok {s : State} (room : s.depth < maxDepth) :
    Rule.descend s = .ok () { s with depth := s.depth + 1 } := if_pos room

theorem descend_error {s : State} (full : ¬ s.depth < maxDepth) :
    Rule.descend s = .error ⟨s.current, .tooDeep⟩ s := if_neg full

theorem descend_eq_ok {s s' : State} (run : Rule.descend s = .ok () s') :
    s.depth < maxDepth ∧ s' = { s with depth := s.depth + 1 } := by
  by_cases room : s.depth < maxDepth
  · cases (descend_ok room).symm.trans run
    exact ⟨room, rfl⟩
  · cases (descend_error room).symm.trans run

theorem keepingDepth_ok {α : Type} {rule : Rule α} {s s' : State} {a : α}
    (run : rule s = .ok a s') : Rule.keepingDepth rule s = .ok a { s' with depth := s.depth } := by
  simp only [Rule.keepingDepth, run]

theorem keepingDepth_error {α : Type} {rule : Rule α} {s s' : State} {e : ParseError}
    (run : rule s = .error e s') :
    Rule.keepingDepth rule s = .error e { s' with depth := s.depth } := by
  simp only [Rule.keepingDepth, run]

theorem keepingDepth_eq_ok {α : Type} {rule : Rule α} {s s' : State} {a : α}
    (run : Rule.keepingDepth rule s = .ok a s') :
    ∃ t, rule s = .ok a t ∧ s' = { t with depth := s.depth } := by
  cases inner : rule s with
  | error e t => cases (keepingDepth_error inner).symm.trans run
  | ok b t =>
    cases (keepingDepth_ok inner).symm.trans run
    exact ⟨t, rfl, rfl⟩

theorem keepingDepth_eq_error {α : Type} {rule : Rule α} {s s' : State} {e : ParseError}
    (run : Rule.keepingDepth rule s = .error e s') :
    ∃ t, rule s = .error e t ∧ s' = { t with depth := s.depth } := by
  cases inner : rule s with
  | ok b t => cases (keepingDepth_ok inner).symm.trans run
  | error e' t =>
    cases (keepingDepth_error inner).symm.trans run
    exact ⟨t, rfl, rfl⟩

theorem after_keepingDepth {α : Type} (rule : Rule α) (s : State) :
    (Rule.keepingDepth rule).after s = { rule.after s with depth := s.depth } := by
  unfold after Rule.keepingDepth
  cases rule s <;> rfl

theorem nested_eq_ok {α : Type} {rule : Rule α} {s s' : State} {a : α}
    (run : Rule.nested rule s = .ok a s') : s.depth < maxDepth ∧
    ∃ t, rule { s with depth := s.depth + 1 } = .ok a t ∧ s' = { t with depth := s.depth } := by
  obtain ⟨t, inner, rfl⟩ := keepingDepth_eq_ok run
  obtain ⟨_, _, down, inside⟩ := exists_of_bind_ok inner
  obtain ⟨room, rfl⟩ := descend_eq_ok down
  exact ⟨room, t, inside, rfl⟩

/-- A rule only moves on, and a result that comes without an error relates the states as told. -/
structure Yields {α : Type} (rule : Rule α) (post : State → α → State → Prop) : Prop where
  moves : ∀ s : State, s.Extends (rule.after s)
  reads : ∀ {s a s'}, rule s = .ok a s' → s.Quiet s' → post s a s'

namespace Yields

theorem imp {α : Type} {P : State → α → State → Prop} {rule : Rule α}
    {P' : State → α → State → Prop} (h : Yields rule P) (w : ∀ s a s', P s a s' → P' s a s') :
    Yields rule P' :=
  ⟨h.moves, fun run quiet => w _ _ _ (h.reads run quiet)⟩

theorem pure {α : Type} (a : α) : Yields (Pure.pure a : Rule α) (fun s b s' => b = a ∧ s' = s) where
  moves s := State.Extends.refl s
  reads := by
    intro s b s' h _
    cases h
    exact ⟨rfl, rfl⟩

theorem bind {α β : Type} {P : State → α → State → Prop} {Q : α → State → β → State → Prop}
    {rule : Rule α} {f : α → Rule β} (h : Yields rule P) (hf : ∀ a, Yields (f a) (Q a)) :
    Yields (rule >>= f) (fun s b s'' => ∃ a s', P s a s' ∧ Q a s' b s'') where
  moves := after_bind_related State.Extends.trans h.moves fun a => (hf a).moves
  reads := by
    intro s b s'' both quiet
    obtain ⟨a, s', run, run'⟩ := exists_of_bind_ok both
    have first := h.moves s
    have second := (hf a).moves s'
    rw [after_ok run] at first
    rw [after_ok run'] at second
    obtain ⟨q, q'⟩ := quiet.split first second
    exact ⟨a, s', h.reads run q, (hf a).reads run' q'⟩

theorem map {α β : Type} {P : State → α → State → Prop} {rule : Rule α} (g : α → β)
    (h : Yields rule P) : Yields (g <$> rule) (fun s b s' => ∃ a, P s a s' ∧ b = g a) := by
  rw [map_eq_pure_bind]
  apply (h.bind fun a => Yields.pure (g a)).imp
  intro s b s'' h'
  obtain ⟨a, s', first, rfl, rfl⟩ := h'
  exact ⟨a, first, rfl⟩

theorem ite {α : Type} {P : State → α → State → Prop} {r r' : Rule α}
    {P' : State → α → State → Prop} (c : Prop) [Decidable c] (h : Yields r P) (h' : Yields r' P') :
    Yields (if c then r else r') (fun s a s' => if c then P s a s' else P' s a s') := by
  split <;> assumption

theorem fail {α : Type} {P : State → α → State → Prop} (problem : Problem) :
    Yields (Rule.fail problem : Rule α) P where
  moves s := State.Extends.refl s
  reads := by
    intro s a s' h
    cases h

/-- A rule that reports something is not quiet. -/
theorem report (e : ParseError) : Yields (Rule.report e) (fun _ _ _ => False) where
  moves s := State.Extends.record s e
  reads := by
    intro s a s' h quiet
    cases h
    have size := quiet.2
    simp [State.errors_record e quiet.1] at size

/-- The next token is taken where it is of these kinds, and otherwise nothing happens. -/
theorem take? (kinds : List TokenKind) :
    Yields (Rule.take? kinds) (fun s found s' => match found with
      | some t => t.kind ∈ kinds ∧ s.ahead = t :: s'.ahead ∧ s'.depth = s.depth
      | none => s' = s ∧ ∀ t ∈ s.ahead.head?, t.kind ∉ kinds) where
  moves s := by
    unfold after Rule.take?
    cases ahead : s.ahead with
    | nil => exact State.Extends.refl s
    | cons t rest =>
      by_cases taken : kinds.contains t.kind
      · simp only [if_pos taken]
        exact State.Extends.of_suffix s (by rw [ahead]; exact List.suffix_cons t rest)
      · simp only [if_neg taken]
        exact State.Extends.refl s
  reads := by
    intro s found s' run quiet
    unfold Rule.take? at run
    cases ahead : s.ahead with
    | nil =>
      rw [ahead] at run
      cases run
      simp
    | cons t rest =>
      rw [ahead] at run
      by_cases taken : kinds.contains t.kind
      · simp only [if_pos taken] at run
        cases run
        exact ⟨by simpa using taken, rfl, rfl⟩
      · simp only [if_neg taken] at run
        cases run
        exact ⟨rfl, by simpa using taken⟩

theorem accept (kind : TokenKind) :
    Yields (Rule.accept kind) (fun s found s' =>
      if found then ∃ t, t.kind = kind ∧ s.ahead = t :: s'.ahead ∧ s'.depth = s.depth
      else s' = s ∧ ∀ t ∈ s.ahead.head?, t.kind ≠ kind) := by
  apply ((take? [kind]).bind fun found => Yields.pure found.isSome).imp
  intro s b s'' h
  obtain ⟨found, s', first, rfl, rfl⟩ := h
  cases found with
  | none => simpa using first
  | some t => exact ⟨t, by simpa using first.1, first.2⟩

theorem expect (kind : TokenKind) (problem : Problem) :
    Yields (Rule.expect kind problem) (fun s t s' =>
      t.kind = kind ∧ s.ahead = t :: s'.ahead ∧ s'.depth = s.depth) := by
  refine ((take? [kind]).bind (Q := fun found s t s' => found = some t ∧ s' = s)
    fun found => ?_).imp ?_
  · cases found with
    | none => exact Yields.fail problem
    | some t => exact (Yields.pure t).imp fun s b s' h => ⟨by rw [h.1], h.2⟩
  · intro s t s'' h'
    obtain ⟨found, s', first, rfl, rfl⟩ := h'
    exact ⟨by simpa using first.1, first.2⟩

theorem peek? : Yields Rule.peek? (fun s found s' => found = s.ahead.head? ∧ s' = s) where
  moves s := State.Extends.refl s
  reads := by
    intro s a s' h _
    cases h
    exact ⟨rfl, rfl⟩

theorem skip : Yields Rule.skip (fun s _ s' => s'.ahead = s.ahead.tail ∧ s'.depth = s.depth) where
  moves s := State.Extends.of_suffix s (List.tail_suffix s.ahead)
  reads := by
    intro s a s' h _
    cases h
    exact ⟨rfl, rfl⟩

theorem isNext (kind : TokenKind) :
    Yields (Rule.isNext kind) (fun s found s' =>
      found = s.ahead.head?.any (·.kind == kind) ∧ s' = s) where
  moves s := State.Extends.refl s
  reads := by
    intro s a s' h _
    cases h
    exact ⟨rfl, rfl⟩

theorem descend :
    Yields Rule.descend
      (fun s _ s' => s.depth < maxDepth ∧ s' = { s with depth := s.depth + 1 }) where
  moves s := by
    by_cases room : s.depth < maxDepth
    · rw [after_ok (descend_ok room)]
      exact (State.Extends.refl s).withDepth s.depth (s.depth + 1)
    · rw [after_error (descend_error room)]
      exact State.Extends.refl s
  reads run _ := descend_eq_ok run

theorem keepingDepth {α : Type} {P : State → α → State → Prop} {rule : Rule α} (h : Yields rule P) :
    Yields (Rule.keepingDepth rule) (fun s a s' =>
      ∃ inner, P s a inner ∧ s' = { inner with depth := s.depth }) where
  moves s := by
    rw [after_keepingDepth]
    exact (h.moves s).withDepth s.depth s.depth
  reads := by
    intro s a s' run quiet
    obtain ⟨t, inner, rfl⟩ := keepingDepth_eq_ok run
    exact ⟨t, h.reads inner quiet, rfl⟩

theorem nested {α : Type} {P : State → α → State → Prop} {rule : Rule α} (h : Yields rule P) :
    Yields (Rule.nested rule) (fun s a s' => s.depth < maxDepth ∧
      ∃ inner, P { s with depth := s.depth + 1 } a inner ∧ s' = { inner with depth := s.depth }) := by
  apply (keepingDepth (descend.bind fun _ => h)).imp
  intro s a s' h'
  obtain ⟨inner, ⟨_, below, ⟨room, rfl⟩, reads⟩, rfl⟩ := h'
  exact ⟨room, inner, reads, rfl⟩

/-- What follows a token of this kind, read where there is one. -/
theorem behind {α : Type} {P : State → α → State → Prop} (kind : TokenKind) {rule : Rule α}
    (h : Yields rule P) :
    Yields (Rule.behind kind rule) (fun s found s' => match found with
      | some a => ∃ t between, t.kind = kind ∧ s.ahead = t :: between.ahead ∧
          between.depth = s.depth ∧ P between a s'
      | none => s' = s ∧ ∀ t ∈ s.ahead.head?, t.kind ≠ kind) := by
  apply ((accept kind).bind fun found => Yields.ite (found = true) (h.map some)
    (Yields.pure none)).imp
  intro s o s'' h'
  obtain ⟨found, s', first, second⟩ := h'
  cases found with
  | true =>
    obtain ⟨a, reads, rfl⟩ := second
    obtain ⟨t, is, ahead, depth⟩ := first
    exact ⟨t, s', is, ahead, depth, reads⟩
  | false =>
    obtain ⟨rfl, rfl⟩ := second
    simpa using first

/-- What stands in front of a token of this kind, read where that is not the next one. -/
theorem before {α : Type} {P : State → α → State → Prop} (kind : TokenKind) {rule : Rule α}
    (h : Yields rule P) :
    Yields (Rule.before kind rule) (fun s found s' => match found with
      | some a => P s a s'
      | none => s' = s) := by
  apply ((isNext kind).bind fun found => Yields.ite (found = true) (Yields.pure none)
    (h.map some)).imp
  intro s o s'' h'
  obtain ⟨found, s', ⟨-, rfl⟩, second⟩ := h'
  cases found with
  | true =>
    obtain ⟨rfl, rfl⟩ := second
    rfl
  | false =>
    obtain ⟨a, reads, rfl⟩ := second
    exact reads

/-- A list that is not reported has room for the item. -/
theorem addItem {α : Type} {P : State → α → State → Prop} {item : Rule α} (excess : Problem)
    (items : Array α) (h : Yields item P) :
    Yields (Rule.addItem item excess items) (fun s all s' =>
      items.size < maxArguments ∧ ∃ a, P s a s' ∧ all = items.push a) := by
  have count : Yields (Rule.checkCount items.size excess) (fun s _ s' =>
      items.size < maxArguments ∧ s' = s) := by
    refine ⟨fun s => ?_, ?_⟩
    · change s.Extends (if maxArguments ≤ items.size then s.record ⟨s.current, excess⟩ else s)
      split
      · exact State.Extends.record s _
      · exact State.Extends.refl s
    · intro s a s' h' quiet
      cases h'
      by_cases full : maxArguments ≤ items.size
      · have size := quiet.2
        simp [full, State.record, quiet.1] at size
      · exact ⟨by omega, by simp [full]⟩
  apply (count.bind fun _ => h.bind fun a => Yields.pure (items.push a)).imp
  intro s all s'' reading
  obtain ⟨_, s', ⟨room, rfl⟩, a, _, reads, rfl, rfl⟩ := reading
  exact ⟨room, a, reads, rfl⟩

end Yields

end Rule

end LoxSyntax.Parse
