import LoxSyntax.Proofs.Parse.Repetition

namespace LoxSyntax.Parse

namespace State

/-- The same state with these tokens ahead. -/
def facing (s : State) (ts : List Token) : State := { s with ahead := ts }

theorem facing_eq {s : State} {ts : List Token} (h : s.ahead = ts) : s.facing ts = s := by
  subst h
  rfl

/-- The same state a level further in. -/
def deeper (s : State) : State := { s with depth := s.depth + 1 }

/-- The parse was given up behind these errors, for the reason given by the one that is new. -/
structure GivenUp (s : State) (errors : Array ParseError) : Prop where
  halted : s.halted = true
  ahead : s.ahead = []
  reported : ∃ t, s.errors = errors.push ⟨t, .tooDeep⟩

end State

/-- A failure for want of levels, or behind the point where the parse was given up for it. -/
def RanTooDeep {α : Type} (errors : Array ParseError) (r : EStateM.Result ParseError State α) :
    Prop :=
  ∃ e s, r = .error e s ∧
    (e.problem = .tooDeep ∧ s.halted = false ∧ s.errors = errors ∨ s.GivenUp errors)

/-- The outcome of a rule, with the depth put back. -/
def atDepth {α : Type} (depth : Nat) :
    EStateM.Result ParseError State α → EStateM.Result ParseError State α
  | .ok a s => .ok a { s with depth := depth }
  | .error e s => .error e { s with depth := depth }

theorem keepingDepth_eq {α : Type} (rule : Rule α) (s : State) :
    Rule.keepingDepth rule s = atDepth s.depth (rule s) := by
  unfold Rule.keepingDepth
  cases rule s <;> rfl

theorem keepingDepth_facing {α : Type} (rule : Rule α) (s : State) (us : List Token) :
    Rule.keepingDepth rule (s.facing us) = atDepth s.depth (rule (s.facing us)) :=
  keepingDepth_eq rule (s.facing us)

theorem keepingDepth_map {α β : Type} (g : α → β) (rule : Rule α) :
    Rule.keepingDepth (g <$> rule) = g <$> Rule.keepingDepth rule := by
  funext s
  change (match EStateM.map g rule s with | .ok b s' => _ | .error e s' => _) =
    EStateM.map g (Rule.keepingDepth rule) s
  unfold EStateM.map Rule.keepingDepth
  cases rule s <;> rfl

theorem atDepth_atDepth {α : Type} (d d' : Nat) (r : EStateM.Result ParseError State α) :
    atDepth d (atDepth d' r) = atDepth d r := by
  cases r <;> rfl

theorem keepingDepth_keepingDepth {α : Type} (rule : Rule α) :
    Rule.keepingDepth (Rule.keepingDepth rule) = Rule.keepingDepth rule := by
  funext s
  rw [keepingDepth_eq, keepingDepth_eq, atDepth_atDepth]

/-- Where the depth is put back at the end, rules that differ in the depth only are as good as one
another. -/
theorem keepingDepth_bind_congr {α β : Type} {rule : Rule α} {f f' : α → Rule β}
    (same : ∀ a, Rule.keepingDepth (f a) = Rule.keepingDepth (f' a)) :
    Rule.keepingDepth (rule >>= f) = Rule.keepingDepth (rule >>= f') := by
  funext s
  rw [keepingDepth_eq, keepingDepth_eq]
  cases run : rule s with
  | error e s' => rw [Rule.bind_error f run, Rule.bind_error f' run]
  | ok a s' =>
    have behind := congrFun (same a) s'
    rw [keepingDepth_eq, keepingDepth_eq] at behind
    rw [Rule.bind_ok f run, Rule.bind_ok f' run, ← atDepth_atDepth s.depth s'.depth, behind,
      atDepth_atDepth]

theorem keepingDepth_bind_keepingDepth {α β : Type} (rule : Rule α) (f : α → Rule β) :
    Rule.keepingDepth (rule >>= fun a => Rule.keepingDepth (f a)) =
      Rule.keepingDepth (rule >>= f) :=
  keepingDepth_bind_congr fun a => keepingDepth_keepingDepth (f a)

theorem RanTooDeep.atDepth {α : Type} {errors : Array ParseError}
    {r : EStateM.Result ParseError State α} {d : Nat} (h : RanTooDeep errors r) :
    RanTooDeep errors (atDepth d r) := by
  obtain ⟨e, s, rfl, ⟨why, live, none⟩ | given⟩ := h
  · exact ⟨e, _, rfl, .inl ⟨why, live, none⟩⟩
  · exact ⟨e, _, rfl, .inr ⟨given.halted, given.ahead, given.reported⟩⟩

/-- Facing `us`, the rule comes to `a` and leaves `vs`, if there are so many levels left. Otherwise
it runs too deep. -/
structure Rule.Accepts {α : Type} (rule : Rule α) (s : State) (us vs : List Token) (levels : Nat)
    (a : α) : Prop where
  fits : s.depth + levels ≤ maxDepth → rule (s.facing us) = .ok a (s.facing vs)
  overruns : s.halted = false → s.depth ≤ maxDepth → maxDepth < s.depth + levels →
    RanTooDeep s.errors (rule (s.facing us))

namespace Rule.Accepts

theorem levels {α : Type} {rule : Rule α} {s : State} {us vs : List Token} {l l' : Nat} {a : α}
    (h : rule.Accepts s us vs l a) (same : l' = l) : rule.Accepts s us vs l' a :=
  same ▸ h

theorem result {α : Type} {rule : Rule α} {s : State} {us vs : List Token} {l : Nat} {a : α}
    (h : rule.Accepts s us vs l a) {a' : α} (same : a' = a) : rule.Accepts s us vs l a' :=
  same ▸ h

/-- What another rule does, facing the same tokens or others. -/
theorem congr {α : Type} {rule : Rule α} {s : State} {us us' vs : List Token} {l : Nat} {a : α}
    (rule' : Rule α) (h : rule'.Accepts s us' vs l a)
    (same : rule (s.facing us) = rule' (s.facing us')) : rule.Accepts s us vs l a :=
  ⟨fun room => same ▸ h.fits room, fun live within beyond => same ▸ h.overruns live within beyond⟩

/-- A rule that needs no levels. -/
theorem still {α : Type} {rule : Rule α} {s : State} {us vs : List Token} {a : α}
    (run : rule (s.facing us) = .ok a (s.facing vs)) : rule.Accepts s us vs 0 a :=
  ⟨fun _ => run, fun _ within beyond => absurd within (by omega)⟩

theorem pure {α : Type} {s : State} {us : List Token} (a : α) :
    (Pure.pure a : Rule α).Accepts s us us 0 a := still rfl

theorem bind {α β : Type} {rule : Rule α} {f : α → Rule β} {s : State} {us vs ws : List Token}
    {l l' : Nat} {a : α} {b : β} (h : rule.Accepts s us vs l a) (h' : (f a).Accepts s vs ws l' b) :
    (rule >>= f).Accepts s us ws (max l l') b where
  fits room := by
    rw [bind_ok f (h.fits (by omega))]
    exact h'.fits (by omega)
  overruns live within beyond := by
    by_cases room : s.depth + l ≤ maxDepth
    · rw [bind_ok f (h.fits room)]
      exact h'.overruns live within (by omega)
    · obtain ⟨e, s', run, deep⟩ := h.overruns live within (by omega)
      exact ⟨e, s', bind_error f run, deep⟩

/-- A rule that needs no levels, and what follows it. -/
theorem lead {α β : Type} {rule : Rule α} {f : α → Rule β} {s : State} {us vs ws : List Token}
    {l : Nat} {a : α} {b : β} (h : rule.Accepts s us vs 0 a) (h' : (f a).Accepts s vs ws l b) :
    (rule >>= f).Accepts s us ws l b :=
  (h.bind h').levels (Nat.zero_max l).symm

theorem step {α β : Type} {rule : Rule α} {f : α → Rule β} {s : State} {us vs ws : List Token}
    {l : Nat} {a : α} {b : β} (run : rule (s.facing us) = .ok a (s.facing vs))
    (h : (f a).Accepts s vs ws l b) : (rule >>= f).Accepts s us ws l b :=
  (still run).lead h

/-- Steps that need no levels behind a rule that may. -/
theorem finish {α β : Type} {rule : Rule α} {f : α → Rule β} {s : State} {us vs ws : List Token}
    {l : Nat} {a : α} {b : β} (h : rule.Accepts s us vs l a) (h' : (f a).Accepts s vs ws 0 b) :
    (rule >>= f).Accepts s us ws l b :=
  (h.bind h').levels (Nat.max_zero l).symm

theorem map {α β : Type} {rule : Rule α} {s : State} {us vs : List Token} {l : Nat} {a : α}
    (g : α → β) (h : rule.Accepts s us vs l a) : (g <$> rule).Accepts s us vs l (g a) := by
  rw [map_eq_pure_bind]
  exact h.finish (pure (g a))

/-- The depth in which a rule ends does not count. -/
theorem keepingDepth {α : Type} {rule : Rule α} {s : State} {us vs : List Token} {l : Nat} {a : α}
    (h : rule.Accepts s us vs l a) : (Rule.keepingDepth rule).Accepts s us vs l a where
  fits room := by
    rw [keepingDepth_facing, h.fits room]
    rfl
  overruns live within beyond := by
    rw [keepingDepth_facing]
    exact (h.overruns live within beyond).atDepth

theorem keepingDepth_bind {α β : Type} {rule : Rule α} {f : α → Rule β} {s : State}
    {us vs ws : List Token} {l l' : Nat} {a : α} {b : β} (h : rule.Accepts s us vs l a)
    (h' : (Rule.keepingDepth (f a)).Accepts s vs ws l' b) :
    (Rule.keepingDepth (rule >>= f)).Accepts s us ws (max l l') b where
  fits room := by
    rw [keepingDepth_facing, bind_ok f (h.fits (by omega))]
    simpa only [keepingDepth_facing] using h'.fits (by omega)
  overruns live within beyond := by
    rw [keepingDepth_facing]
    by_cases room : s.depth + l ≤ maxDepth
    · rw [bind_ok f (h.fits room)]
      simpa only [keepingDepth_facing] using h'.overruns live within (by omega)
    · obtain ⟨e, s', run, deep⟩ := h.overruns live within (by omega)
      rw [bind_error f run]
      exact RanTooDeep.atDepth ⟨e, s', rfl, deep⟩

/-- One level deeper; at the limit nothing is even tried. -/
theorem descend {α : Type} {rule : Rule α} {s : State} {us vs : List Token} {l : Nat} {a : α}
    (h : s.depth < maxDepth → (Rule.keepingDepth rule).Accepts s.deeper us vs l a) :
    (Rule.keepingDepth (Rule.descend >>= fun _ => rule)).Accepts s us vs (l + 1) a := by
  have inside (below : s.depth < maxDepth) :
      Rule.keepingDepth (Rule.descend >>= fun _ => rule) (s.facing us) =
        atDepth s.depth (Rule.keepingDepth rule (s.deeper.facing us)) := by
    have down : Rule.descend (s.facing us) = .ok () (s.deeper.facing us) := descend_ok below
    rw [keepingDepth_facing, bind_ok _ down, keepingDepth_facing, atDepth_atDepth]
  refine ⟨fun room => ?_, fun live within beyond => ?_⟩
  · have below : s.depth < maxDepth := by omega
    rw [inside below, (h below).fits (by show s.depth + 1 + l ≤ maxDepth; omega)]
    rfl
  · by_cases below : s.depth < maxDepth
    · rw [inside below]
      exact RanTooDeep.atDepth
        ((h below).overruns live below (by show maxDepth < s.depth + 1 + l; omega))
    · have stuck := descend_error (s := s.facing us) below
      rw [keepingDepth_facing, bind_error _ stuck]
      exact ⟨_, _, rfl, .inl ⟨rfl, live, rfl⟩⟩

theorem nested {α : Type} {rule : Rule α} {s : State} {us vs : List Token} {l : Nat} {a : α}
    (h : s.depth < maxDepth → rule.Accepts s.deeper us vs l a) :
    (Rule.nested rule).Accepts s us vs (l + 1) a :=
  descend fun below => (h below).keepingDepth

end Rule.Accepts

namespace Rule

theorem take?_some {s : State} {t : Token} {us : List Token} {kinds : List TokenKind}
    (h : t.kind ∈ kinds) : Rule.take? kinds (s.facing (t :: us)) = .ok (some t) (s.facing us) :=
  if_pos (by simpa using h)

theorem take?_none {s : State} {us : List Token} {kinds : List TokenKind}
    (h : ∀ t ∈ us.head?, t.kind ∉ kinds) :
    Rule.take? kinds (s.facing us) = .ok none (s.facing us) := by
  cases us with
  | nil => rfl
  | cons t us => exact if_neg (by simpa using h)

theorem accept_true {s : State} {t : Token} {us : List Token} {kind : TokenKind}
    (h : t.kind = kind) : Rule.accept kind (s.facing (t :: us)) = .ok true (s.facing us) := by
  unfold Rule.accept
  rw [bind_ok _ (take?_some (by simp [h]))]
  rfl

theorem accept_false {s : State} {us : List Token} {kind : TokenKind}
    (h : ∀ t ∈ us.head?, t.kind ≠ kind) :
    Rule.accept kind (s.facing us) = .ok false (s.facing us) := by
  unfold Rule.accept
  rw [bind_ok _ (take?_none (by simpa using h))]
  rfl

/-- A token is accepted where it is of the kind, and otherwise nothing happens. -/
theorem accept_cases (kind : TokenKind) (s : State) :
    (∃ t us, s.ahead = t :: us ∧ t.kind = kind ∧
        Rule.accept kind s = .ok true (s.facing us)) ∨
      (∀ t ∈ s.ahead.head?, t.kind ≠ kind) ∧ Rule.accept kind s = .ok false s := by
  by_cases found : ∃ t ∈ s.ahead.head?, t.kind = kind
  · obtain ⟨t, next, is⟩ := found
    obtain ⟨us, ahead⟩ := List.head?_eq_some_iff.mp next
    have accepted : Rule.accept kind (s.facing (t :: us)) = .ok true (s.facing us) :=
      accept_true is
    rw [State.facing_eq ahead] at accepted
    exact .inl ⟨t, us, ahead, is, accepted⟩
  · have other : ∀ t ∈ s.ahead.head?, t.kind ≠ kind := fun t next is => found ⟨t, next, is⟩
    exact .inr ⟨other, accept_false (s := s) other⟩

theorem expect_ok {s : State} {t : Token} {us : List Token} {kind : TokenKind} (problem : Problem)
    (h : t.kind = kind) : Rule.expect kind problem (s.facing (t :: us)) = .ok t (s.facing us) := by
  unfold Rule.expect
  rw [bind_ok _ (take?_some (by simp [h]))]
  rfl

theorem expect_nil (kind : TokenKind) (problem : Problem) {s : State} (h : s.ahead = []) :
    Rule.expect kind problem s = .error ⟨s.current, problem⟩ s := by
  have none : Rule.take? [kind] s = .ok none s := by simp only [Rule.take?, h]
  unfold Rule.expect
  rw [bind_ok _ none]
  rfl

theorem skip_eq {s : State} {t : Token} {us : List Token} :
    Rule.skip (s.facing (t :: us)) = .ok () (s.facing us) := rfl

namespace Accepts

theorem behind_some {s : State} {t : Token} {us : List Token} {kind : TokenKind} {α : Type}
    {rule : Rule α} {vs : List Token} {l : Nat} {a : α} (h : rule.Accepts s us vs l a)
    (is : t.kind = kind) : (Rule.behind kind rule).Accepts s (t :: us) vs l (some a) :=
  step (accept_true is) (h.map some)

theorem behind_none {s : State} {us : List Token} {kind : TokenKind} {α : Type} (rule : Rule α)
    (other : ∀ t ∈ us.head?, t.kind ≠ kind) : (Rule.behind kind rule).Accepts s us us 0 none :=
  step (accept_false other) (pure none)

theorem before_some {s : State} {us : List Token} {kind : TokenKind} {α : Type} {rule : Rule α}
    {vs : List Token} {l : Nat} {a : α} (h : rule.Accepts s us vs l a)
    (other : ∀ t ∈ us.head?, t.kind ≠ kind) :
    (Rule.before kind rule).Accepts s us vs l (some a) := by
  have next : Rule.isNext kind (s.facing us) = .ok false (s.facing us) := by
    cases us with
    | nil => rfl
    | cons t us =>
      have differs : (t.kind == kind) = false := by simpa using other t rfl
      change EStateM.Result.ok (t.kind == kind) _ = _
      rw [differs]
  exact step next (h.map some)

theorem before_none {s : State} {t : Token} {us : List Token} {kind : TokenKind} {α : Type}
    (rule : Rule α) (is : t.kind = kind) :
    (Rule.before kind rule).Accepts s (t :: us) (t :: us) 0 none := by
  have next : Rule.isNext kind (s.facing (t :: us)) = .ok true (s.facing (t :: us)) := by
    change EStateM.Result.ok (t.kind == kind) _ = _
    rw [is, beq_self_eq_true]
  exact step next (pure none)

theorem iterate_more {s : State} {us : List Token} {α : Type} {vs ws : List Token} {l l' : Nat}
    {a : α} {next : α → Rule (Option α)} {b c : α} (h : ∀ a, Advances (next a))
    (one : (next a).Accepts s us vs l (some b))
    (others : (Rule.iterate next b).Accepts s vs ws l' c) :
    (Rule.iterate next a).Accepts s us ws (max l l') c := by
  rw [iterate_eq_bind h]
  exact one.bind others

theorem iterate_end {s : State} {us : List Token} {α : Type} {a : α} {next : α → Rule (Option α)}
    (h : ∀ a, Advances (next a)) (last : next a (s.facing us) = .ok none (s.facing us)) :
    (Rule.iterate next a).Accepts s us us 0 a :=
  still (by rw [iterate_eq h, last])

theorem addItem {s : State} {us : List Token} {α : Type} {vs : List Token} {l : Nat} {a : α}
    {item : Rule α} (excess : Problem) {items : Array α} (h : item.Accepts s us vs l a)
    (few : items.size < maxArguments) :
    (Rule.addItem item excess items).Accepts s us vs l (items.push a) := by
  have counted : Rule.checkCount items.size excess (s.facing us) = .ok () (s.facing us) := by
    change EStateM.Result.ok () (if maxArguments ≤ items.size then _ else s.facing us) = _
    rw [if_neg (by omega)]
  exact step counted (h.map items.push)

end Accepts

/-- What is read behind the first items of a list. -/
def moreItems {α : Type} (item : Rule α) (excess : Problem) : Array α → Rule (Array α) :=
  Rule.iterate fun items => Rule.behind .comma (Rule.addItem item excess items)

theorem commaSeparated_eq {α : Type} (item : Rule α) (excess : Problem) :
    Rule.commaSeparated item excess =
      Array.toList <$> (Rule.addItem item excess #[] >>= moreItems item excess) := by
  simp only [Rule.commaSeparated, moreItems, map_eq_pure_bind, bind_assoc]

theorem moreItems_advances {α : Type} {item : Rule α} {P : State → α → State → Prop}
    (hitem : item.Yields P) (excess : Problem) (items : Array α) :
    (Rule.behind .comma (Rule.addItem item excess items)).Advances :=
  Advances.behind .comma (Yields.addItem excess items hitem)

theorem Accepts.anotherItem {α : Type} {item : Rule α} {P : State → α → State → Prop}
    (hitem : item.Yields P) (excess : Problem) {s : State} {t : Token} {us vs ws : List Token}
    {l l' : Nat} {a : α} {items all : Array α} (h : item.Accepts s us vs l a) (is : t.kind = .comma)
    (few : items.size < maxArguments)
    (others : (moreItems item excess (items.push a)).Accepts s vs ws l' all) :
    (moreItems item excess items).Accepts s (t :: us) ws (max l l') all :=
  iterate_more (moreItems_advances hitem excess) ((h.addItem excess few).behind_some is) others

theorem Accepts.noItem {α : Type} {item : Rule α} {P : State → α → State → Prop}
    (hitem : item.Yields P) (excess : Problem) {s : State} {us : List Token} (items : Array α)
    (other : ∀ t ∈ us.head?, t.kind ≠ .comma) :
    (moreItems item excess items).Accepts s us us 0 items := by
  apply iterate_end (moreItems_advances hitem excess)
  unfold Rule.behind
  exact bind_ok _ (accept_false other)

end Rule

end LoxSyntax.Parse
