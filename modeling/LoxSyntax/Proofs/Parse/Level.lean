import LoxSyntax.Proofs.Parse.Declarations

namespace LoxSyntax.Parse

namespace Rule

/-- The rule ends at the depth it started at, and a result is good for that depth. -/
structure Gives {α : Type} (rule : Rule α) (good : Nat → α → Prop) : Prop where
  depth : ∀ s : State, (rule.after s).depth = s.depth
  result : ∀ {s a s'}, rule s = .ok a s' → good s.depth a

/-- A rule of which only the depth is told. -/
abbrev Level {α : Type} (rule : Rule α) : Prop := Gives rule fun _ _ => True

/-- What the rounds of a repetition keep holds at its end. -/
theorem iterate_invariant {α : Type} {step : α → Rule (Option α)} {I : α → State → Prop}
    (round : ∀ a s found s', I a s → step a s = .ok found s' → I (found.getD a) s') {a b : α}
    {s s' : State} (start : I a s) (run : Rule.iterate step a s = .ok b s') : I b s' := by
  unfold Rule.iterate at run
  generalize s.ahead = bound at run
  induction bound generalizing a s with
  | nil =>
    obtain ⟨found, t, first, last⟩ := exists_of_bind_ok run
    cases last
    exact round a s found _ start first
  | cons _ bound ih =>
    obtain ⟨found, t, first, others⟩ := exists_of_bind_ok run
    have kept := round a s found t start first
    cases found with
    | none =>
      cases others
      exact kept
    | some b => exact ih kept others

namespace Gives

theorem depth_eq {α : Type} {rule : Rule α} {P : Nat → α → Prop} (h : Gives rule P) {s s' : State}
    {a : α} (run : rule s = .ok a s') : s'.depth = s.depth := by
  rw [← h.depth s, after_ok run]

theorem imp {α : Type} {rule : Rule α} {P Q : Nat → α → Prop} (h : Gives rule P)
    (w : ∀ d a, P d a → Q d a) : Gives rule Q :=
  ⟨h.depth, fun run => w _ _ (h.result run)⟩

theorem pure {α : Type} {P : Nat → α → Prop} {a : α} (h : ∀ d, P d a) : Gives (Pure.pure a) P where
  depth _ := rfl
  result run := by
    cases run
    exact h _

theorem bind {α β : Type} {rule : Rule α} {P : Nat → α → Prop} {R : Nat → β → Prop} {f : α → Rule β}
    (h : Gives rule P) (hf : ∀ a, Gives (f a) fun d b => P d a → R d b) : Gives (rule >>= f) R where
  depth := after_bind_related (R := fun s s' : State => s'.depth = s.depth)
    (fun first second => second.trans first) h.depth fun a => (hf a).depth
  result both := by
    obtain ⟨a, s', first, second⟩ := exists_of_bind_ok both
    have good := (hf a).result second
    rw [h.depth_eq first] at good
    exact good (h.result first)

theorem map {α β : Type} {rule : Rule α} {P : Nat → α → Prop} {R : Nat → β → Prop} {g : α → β}
    (h : Gives rule P) (w : ∀ d a, P d a → R d (g a)) : Gives (g <$> rule) R := by
  rw [map_eq_pure_bind]
  exact h.bind fun a => .pure fun d => w d a

theorem ite {α : Type} {rule : Rule α} {P : Nat → α → Prop} {rule' : Rule α} (c : Prop)
    [Decidable c] (h : Gives rule P) (h' : Gives rule' P) :
    Gives (if c then rule else rule') P := by
  split
  · exact h
  · exact h'

theorem fail {α : Type} {P : Nat → α → Prop} (problem : Problem) :
    Gives (Rule.fail problem : Rule α) P where
  depth _ := rfl
  result run := by cases run

theorem report (e : ParseError) : Level (Rule.report e) where
  depth s := s.depth_record e
  result _ := trivial

theorem peek? : Level Rule.peek? := ⟨fun _ => rfl, fun _ => trivial⟩

theorem skip : Level Rule.skip := ⟨fun _ => rfl, fun _ => trivial⟩

theorem isNext (kind : TokenKind) : Level (Rule.isNext kind) := ⟨fun _ => rfl, fun _ => trivial⟩

theorem take? (kinds : List TokenKind) : Level (Rule.take? kinds) where
  depth s := by
    unfold after Rule.take?
    cases ahead : s.ahead with
    | nil => rfl
    | cons t rest => by_cases taken : t.kind ∈ kinds <;> simp [taken]
  result _ := trivial

theorem accept (kind : TokenKind) : Level (Rule.accept kind) :=
  (take? [kind]).bind fun _ => .pure fun _ _ => trivial

theorem expect (kind : TokenKind) (problem : Problem) : Level (Rule.expect kind problem) := by
  refine (take? [kind]).bind fun found => ?_
  cases found with
  | none => exact fail problem
  | some t => exact .pure fun _ _ => trivial

/-- The depth is put back, whatever the rule did to it. -/
theorem keepingDepth {α : Type} {rule : Rule α} {P : Nat → α → Prop}
    (h : ∀ s a s', rule s = .ok a s' → P s.depth a) : Gives (Rule.keepingDepth rule) P where
  depth s := by rw [after_keepingDepth]
  result run := by
    obtain ⟨t, inner, rfl⟩ := keepingDepth_eq_ok run
    exact h _ _ t inner

theorem nested {α : Type} {rule : Rule α} {P : Nat → α → Prop} (h : Gives rule P) :
    Gives (Rule.nested rule) fun d a => d < maxDepth ∧ P (d + 1) a := by
  apply keepingDepth
  intro s a s' run
  obtain ⟨_, t, down, inside⟩ := exists_of_bind_ok run
  obtain ⟨room, rfl⟩ := descend_eq_ok down
  exact ⟨room, h.result inside⟩

theorem behind {α : Type} {rule : Rule α} {P : Nat → α → Prop} (kind : TokenKind)
    (h : Gives rule P) : Gives (Rule.behind kind rule) fun d found => ∀ a ∈ found, P d a := by
  refine (accept kind).bind fun found => ite _ (h.map fun d a good _ => ?_) (.pure fun _ _ => nofun)
  simpa using good

theorem before {α : Type} {rule : Rule α} {P : Nat → α → Prop} (kind : TokenKind)
    (h : Gives rule P) : Gives (Rule.before kind rule) fun d found => ∀ a ∈ found, P d a := by
  refine (isNext kind).bind fun found => ite _ (.pure fun _ _ => nofun) (h.map fun d a good _ => ?_)
  simpa using good

theorem addItem {α : Type} {rule : Rule α} {P : Nat → α → Prop} (excess : Problem) (items : Array α)
    (h : Gives rule P) :
    Gives (Rule.addItem rule excess items) fun d all =>
      (∀ a ∈ items.toList, P d a) → ∀ a ∈ all.toList, P d a := by
  have count : Level (Rule.checkCount items.size excess) := by
    refine ⟨fun s => ?_, fun _ => trivial⟩
    change (if maxArguments ≤ items.size then s.record _ else s).depth = s.depth
    split
    · exact s.depth_record _
    · rfl
  refine count.bind fun _ => h.bind fun a => .pure fun d good _ others => ?_
  simpa [or_imp, forall_and, good] using others

theorem rounds {α : Type} {P : Nat → α → Prop} {step : α → Rule (Option α)}
    (h : ∀ a, Gives (step a) fun d found => P d a → ∀ b ∈ found, P d b) (bound : List Token)
    (a : α) : Gives (Rule.rounds step bound a) fun d b => P d a → P d b := by
  induction bound generalizing a with
  | nil =>
    refine (h a).bind fun found => .pure fun d next start => ?_
    cases found with
    | none => exact start
    | some b => exact next start b rfl
  | cons _ bound ih =>
    refine (h a).bind fun found => ?_
    cases found with
    | none => exact .pure fun d _ start => start
    | some b => exact (ih b).imp fun d c last next start => last (next start b rfl)

theorem iterate {α : Type} {P : Nat → α → Prop} {step : α → Rule (Option α)}
    (h : ∀ a, Gives (step a) fun d found => P d a → ∀ b ∈ found, P d b) (a : α) :
    Gives (Rule.iterate step a) fun d b => P d a → P d b :=
  ⟨fun s => (rounds h s.ahead a).depth s, fun run => (rounds h _ a).result run⟩

theorem commaSeparated {α : Type} {rule : Rule α} {P : Nat → α → Prop} (excess : Problem)
    (h : Gives rule P) : Gives (Rule.commaSeparated rule excess) fun d all => ∀ a ∈ all, P d a := by
  have another (items : Array α) : Gives (Rule.behind .comma (Rule.addItem rule excess items))
      fun d found => (∀ a ∈ items.toList, P d a) → ∀ all ∈ found, ∀ a ∈ all.toList, P d a :=
    (behind .comma (addItem excess items h)).imp fun d found all first items is =>
      all items is first
  exact (addItem excess #[] h).bind fun first => (iterate another first).bind fun all =>
    .pure fun d others one => others (one (by simp))

end Gives

end Rule

/-- A declaration leaves the depth as it was, also where it failed. -/
theorem declaration_gives {inner : Rules} {good : Nat → Stmt → Prop}
    (hd : (declarationRule inner).Gives good) (s : State) :
    (declaration inner s).2.depth = s.depth ∧ ∀ t ∈ (declaration inner s).1, good s.depth t := by
  have level := hd.depth s
  unfold declaration
  cases run : declarationRule inner s with
  | ok a s' =>
    rw [recovering_ok run]
    exact ⟨hd.depth_eq run, by simpa using hd.result run⟩
  | error e s' =>
    rw [Rule.after_error run] at level
    rw [recovering_error run]
    exact ⟨(s'.depth_recover e).trans level, nofun⟩

theorem declarations_gives {inner : Rules} {good : Nat → Stmt → Prop}
    (hd : (declarationRule inner).Gives good) (closes : TokenKind → Bool) (bound : List Token)
    (s : State) :
    (declarations inner closes bound s).2.depth = s.depth ∧
      ∀ t ∈ (declarations inner closes bound s).1, good s.depth t := by
  induction bound generalizing s with
  | nil => exact ⟨rfl, nofun⟩
  | cons b bound ih =>
    obtain ends | ⟨t, next, stays⟩ := ends_or_next closes s
    · rw [declarations_of_ends inner _ ends]
      exact ⟨rfl, nofun⟩
    · obtain ⟨level, first⟩ := declaration_gives hd s
      obtain ⟨level', others⟩ := ih (declaration inner s).2
      rw [level] at level' others
      rw [declarations_cons inner b bound next stays]
      refine ⟨level', List.forall_mem_append.mpr ⟨?_, others⟩⟩
      simpa using first

theorem block_gives {inner : Rules} {good : Nat → Stmt → Prop}
    (hd : (declarationRule inner).Gives good) :
    (block inner).Gives fun d body => ∀ t ∈ body, good d t := by
  have body : (blockBody inner).Gives fun d body => ∀ t ∈ body, good d t := by
    refine ⟨fun s => (declarations_gives hd _ s.ahead s).1, ?_⟩
    intro s body s' run
    cases run
    exact (declarations_gives hd _ s.ahead s).2
  exact body.bind fun body => (Rule.Gives.expect _ _).bind fun _ => .pure fun d _ all => all

end LoxSyntax.Parse
