import Mathlib.Data.List.Chain
import LoxSyntax.Proofs.Parse.Level
import LoxSyntax.Proofs.Parse.Congruence

namespace LoxSyntax.Parse

namespace Rule

/-- How a rule is put together of primitive ones, and the states that it visits, in order, from the
one it starts in to the one it ends in. -/
inductive Visits : {α : Type} → Rule α → (State → List State) → Prop where
  | pure {α : Type} (a : α) : Visits (Pure.pure a) fun s => [s]
  | fail {α : Type} {problem : Problem} (own : problem.OfGrammar) :
      Visits (Rule.fail problem : Rule α) fun s => [s]
  | look {α : Type} (f : List Token → α × List Token) (moves : ∀ ts, (f ts).2 <:+ ts) :
      Visits (Rule.look f) fun s => [s, { s with ahead := (f s.ahead).2 }]
  | note (place : Token → Token) {problem : Problem} (own : problem.OfGrammar) :
      Visits (Rule.note place problem) fun s => [s, s.record ⟨place s.current, problem⟩]
  | descend : Visits Rule.descend fun s => [s, Rule.descend.after s]
  | bind {α β : Type} {rule : Rule α} {f : α → Rule β} {first : State → List State}
      {second : α → State → List State} (inside : Visits rule first)
      (behind : ∀ a, Visits (f a) (second a)) :
      Visits (rule >>= f) fun s => first s ++ match rule s with
        | .ok a s' => second a s'
        | .error _ _ => []
  | keepingDepth {α : Type} {rule : Rule α} {visited : State → List State}
      (inside : Visits rule visited) :
      Visits (Rule.keepingDepth rule) fun s =>
        visited s ++ [{ rule.after s with depth := s.depth }]
  | bounded {α : Type} {f : List Token → Rule α} {visited : List Token → State → List State}
      (each : ∀ ts, Visits (f ts) (visited ts)) :
      Visits (fun s => f s.ahead s) fun s => visited s.ahead s
  | attempt {α : Type} {rule : Rule α} {visited : State → List State}
      (inside : Visits rule visited) :
      Visits (Rule.attempt rule) fun s => visited s ++ match rule s with
        | .ok _ _ => []
        | .error e s' => [s'.recover e]

end Rule

open Rule (Visits)

/-- The states lead from the one to the other. None is behind one that comes before it, and none is
deeper than the limit if the first one is not. -/
structure State.Course (s s' : State) (visited : List State) : Prop where
  first : visited.head? = some s
  last : visited.getLast? = some s'
  onward : visited.IsChain State.Extends
  level : s.depth ≤ maxDepth → ∀ t ∈ visited, t.depth ≤ maxDepth

namespace State.Course

theorem single (s : State) : s.Course s [s] where
  first := rfl
  last := rfl
  onward := .singleton s
  level shallow := by simpa using shallow

theorem append {s s' t t' : State} {visited visited' : List State} (h : s.Course s' visited)
    (h' : t.Course t' visited') (step : s'.Extends t)
    (level : s.depth ≤ maxDepth → s'.depth ≤ maxDepth → t.depth ≤ maxDepth) :
    s.Course t' (visited ++ visited') where
  first := by rw [List.head?_append, h.first, Option.some_or]
  last := by rw [List.getLast?_append, h'.last, Option.some_or]
  onward := by
    refine List.isChain_append.mpr ⟨h.onward, h'.onward, fun x last y first => ?_⟩
    rw [h.last] at last
    rw [h'.first] at first
    cases last
    cases first
    exact step
  level shallow := by
    have before := h.level shallow
    have ended : s'.depth ≤ maxDepth := before s' (List.mem_of_getLast? h.last)
    exact List.forall_mem_append.mpr ⟨before, h'.level (level shallow ended)⟩

theorem step {s t : State} (moved : s.Extends t) (level : s.depth ≤ maxDepth → t.depth ≤ maxDepth) :
    s.Course t [s, t] :=
  (single s).append (single t) moved fun shallow _ => level shallow

theorem pairwise {s s' : State} {visited : List State} (h : s.Course s' visited) :
    visited.Pairwise State.Extends := by
  have : Trans State.Extends State.Extends State.Extends := ⟨State.Extends.trans⟩
  exact List.isChain_iff_pairwise.mp h.onward

end State.Course

/-- All errors that were recorded are of the grammar. -/
def State.Worded (s : State) : Prop := ∀ e ∈ s.errors.toList, e.problem.OfGrammar

theorem State.Worded.record {s : State} (h : s.Worded) {e : ParseError}
    (own : e.problem.OfGrammar) : (s.record e).Worded := by
  intro e' among
  obtain before | rfl := State.mem_record e among
  · exact h e' before
  · exact own

theorem State.Worded.recover {s : State} (h : s.Worded) {e : ParseError}
    (own : e.problem.OfGrammar) : (s.recover e).Worded := by
  unfold State.Worded
  rw [State.errors_recover]
  exact h.record own

namespace Rule.Visits

/-- Whatever becomes of a rule, the states it visits lead to the one it ends in. -/
theorem course {α : Type} {rule : Rule α} {visited : State → List State} (h : Visits rule visited)
    (s : State) : s.Course (rule.after s) (visited s) := by
  induction h generalizing s with
  | pure a => exact .single s
  | fail _ => exact .single s
  | look f moves => exact .step (.of_suffix s (moves s.ahead)) id
  | @note place problem own =>
    have kept := s.depth_record ⟨place s.current, problem⟩
    exact .step (.record s _) fun shallow => kept.trans_le shallow
  | descend =>
    refine .step (Rule.Yields.descend.moves s) fun shallow => ?_
    by_cases room : s.depth < maxDepth
    · rw [Rule.after_ok (Rule.descend_ok room)]
      exact Nat.succ_le_of_lt room
    · rwa [Rule.after_error (Rule.descend_error room)]
  | @bind α β rule f first second inside behind ih ih' =>
    have start := ih s
    cases run : rule s with
    | error e s' =>
      rw [Rule.after_bind_error f run]
      simpa only [run, List.append_nil] using start
    | ok a s' =>
      rw [Rule.after_ok run] at start
      rw [Rule.after_bind f run]
      simpa only [run] using start.append (ih' a s') (.refl s') fun _ => id
  | @keepingDepth α rule visited inside ih =>
    rw [Rule.after_keepingDepth]
    exact (ih s).append (.single _) ((State.Extends.refl _).withDepth _ s.depth) fun shallow _ =>
      shallow
  | bounded each ih => exact ih s.ahead s
  | @attempt α rule visited inside ih =>
    have start := ih s
    have ended : (Rule.attempt rule).after s = (recovering rule s).2 := rfl
    rw [ended]
    cases run : rule s with
    | ok a s' =>
      rw [Rule.after_ok run] at start
      rw [recovering_ok run]
      simpa only [run, List.append_nil] using start
    | error e s' =>
      rw [Rule.after_error run] at start
      rw [recovering_error run]
      simpa only [run] using start.append (.single _) (.recover s' e) fun _ shallow => by
        rwa [s'.depth_recover]

end Rule.Visits

namespace Rule

/-- The rule is put together of primitive ones. -/
def Composed {α : Type} (rule : Rule α) : Prop := ∃ visited, Visits rule visited

theorem Composed.bind {α β : Type} {rule : Rule α} {f : α → Rule β} (first : rule.Composed)
    (second : ∀ a, (f a).Composed) : (rule >>= f).Composed := by
  obtain ⟨visited, inside⟩ := first
  obtain ⟨others, behind⟩ := Classical.skolem.mp second
  exact ⟨_, .bind inside behind⟩

theorem composed_attempted : Attempted fun _ rule _ => rule.Composed where
  toStepwise := Sequential.stepwise {
    pure := fun a => ⟨_, .pure a⟩
    bind := .bind
    fail := fun own => ⟨_, .fail own⟩
    look := fun f moves => ⟨_, .look f moves⟩ }
  bounded _ _ each := by
    obtain ⟨visited, inside⟩ := Classical.skolem.mp each
    exact ⟨_, .bounded inside⟩
  attempt := fun ⟨_, inside⟩ => ⟨_, .attempt inside⟩

theorem composed_congruence : Congruence fun _ rule _ => rule.Composed where
  toStepwise := composed_attempted.toStepwise
  note place _ own _ := ⟨_, .note place own⟩
  descend := ⟨_, .descend⟩
  keepingDepth := fun ⟨_, inside⟩ => ⟨_, .keepingDepth inside⟩
  bounded := composed_attempted.bounded
  block := composed_attempted.block

end Rule

/-- The rules of every level are put together of primitive ones. -/
theorem rules_composed (level : Nat) :
    (rules level).Related (fun _ rule _ => rule.Composed) (rules level) :=
  Rule.composed_congruence.related level

end LoxSyntax.Parse
