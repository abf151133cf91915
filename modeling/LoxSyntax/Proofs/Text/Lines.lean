import LoxSyntax.Text.Lines

namespace LoxSyntax

/-- A line without a carriage return at its end. -/
def withoutReturn {α : Type} [DecidableEq α] (carriageReturn : α) (line : List α) : List α :=
  if line.getLast? = some carriageReturn then line.dropLast else line

/-- The text is cut into these lines: each newline ends one, which loses one carriage return right
before it, and what is behind the last newline is a line of its own if there is anything. -/
inductive CutIntoLines {α : Type} [DecidableEq α] (newline carriageReturn : α) :
    List α → List (List α) → Prop where
  | nothing : CutIntoLines newline carriageReturn [] []
  | last {line : List α} : line ≠ [] → newline ∉ line →
      CutIntoLines newline carriageReturn line [line]
  | line {line behind : List α} {lines : List (List α)} : newline ∉ line →
      CutIntoLines newline carriageReturn behind lines →
      CutIntoLines newline carriageReturn (line ++ newline :: behind)
        (withoutReturn carriageReturn line :: lines)

theorem linesOf_last {α : Type} [DecidableEq α] {newline carriageReturn : α} {line : List α}
    (some : line ≠ []) (inside : newline ∉ line) :
    linesOf newline carriageReturn line = [line] := by
  induction line with
  | nil => exact absurd rfl some
  | cons c cs ih =>
    have other := List.ne_of_not_mem_cons inside
    replace inside := List.not_mem_of_not_mem_cons inside
    have noPair : ¬ (c = carriageReturn ∧ cs.head? = Option.some newline) := by
      rintro ⟨-, next⟩
      exact inside (List.mem_of_mem_head? next)
    rw [linesOf, if_neg (Ne.symm other), if_neg noPair]
    cases cs with
    | nil => rfl
    | cons d ds => rw [ih (List.cons_ne_nil d ds) inside]

theorem linesOf_line {α : Type} [DecidableEq α] {newline carriageReturn : α} {line : List α}
    (inside : newline ∉ line) (behind : List α) :
    linesOf newline carriageReturn (line ++ newline :: behind) =
      withoutReturn carriageReturn line :: linesOf newline carriageReturn behind := by
  induction line with
  | nil => simp [linesOf, withoutReturn]
  | cons c cs ih =>
    have other := List.ne_of_not_mem_cons inside
    replace inside := List.not_mem_of_not_mem_cons inside
    rw [List.cons_append, linesOf, if_neg (Ne.symm other), ih inside]
    cases cs with
    | nil =>
      by_cases pair : c = carriageReturn
      · simp [pair, withoutReturn]
      · simp [pair, withoutReturn]
    | cons d ds =>
      have noPair : (d :: ds ++ newline :: behind).head? ≠ some newline := by
        rintro next
        exact inside (by rw [Option.some.inj next]; exact List.mem_cons_self)
      rw [if_neg fun pair => noPair pair.2]
      simp only [withoutReturn, List.getLast?_cons_cons, List.dropLast_cons_cons]
      split <;> rfl

/-- Every text is cut into lines. -/
theorem cutIntoLines_linesOf {α : Type} [DecidableEq α] {newline carriageReturn : α}
    (text : List α) :
    CutIntoLines newline carriageReturn text (linesOf newline carriageReturn text) := by
  by_cases more : newline ∈ text
  · obtain ⟨line, behind, whole, inside⟩ := List.eq_append_cons_of_mem more
    rw [whole, linesOf_line inside]
    exact .line inside (cutIntoLines_linesOf behind)
  · cases text with
    | nil => exact .nothing
    | cons c cs =>
      rw [linesOf_last (List.cons_ne_nil c cs) more]
      exact .last (List.cons_ne_nil c cs) more
termination_by text.length
decreasing_by
  rw [whole, List.length_append, List.length_cons]
  omega

/-- There is no other way to cut it. -/
theorem CutIntoLines.linesOf_eq {α : Type} [DecidableEq α] {newline carriageReturn : α}
    {text : List α} {lines : List (List α)} (cut : CutIntoLines newline carriageReturn text lines) :
    linesOf newline carriageReturn text = lines := by
  induction cut with
  | nothing => rfl
  | last some inside => exact linesOf_last some inside
  | line inside _ ih => rw [linesOf_line inside, ih]

end LoxSyntax
