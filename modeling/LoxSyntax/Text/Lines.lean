namespace LoxSyntax

/-- What is in front of each newline, without a carriage return right before it, and what is behind
the last newline, if anything is. -/
def linesOf {α : Type} [DecidableEq α] (newline carriageReturn : α) : List α → List (List α)
  | [] => []
  | c :: cs =>
    if c = newline then [] :: linesOf newline carriageReturn cs
    else if c = carriageReturn ∧ cs.head? = some newline then linesOf newline carriageReturn cs
    else match linesOf newline carriageReturn cs with
      | [] => [[c]]
      | line :: lines => (c :: line) :: lines

/-- There is a line as soon as there is text. -/
theorem linesOf_eq_nil_iff {α : Type} [DecidableEq α] (newline carriageReturn : α) (text : List α) :
    linesOf newline carriageReturn text = [] ↔ text = [] := by
  fun_induction linesOf newline carriageReturn text with
  | case3 c cs other pair ih =>
    have some : cs ≠ [] := fun none => by simp [none] at pair
    simp [ih, some]
  | _ => simp

theorem linesOf_append_newline {α : Type} [DecidableEq α] (newline carriageReturn : α)
    (before behind : List α) :
    linesOf newline carriageReturn (before ++ newline :: behind) =
      linesOf newline carriageReturn (before ++ [newline]) ++
        linesOf newline carriageReturn behind := by
  induction before with
  | nil => simp [linesOf]
  | cons c cs ih =>
    have head : (cs ++ newline :: behind).head? = (cs ++ [newline]).head? := by cases cs <;> rfl
    simp only [List.cons_append, linesOf, head, ih]
    split
    · simp
    · split
      · rfl
      · cases lines : linesOf newline carriageReturn (cs ++ [newline]) with
        | nil => simp [linesOf_eq_nil_iff] at lines
        | cons line lines => rfl

/-- The lines of bytes that hold text in UTF-8. -/
def linesOfBytes : List UInt8 → List (List UInt8) := linesOf 10 13

def linesOfText (text : String) : List String :=
  (linesOf '\n' '\r' text.toList).map String.ofList

end LoxSyntax
