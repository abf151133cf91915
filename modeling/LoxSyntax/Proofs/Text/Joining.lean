import Mathlib.Algebra.GroupWithZero.Nat
import LoxSyntax.Proofs.Text.Lines

namespace LoxSyntax

def newlines (text : String) : Nat := text.toList.count '\n'

/-- What is in front of, between and behind the newlines of a text. -/
def cutAtNewlines (text : String) : List String := (text.toList.splitOn '\n').map String.ofList

@[simp]
theorem newlines_append (first second : String) :
    newlines (first ++ second) = newlines first + newlines second := by
  simp [newlines]

theorem newlines_eq_zero {text : String} : newlines text = 0 ↔ '\n' ∉ text.toList :=
  List.count_eq_zero

/-- Where no newline is the last character, the lines are one more than the newlines. -/
theorem CutIntoLines.length_eq {α : Type} [DecidableEq α] {newline carriageReturn : α}
    {text : List α} {lines : List (List α)} (cut : CutIntoLines newline carriageReturn text lines)
    (some : text ≠ []) (ends : text.getLast? ≠ Option.some newline) :
    lines.length = text.count newline + 1 := by
  induction cut with
  | nothing => exact absurd rfl some
  | last _ inside => rw [List.count_eq_zero.mpr inside, List.length_singleton]
  | @line line behind lines inside _ ih =>
    have more : behind ≠ [] := by
      rintro rfl
      simp at ends
    have final : behind.getLast?.isSome := List.getLast?_isSome.mpr more
    rw [List.getLast?_append, List.getLast?_cons_of_ne_nil more, Option.or_of_isSome final] at ends
    have later := ih more ends
    rw [List.length_cons, later, List.count_append, List.count_eq_zero.mpr inside, Nat.zero_add,
      List.count_cons_self]

theorem length_linesOfText {text : String} (some : text ≠ "")
    (ends : text.toList.getLast? ≠ Option.some '\n') :
    (linesOfText text).length = newlines text + 1 := by
  rw [linesOfText, List.length_map]
  exact (cutIntoLines_linesOf text.toList).length_eq (by simpa using some) ends

end LoxSyntax
