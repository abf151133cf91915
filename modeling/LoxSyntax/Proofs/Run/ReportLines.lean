import LoxSyntax.Run
import LoxSyntax.Proofs.Parse.ErrorOrder
import LoxSyntax.Proofs.Parse.Visits
import LoxSyntax.Proofs.Session.DumpLines

namespace LoxSyntax

/-- The text is a sentence, or ends with one. -/
def EndsInPeriod (text : String) : Prop := text.toList.getLast? = some '.'

instance (text : String) : Decidable (EndsInPeriod text) :=
  inferInstanceAs (Decidable (text.toList.getLast? = some '.'))

namespace EndsInPeriod

theorem append {text : String} (front : String) (h : EndsInPeriod text) :
    EndsInPeriod (front ++ text) := by
  unfold EndsInPeriod at *
  rw [String.toList_append, List.getLast?_append, h, Option.some_or]

theorem message {problem : Problem} (own : problem.OfGrammar) : EndsInPeriod problem.message := by
  have period : EndsInPeriod "." := by decide +kernel
  cases problem with
  | noName | noMark => exact period.append _
  | finding text => exact absurd rfl (own text)
  | _ => decide +kernel

theorem fault (fault : ScanFault) : EndsInPeriod fault.message := by
  have quote : EndsInPeriod "'." := by decide +kernel
  cases fault with
  | unexpected c => exact quote.append _
  | _ => decide +kernel

theorem intercalate {texts : List String} (some : texts ≠ []) (h : ∀ text ∈ texts, EndsInPeriod text) :
    EndsInPeriod ("\n".intercalate texts) := by
  induction texts with
  | nil => exact absurd rfl some
  | cons text texts ih =>
    obtain ⟨first, others⟩ := List.forall_mem_cons.mp h
    cases texts with
    | nil => simpa using first
    | cons next texts =>
      rw [String.intercalate_cons_cons]
      exact (ih (List.cons_ne_nil next texts) others).append _

/-- So it has a line for each newline and one more. -/
theorem lines {text : String} (h : EndsInPeriod text) :
    (linesOfText text).length = newlines text + 1 := by
  unfold EndsInPeriod at h
  refine length_linesOfText ?_ (by rw [h]; decide)
  rintro rfl
  cases h

end EndsInPeriod

/-- A string over two lines where a semicolon is due. -/
def stringForSemicolon : String := "1 \"a\nb\";"

/-- The error of it, which quotes the string. -/
def stringForSemicolonError : Diagnostics :=
  ⟨[], [⟨⟨.string, "\"a\nb\"", some (.string "a\nb"), 1⟩, .noMark .semicolon .afterExpression⟩]⟩

theorem readProgram_stringForSemicolon :
    readProgram stringForSemicolon = .error stringForSemicolonError := by
  have scanned : (scan stringForSemicolon).errors = stringForSemicolonError.scan := by
    decide +kernel
  have parsed : (parse (scan stringForSemicolon).tokens).errors = stringForSemicolonError.parse := by
    decide +kernel
  unfold readProgram
  dsimp only
  rw [scanned, parsed]
  rfl

/-- So the lines of the text of errors need not be their sentences. -/
theorem readProgram_error_lines_exceed :
    ¬ ∀ (source : String) (d : Diagnostics), readProgram source = .error d →
      cutAtNewlines d.text = d.sentences ∧ newlines (report (.source d)) = d.size := by
  intro all
  have lines := (all _ _ readProgram_stringForSemicolon).1
  have cut : cutAtNewlines stringForSemicolonError.text ≠ stringForSemicolonError.sentences := by
    decide +kernel
  exact cut lines

end LoxSyntax
