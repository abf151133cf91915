import LoxSyntax.Proofs.Token.Layout

namespace LoxSyntax

namespace Cut

theorem number_text_eq (c : Char) (cs : List Char) :
    (number c cs).text = c :: cs.takeWhile Char.isDigit ++
      if (fraction (cs.dropWhile Char.isDigit)).1.isEmpty then []
      else '.' :: (fraction (cs.dropWhile Char.isDigit)).1 := by
  simp only [number]
  split <;> simp

/-- No character of a name in front of anything is left. -/
theorem length_name_le {text rest cs : List Char} {c : Char} (letters : IsName text)
    (source : text ++ rest = c :: cs) : text.length ≤ (first c cs).text.length := by
  obtain ⟨d, ds, rfl, letter, others⟩ := letters
  obtain ⟨rfl, rfl⟩ := List.cons.inj source
  have taken : (ds ++ rest).takeWhile Letter.continuesName =
      ds ++ rest.takeWhile Letter.continuesName := List.takeWhile_append_of_pos others
  rw [first_letter _ letter]
  simp [name, taken]

/-- Nor is one of a numeral. Behind a point there is a digit, so the point belongs to it. -/
theorem length_numeral_le {text whole places rest cs : List Char} {c : Char}
    (numeral : IsNumeral text whole places) (source : text ++ rest = c :: cs) :
    text.length ≤ (first c cs).text.length := by
  obtain ⟨front, behind⟩ := List.forall_mem_append.mp numeral.digits
  obtain ⟨d, ds, rfl⟩ := List.exists_cons_of_ne_nil numeral.solid
  obtain ⟨digit, others⟩ := List.forall_mem_cons.mp front
  rw [numeral.spelled] at source ⊢
  by_cases none : places = []
  · subst none
    have whole : d :: (ds ++ rest) = c :: cs := source
    obtain ⟨rfl, rfl⟩ := List.cons.inj whole
    have taken : (ds ++ rest).takeWhile Char.isDigit = ds ++ rest.takeWhile Char.isDigit :=
      List.takeWhile_append_of_pos others
    rw [first_digit _ digit, number_text_eq, taken]
    simp
  · have some : places.isEmpty = false := by simpa using none
    have whole : d :: (ds ++ '.' :: (places ++ rest)) = c :: cs := by simpa [some] using source
    obtain ⟨rfl, rfl⟩ := List.cons.inj whole
    have point : Char.isDigit '.' = false := rfl
    have taken : (ds ++ '.' :: (places ++ rest)).takeWhile Char.isDigit = ds := by
      rw [List.takeWhile_append_of_pos others]
      simp [point]
    have left : (ds ++ '.' :: (places ++ rest)).dropWhile Char.isDigit =
        '.' :: (places ++ rest) := by
      rw [List.dropWhile_append_of_pos others]
      simp [point]
    have further : (fraction ('.' :: (places ++ rest))).1 =
        places ++ rest.takeWhile Char.isDigit := by
      have digits : (places ++ rest).takeWhile Char.isDigit =
          places ++ rest.takeWhile Char.isDigit := List.takeWhile_append_of_pos behind
      simp [fraction, digits, none]
    rw [first_digit _ digit, number_text_eq, taken, left, further]
    simp [none]

/-- Of an operator and a keyword nothing is left either. -/
theorem length_fixed_le {kind : TokenKind} {lexeme : String} {rest cs : List Char} {c : Char}
    (spelled : kind.spelling? = some lexeme) (source : lexeme.toList ++ rest = c :: cs) :
    lexeme.toList.length ≤ (first c cs).text.length := by
  cases kind <;> cases spelled
  case bangEqual | equalEqual | greaterEqual | lessEqual =>
    obtain ⟨rfl, rfl⟩ := List.cons.inj source
    exact Nat.le_refl 2
  case leftParen | rightParen | leftBrace | rightBrace | comma | dot | minus | plus | semicolon
      | slash | star | bang | equal | greater | less =>
    exact first_text_pos c cs
  all_goals exact length_name_le (Spells.isName_of_keyword rfl) source

end Cut

namespace Denotes

/-- The first cut of a source takes in all of a lexeme that the source starts with. -/
theorem length_le {lexeme : String} {kind : TokenKind} {literal : Option Literal}
    {rest cs : List Char} {c : Char} (h : Denotes lexeme kind literal)
    (source : lexeme.toList ++ rest = c :: cs) :
    lexeme.toList.length ≤ (Cut.first c cs).text.length := by
  cases h with
  | fixed spelled => exact Cut.length_fixed_le spelled source
  | name letters => exact Cut.length_name_le letters source
  | string value inside =>
    have quoted : ("\"" ++ value ++ "\"").toList ++ rest =
        '"' :: (value.toList ++ '"' :: rest) := by simp
    obtain ⟨rfl, rfl⟩ := List.cons.inj (quoted.symm.trans source)
    rw [Cut.first_string inside]
    simp
  | number numeral =>
    rw [String.toList_ofList] at source ⊢
    exact Cut.length_numeral_le numeral source

end Denotes

end LoxSyntax
