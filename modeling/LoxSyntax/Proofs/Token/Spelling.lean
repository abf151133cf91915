import Mathlib.Data.List.TakeWhile
import LoxSyntax.Token.Scan

namespace LoxSyntax

/-- A letter, and characters that a name goes on with. -/
def IsName (text : List Char) : Prop :=
  ∃ c cs, text = c :: cs ∧ Letter.startsName c = true ∧ ∀ d ∈ cs, Letter.continuesName d = true

/-- The text of a number: digits, and behind a point more of them if there is a point. -/
structure IsNumeral (text whole places : List Char) : Prop where
  spelled : text = if places.isEmpty then whole else whole ++ '.' :: places
  solid : whole ≠ []
  digits : ∀ c ∈ whole ++ places, c.isDigit = true

/-- The digits of a numeral are told apart by the point between them. -/
theorem IsNumeral.parts {text whole places : List Char} (h : IsNumeral text whole places) :
    text.takeWhile Char.isDigit = whole ∧ (text.dropWhile Char.isDigit).tail = places := by
  have digits : ∀ c ∈ whole, c.isDigit = true :=
    fun c inside => h.digits c (List.mem_append_left places inside)
  rw [h.spelled]
  cases places with
  | nil =>
    have none : whole.dropWhile Char.isDigit = [] := List.dropWhile_eq_nil_iff.mpr digits
    exact ⟨List.takeWhile_eq_self_iff.mpr digits, congrArg List.tail none⟩
  | cons d places =>
    have front : (whole ++ '.' :: d :: places).takeWhile Char.isDigit = whole := by
      rw [List.takeWhile_append_of_pos digits]
      exact List.append_nil whole
    have behind : (whole ++ '.' :: d :: places).dropWhile Char.isDigit = '.' :: d :: places := by
      rw [List.dropWhile_append_of_pos digits]
      rfl
    exact ⟨front, congrArg List.tail behind⟩

/-- Only characters that a name may go on with are in one. -/
theorem IsName.not_mem {text : List Char} {c : Char} (h : IsName text)
    (other : Letter.continuesName c = false) : c ∉ text := by
  obtain ⟨d, ds, rfl, letter, others⟩ := h
  have all : ∀ d' ∈ d :: ds, Letter.continuesName d' = true :=
    List.forall_mem_cons.mpr ⟨Letter.continuesName_of_startsName letter, others⟩
  intro inside
  exact Bool.false_ne_true (other.symm.trans (all c inside))

/-- Only digits and a point are in a number. -/
theorem IsNumeral.not_mem {text whole places : List Char} {c : Char}
    (h : IsNumeral text whole places) (digit : c.isDigit = false) (point : c ≠ '.') :
    c ∉ text := by
  have apart : c ∉ whole ++ places := fun inside =>
    Bool.false_ne_true (digit.symm.trans (h.digits c inside))
  obtain ⟨front, behind⟩ := not_or.mp (mt List.mem_append.mpr apart)
  rw [h.spelled]
  split
  · exact front
  · simp [front, behind, point]

/-- The token is spelled, and carries a value, as its kind asks for. -/
def Token.Spelled (t : Token) : Prop :=
  match t.kind with
  | .identifier =>
    IsName t.lexeme.toList ∧ TokenKind.keyword? t.lexeme = none ∧ t.literal = none
  | .string => ∃ value, t.literal = some (.string value) ∧ '"' ∉ value.toList
  | .number => ∃ num den, t.literal = some (.number (.ofRatio num den)) ∧
      (Binary64.ofRatio num den).isFinite = true
  | .eof => True
  | kind => kind.spelling? = some t.lexeme ∧ t.literal = none

namespace Token.Spelled

theorem number {t : Token} (h : t.Spelled) (is : t.kind = .number) :
    ∃ num den, t.literal = some (.number (.ofRatio num den)) ∧
      (Binary64.ofRatio num den).isFinite = true := by
  unfold Token.Spelled at h
  rwa [is] at h

theorem string {t : Token} (h : t.Spelled) (is : t.kind = .string) :
    ∃ value, t.literal = some (.string value) ∧ '"' ∉ value.toList := by
  unfold Token.Spelled at h
  rwa [is] at h

end Token.Spelled

namespace Cut

/-- The piece, if it is a token, is spelled wherever it starts. -/
def Spelled (cut : Cut) : Prop :=
  ∀ kind literal, cut.piece = .token kind literal →
    ∀ line, (⟨kind, String.ofList cut.text, literal, line⟩ : Token).Spelled

theorem spelled_of_spelling {kind : TokenKind} {text rest : List Char}
    (h : kind.spelling? = some (String.ofList text)) :
    Spelled ⟨.token kind none, text, rest⟩ := by
  intro _ _ h' line
  cases h'
  cases kind <;> first | exact ⟨h, rfl⟩ | cases h

theorem operator_spelled {alone withEqual : TokenKind} {c : Char} (cs : List Char)
    (h : alone.spelling? = some (String.ofList [c]))
    (h' : withEqual.spelling? = some (String.ofList [c, '='])) :
    (operator alone withEqual c cs).Spelled := by
  unfold operator
  split
  · exact spelled_of_spelling h'
  · exact spelled_of_spelling h

theorem string_spelled (cs : List Char) : (string cs).Spelled := by
  unfold string
  dsimp only
  split
  · intro _ _ h
    cases h
  · intro _ _ h' line
    cases h'
    refine ⟨_, rfl, fun inside => ?_⟩
    rw [String.toList_ofList] at inside
    have other := List.mem_takeWhile_imp inside
    simp at other

theorem number_spelled (c : Char) (cs : List Char) : (number c cs).Spelled := by
  intro kind literal h line
  simp only [number, numeral] at h
  split at h
  next finite =>
    cases h
    exact ⟨_, _, rfl, finite⟩
  · cases h

theorem name_spelled {c : Char} (cs : List Char) (h : Letter.startsName c = true) :
    (name c cs).Spelled := by
  intro _ _ h' line
  cases h'
  have isName : IsName (c :: cs.takeWhile Letter.continuesName) :=
    ⟨c, _, rfl, h, fun d is => List.mem_takeWhile_imp is⟩
  change Token.Spelled
    ⟨(TokenKind.keyword? (String.ofList (name c cs).text)).getD .identifier, _, _, _⟩
  cases keyword : TokenKind.keyword? (String.ofList (name c cs).text) with
  | none =>
    refine ⟨?_, keyword, rfl⟩
    rw [String.toList_ofList]
    exact isName
  | some kind =>
    have only := TokenKind.spelling?_of_keyword? keyword
    exact @spelled_of_spelling kind _ [] only kind none rfl line

/-- The first piece of a source is spelled. -/
theorem first_spelled (c : Char) (cs : List Char) : (first c cs).Spelled := by
  unfold first
  split
  case h_11 | h_12 | h_13 | h_14 => exact operator_spelled cs rfl rfl
  case h_15 =>
    split
    · intro _ _ h
      cases h
    · exact spelled_of_spelling rfl
  case h_16 | h_17 | h_18 | h_19 => nofun
  case h_20 => exact string_spelled cs
  case h_21 =>
    split
    · exact number_spelled c cs
    split
    next letter => exact name_spelled cs letter
    · intro _ _ h'
      cases h'
  all_goals exact spelled_of_spelling rfl

end Cut

/-- Every token of a scan is spelled. -/
theorem pieces_spelled (cs : List Char) (line : Nat) :
    ∀ t ∈ (Scanned.ofPieces line (pieces cs)).tokens, t.Spelled := by
  fun_induction pieces cs generalizing line with
  | case1 =>
    intro t is
    obtain rfl := List.mem_singleton.mp is
    trivial
  | case2 c cs ih =>
    have first := Cut.first_spelled c cs
    have later := ih (line + (Cut.first c cs).text.count '\n')
    cases piece : (Cut.first c cs).piece with
    | token kind literal => exact List.forall_mem_cons.mpr ⟨first kind literal piece line, later⟩
    | blank | comment | fault fault => exact later

theorem scan_spelled (source : String) : ∀ t ∈ (scan source).tokens, t.Spelled :=
  pieces_spelled source.toList 1

end LoxSyntax
