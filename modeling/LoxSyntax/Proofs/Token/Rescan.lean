import LoxSyntax.Proofs.Number.ReadBack
import LoxSyntax.Proofs.Token.Spelling

namespace LoxSyntax

/-- A scan of the rest of a source, from the line on which it starts. -/
def scanFrom (line : Nat) (cs : List Char) : Scanned := .ofPieces line (pieces cs)

/-- Tokens in front of those of a scan. -/
def Scanned.behind (later : Scanned) (ts : List Token) : Scanned :=
  ⟨ts ++ later.tokens, later.errors⟩

theorem scanFrom_token {c : Char} {cs text rest : List Char} {kind : TokenKind}
    {literal : Option Literal} (line : Nat)
    (h : Cut.first c cs = ⟨.token kind literal, text, rest⟩) :
    scanFrom line (c :: cs) = (scanFrom (line + text.count '\n') rest).behind
      [⟨kind, String.ofList text, literal, line⟩] := by
  unfold scanFrom
  rw [pieces, h]
  rfl

theorem scanFrom_blank {c : Char} {cs : List Char} (line : Nat)
    (h : Cut.first c cs = ⟨.blank, [c], cs⟩) :
    scanFrom line (c :: cs) = scanFrom (line + [c].count '\n') cs := by
  unfold scanFrom
  rw [pieces, h]
  rfl

/-- The text is read as these tokens, over these lines, in front of anything that may follow. -/
def Spells (may : List Char → Prop) (text : List Char) (line : Nat) (ts : List Token)
    (line' : Nat) : Prop :=
  ∀ rest, may rest → scanFrom line (text ++ rest) = (scanFrom line' rest).behind ts

/-- What may follow a phrase that is closed. -/
def Anything (_ : List Char) : Prop := True

/-- The blanks and the marks that stand behind words. -/
def separators : List Char := [' ', '\t', '\r', '\n', '(', ')', ',', ';']

/-- What ends a word or a number: the end of the text, a separator, or a point that no digit
follows. -/
def Stops (rest : List Char) : Prop :=
  match rest with
  | [] => True
  | c :: cs => c ∈ separators ∨ c = '.' ∧ ∀ d ∈ cs.head?, d.isDigit = false

theorem scanFrom_nil (line : Nat) : scanFrom line [] = ⟨[Token.eof line], []⟩ := by
  unfold scanFrom
  rw [pieces]
  rfl

/-- A whole text that is read as tokens has no fault. -/
theorem Spells.scan {may : List Char → Prop} {text : String} {ts : List Token} {line : Nat}
    (h : Spells may text.toList 1 ts line) (last : may []) :
    scan text = ⟨ts ++ [Token.eof line], []⟩ := by
  have read := h [] last
  rw [List.append_nil, scanFrom_nil] at read
  exact read

namespace Spells

theorem nil {may : List Char → Prop} {line : Nat} : Spells may [] line [] line := fun _ _ => rfl

theorem append {may may' : List Char → Prop} {text text' : List Char} {line line' line'' : Nat}
    {ts us : List Token} (h : Spells may text line ts line')
    (h' : Spells may' text' line' us line'') (fit : ∀ rest, may' rest → may (text' ++ rest)) :
    Spells may' (text ++ text') line (ts ++ us) line'' := by
  intro rest follows
  rw [List.append_assoc, h _ (fit rest follows), h' rest follows]
  unfold Scanned.behind
  rw [List.append_assoc]

/-- A mark is a token by itself. -/
theorem mark {may : List Char → Prop} {text : List Char} {line line' : Nat} {ts : List Token}
    {c : Char} (kind : TokenKind) (hcut : ∀ cs, Cut.first c cs = .single (.token kind none) c cs)
    (hline : c ≠ '\n') (h : Spells may text line ts line') :
    Spells may (c :: text) line (⟨kind, String.ofList [c], none, line⟩ :: ts) line' := by
  intro rest follows
  have none : [c].count '\n' = 0 := by simp [hline]
  rw [List.cons_append, scanFrom_token line (hcut (text ++ rest)), none, Nat.add_zero,
    h rest follows]
  rfl

theorem blank {may : List Char → Prop} {text : List Char} {line line' : Nat} {ts : List Token}
    (h : Spells may text line ts line') : Spells may (' ' :: text) line ts line' :=
  fun rest follows => (scanFrom_blank line rfl).trans (h rest follows)

theorem newline {may : List Char → Prop} {text : List Char} {line line' : Nat} {ts : List Token}
    (h : Spells may text (line + 1) ts line') : Spells may ('\n' :: text) line ts line' :=
  fun rest follows => (scanFrom_blank line rfl).trans (h rest follows)

end Spells

namespace Cut

/-- A point with a digit behind it is part of a number. -/
theorem fraction_of_digit {d : Char} (more : List Char) (digit : d.isDigit = true) :
    fraction ('.' :: d :: more) =
      (d :: more.takeWhile Char.isDigit, more.dropWhile Char.isDigit) := by
  simp [fraction, List.takeWhile_cons_of_pos digit, List.dropWhile_cons_of_pos digit]

/-- Any other point is not. -/
theorem fraction_of_not_digit {rest : List Char}
    (other : ∀ d more, rest = '.' :: d :: more → ¬d.isDigit = true) :
    fraction rest = ([], rest) := by
  unfold fraction
  split
  next more =>
    cases more with
    | nil => rfl
    | cons d more =>
      rw [List.takeWhile_cons_of_neg (other d more rfl)]
      rfl
  · rfl

end Cut

namespace Stops

/-- Nothing that ends a word is a part of one. -/
theorem head_eq_false {rest : List Char} (h : Stops rest) {p : Char → Bool}
    (hp : ('.' :: separators).any p = false) : ∀ c ∈ rest.head?, p c = false := by
  have none : ∀ c ∈ '.' :: separators, p c = false := fun c is =>
    Bool.eq_false_iff.mpr (List.any_eq_false.mp hp c is)
  cases rest with
  | nil => nofun
  | cons c cs =>
    intro _ h'
    cases h'
    rcases h with mark | ⟨rfl, -⟩
    · exact none c (List.mem_cons_of_mem _ mark)
    · exact none '.' List.mem_cons_self

/-- Nor does it make another operator of one. -/
theorem head_ne {rest : List Char} (h : Stops rest) {c : Char}
    (hc : ('.' :: separators).any (· == c) = false) : rest.head? ≠ some c := by
  intro head
  have other := h.head_eq_false hc c head
  simp at other

theorem takeWhile_append {rest : List Char} (h : Stops rest) {p : Char → Bool}
    (hp : ('.' :: separators).any p = false) {cs : List Char} (all : ∀ c ∈ cs, p c = true) :
    (cs ++ rest).takeWhile p = cs ∧ (cs ++ rest).dropWhile p = rest := by
  have head := h.head_eq_false hp
  rw [List.takeWhile_append_of_pos all, List.dropWhile_append_of_pos all]
  cases rest with
  | nil => simp
  | cons c rest => simp [head c rfl]

/-- A point that may follow a number is no part of it. -/
theorem fraction_eq {rest : List Char} (h : Stops rest) : Cut.fraction rest = ([], rest) := by
  refine Cut.fraction_of_not_digit fun d more same digit => ?_
  subst same
  rcases h with mark | ⟨-, other⟩
  · exact absurd mark (by decide)
  · exact Bool.false_ne_true ((other d rfl).symm.trans digit)

end Stops

namespace Cut

/-- A digit starts a number, as it is no mark. -/
theorem first_digit {c : Char} (cs : List Char) (h : c.isDigit = true) :
    first c cs = number c cs := by
  unfold first
  split
  case h_21 => rw [if_pos h]
  all_goals cases h

theorem le_toNat_of_isAlpha {c : Char} (h : c.isAlpha = true) : 65 ≤ c.toNat := by
  rcases Bool.or_eq_true_iff.mp h with upper | lower
  · exact (of_decide_eq_true upper : c.val ≥ 65 ∧ c.val ≤ 90).1
  · have lowest : 97 ≤ c.toNat :=
      (of_decide_eq_true (Bool.and_eq_true_iff.mp lower).1 : c.val ≥ 97)
    omega

theorem not_isDigit_of_startsName {c : Char} (h : Letter.startsName c = true) :
    c.isDigit = false := by
  cases digit : c.isDigit with
  | false => rfl
  | true =>
    have upTo : c.toNat ≤ 57 := (of_decide_eq_true (Bool.and_eq_true_iff.mp digit).2 : c.val ≤ 57)
    have ascii : c.toNat < 128 := by omega
    rw [Letter.startsName, if_pos ascii, Bool.or_eq_true, beq_iff_eq] at h
    rcases h with letter | rfl
    · have beyond := le_toNat_of_isAlpha letter
      omega
    · exact absurd upTo (by decide)

/-- A letter starts a name. -/
theorem first_letter {c : Char} (cs : List Char) (h : Letter.startsName c = true) :
    first c cs = name c cs := by
  unfold first
  split
  case h_21 => rw [not_isDigit_of_startsName h, if_neg Bool.false_ne_true, if_pos h]
  all_goals cases h

/-- A string is read up to its quote, in front of anything. -/
theorem first_string {value : List Char} (h : '"' ∉ value) (rest : List Char) :
    first '"' (value ++ '"' :: rest) =
      ⟨.token .string (some (.string (String.ofList value))), '"' :: value ++ ['"'], rest⟩ := by
  have inside : ∀ c ∈ value, (c != '"') = true := by
    intro c is
    rw [bne_iff_ne]
    intro same
    exact h (same ▸ is)
  change string (value ++ '"' :: rest) = _
  unfold string
  rw [List.takeWhile_append_of_pos inside, List.dropWhile_append_of_pos inside]
  simp

/-- A numeral is read in full, in front of what ends one. -/
theorem first_numeral {text whole places rest : List Char} (h : IsNumeral text whole places)
    (stops : Stops rest) :
    ∃ c cs, text ++ rest = c :: cs ∧ first c cs = ⟨numeral whole places, text, rest⟩ := by
  have isDigit : ('.' :: separators).any Char.isDigit = false := rfl
  obtain ⟨front, behind⟩ := List.forall_mem_append.mp h.digits
  obtain ⟨c, cs, rfl⟩ := List.exists_cons_of_ne_nil h.solid
  obtain ⟨digit, others⟩ := List.forall_mem_cons.mp front
  rw [h.spelled]
  by_cases none : places = []
  · obtain ⟨read, left⟩ := stops.takeWhile_append isDigit others
    refine ⟨c, cs ++ rest, by simp [none], ?_⟩
    rw [first_digit _ digit]
    simp [number, read, left, stops.fraction_eq, none]
  · obtain ⟨read, left⟩ := stops.takeWhile_append isDigit behind
    have point : fraction ('.' :: (places ++ rest)) = (places, rest) := by
      simp [fraction, read, left, none]
    have taken : (cs ++ '.' :: (places ++ rest)).takeWhile Char.isDigit = cs := by
      rw [List.takeWhile_append_of_pos others]
      simp
    have dropped : (cs ++ '.' :: (places ++ rest)).dropWhile Char.isDigit =
        '.' :: (places ++ rest) := by
      rw [List.dropWhile_append_of_pos others]
      simp
    refine ⟨c, cs ++ '.' :: (places ++ rest), by simp [none], ?_⟩
    rw [first_digit _ digit]
    simp [number, taken, dropped, point, none]

end Cut

namespace Spells

/-- A name or a keyword is read in full. -/
theorem word {line : Nat} {w : String} (h : IsName w.toList) :
    Spells Stops w.toList line
      [⟨(TokenKind.keyword? w).getD .identifier, w, none, line⟩] line := by
  have newline : '\n' ∉ w.toList := h.not_mem rfl
  obtain ⟨c, cs, whole, letter, others⟩ := h
  intro rest stops
  obtain ⟨read, left⟩ := stops.takeWhile_append (p := Letter.continuesName) rfl others
  have cut : Cut.first c (cs ++ rest) =
      ⟨.token ((TokenKind.keyword? w).getD .identifier) none, c :: cs, rest⟩ := by
    have same : w = String.ofList (c :: cs) := by rw [← whole, String.ofList_toList]
    rw [Cut.first_letter _ letter, Cut.name, read, left, same]
  have none : (c :: cs).count '\n' = 0 := by
    rw [← whole]
    exact List.count_eq_zero.mpr newline
  rw [whole, List.cons_append, scanFrom_token line cut, none, Nat.add_zero, ← whole,
    String.ofList_toList]

/-- A string is read up to its quote, over all its lines. -/
theorem string {line : Nat} {may : List Char → Prop} {value : String} (h : '"' ∉ value.toList) :
    ∃ line', Spells may ("\"" ++ value ++ "\"").toList line
      [⟨.string, "\"" ++ value ++ "\"", some (.string value), line⟩] line' := by
  refine ⟨line + ('"' :: value.toList ++ ['"']).count '\n', fun rest _ => ?_⟩
  have cut := Cut.first_string h rest
  rw [String.ofList_toList] at cut
  have text : ("\"" ++ value ++ "\"").toList ++ rest = '"' :: (value.toList ++ '"' :: rest) := by
    simp
  have lexeme : String.ofList ('"' :: value.toList ++ ['"']) = "\"" ++ value ++ "\"" :=
    String.toList_inj.mp (by simp)
  rw [text, scanFrom_token line cut, lexeme]

/-- A numeral with a finite value is read in full. -/
theorem numeral {line : Nat} {text whole places : List Char} {value : Binary64}
    (h : IsNumeral text whole places)
    (finite : Cut.numeral whole places = .token .number (some (.number value))) :
    Spells Stops text line [⟨.number, String.ofList text, some (.number value), line⟩] line := by
  intro rest stops
  obtain ⟨c, cs, whole, cut⟩ := Cut.first_numeral h stops
  have none : text.count '\n' = 0 := List.count_eq_zero.mpr (h.not_mem rfl (by decide))
  rw [finite] at cut
  rw [whole, scanFrom_token line cut, none, Nat.add_zero]

/-- The digits of a decimal are read as the number it stands for. -/
theorem digits {line : Nat} (d : Decimal) {value : Binary64} (hvalue : d.toBinary64 = value)
    (finite : value.isFinite = true) :
    Spells Stops d.digits line
      [⟨.number, String.ofList d.digits, some (.number value), line⟩] line := by
  have isNumeral : IsNumeral d.digits d.whole d.fraction := ⟨d.digits_eq, d.whole_ne_nil,
    List.forall_mem_append.mpr ⟨d.whole_isDigit, d.fraction_isDigit⟩⟩
  exact numeral isNumeral (by rw [Cut.numeral, d.ofDigits_digits, hvalue, if_pos finite])

theorem isName_of_keyword {w : String} {kind : TokenKind} (h : TokenKind.keyword? w = some kind) :
    IsName w.toList := by
  unfold TokenKind.keyword? at h
  split at h <;> first | exact ⟨_, _, rfl, rfl, List.all_eq_true.mp rfl⟩ | cases h

theorem keyword {line : Nat} {w : String} {kind : TokenKind}
    (h : TokenKind.keyword? w = some kind) :
    Spells Stops w.toList line [⟨kind, w, none, line⟩] line := by
  have read := @word line w (isName_of_keyword h)
  rwa [h] at read

/-- An operator that a `=` behind it would change, in front of something else. -/
theorem operator {line : Nat} {may : List Char → Prop} {c : Char} {alone withEqual : TokenKind}
    (hline : c ≠ '\n') (hcut : ∀ cs, Cut.first c cs = Cut.operator alone withEqual c cs)
    (other : ∀ rest, may rest → rest.head? ≠ some '=') :
    Spells may [c] line [⟨alone, String.ofList [c], none, line⟩] line := by
  intro rest follows
  have single : Cut.first c rest = .single (.token alone none) c rest := by
    rw [hcut]
    unfold Cut.operator
    split
    · exact absurd rfl (other _ follows)
    · rfl
  have none : [c].count '\n' = 0 := by simp [hline]
  change scanFrom line (c :: rest) = _
  rw [scanFrom_token line single, none, Nat.add_zero]

theorem operatorEqual {line : Nat} {may : List Char → Prop} {c : Char} {alone withEqual : TokenKind}
    (hline : c ≠ '\n') (hcut : ∀ cs, Cut.first c cs = Cut.operator alone withEqual c cs) :
    Spells may [c, '='] line [⟨withEqual, String.ofList [c, '='], none, line⟩] line := by
  intro rest _
  have both : Cut.first c ('=' :: rest) = ⟨.token withEqual none, [c, '='], rest⟩ := hcut _
  have none : [c, '='].count '\n' = 0 := by simp [hline]
  change scanFrom line (c :: '=' :: rest) = _
  rw [scanFrom_token line both, none, Nat.add_zero]

/-- A division, in front of something that does not make it a comment. -/
theorem slash {line : Nat} {may : List Char → Prop}
    (other : ∀ rest, may rest → rest.head? ≠ some '/') :
    Spells may ['/'] line [⟨.slash, "/", none, line⟩] line := by
  intro rest follows
  have single : Cut.first '/' rest = .single (.token .slash none) '/' rest := by
    cases rest with
    | nil => rfl
    | cons d cs =>
      have apart : d ≠ '/' := fun same => other _ follows (congrArg some same)
      simp [Cut.first, apart]
  exact scanFrom_token line single

/-- The only spelling of a keyword or a mark is read as it. -/
theorem spelling {line : Nat} {kind : TokenKind} {w : String} (h : kind.spelling? = some w) :
    Spells Stops w.toList line [⟨kind, w, none, line⟩] line := by
  cases kind <;> cases h
  case bang | equal | greater | less =>
    exact operator (by decide) (fun _ => rfl) fun _ stops => stops.head_ne rfl
  case bangEqual | equalEqual | greaterEqual | lessEqual =>
    exact operatorEqual (by decide) fun _ => rfl
  case slash => exact slash fun _ stops => stops.head_ne rfl
  case leftParen | rightParen | leftBrace | rightBrace | comma | dot | minus | plus | semicolon
      | star =>
    exact mark _ (fun _ => rfl) (by decide) nil
  all_goals exact keyword rfl

end Spells

end LoxSyntax
