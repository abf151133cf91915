import LoxSyntax.Diagnostic
import LoxSyntax.Text.Letter

namespace LoxSyntax

/-- What a stretch of source text is. -/
inductive Piece where
  | token (kind : TokenKind) (literal : Option Literal)
  | blank
  | comment
  | fault (fault : ScanFault)
  deriving DecidableEq, Repr

/-- A piece, the text it covers, and the source that follows. -/
structure Cut where
  piece : Piece
  text : List Char
  rest : List Char
  deriving DecidableEq, Repr

namespace Cut

/-- A piece of the one character `c`. -/
def single (piece : Piece) (c : Char) (cs : List Char) : Cut := ⟨piece, [c], cs⟩

/-- The operator `c`, or the one that a following `=` makes of it. -/
def operator (alone withEqual : TokenKind) (c : Char) : List Char → Cut
  | '=' :: cs => ⟨.token withEqual none, [c, '='], cs⟩
  | cs => single (.token alone none) c cs

/-- A comment runs up to the end of its line, and leaves the newline. -/
def comment (cs : List Char) : Cut :=
  ⟨.comment, '/' :: '/' :: cs.takeWhile (· != '\n'), cs.dropWhile (· != '\n')⟩

/-- A string runs up to the next quote, over any number of lines; without one it takes the whole
rest of the source. -/
def string (cs : List Char) : Cut :=
  let value := cs.takeWhile (· != '"')
  match cs.dropWhile (· != '"') with
  | [] => ⟨.fault .unterminatedString, '"' :: value, []⟩
  | quote :: rest =>
    ⟨.token .string (some (.string (String.ofList value))), '"' :: value ++ [quote], rest⟩

/-- The digits behind a point. A point without digits behind it is no part of the number. -/
def fraction : List Char → List Char × List Char
  | '.' :: cs =>
    if (cs.takeWhile Char.isDigit).isEmpty then ([], '.' :: cs)
    else (cs.takeWhile Char.isDigit, cs.dropWhile Char.isDigit)
  | cs => ([], cs)

/-- What a numeral is: a token, unless its value is too large for a finite number. -/
def numeral (whole places : List Char) : Piece :=
  let value := (Decimal.ofDigits whole places).toBinary64
  if value.isFinite then .token .number (some (.number value)) else .fault .numberTooLarge

/-- A numeral that starts with the digit `c`. -/
def number (c : Char) (cs : List Char) : Cut :=
  let whole := c :: cs.takeWhile Char.isDigit
  let (places, rest) := fraction (cs.dropWhile Char.isDigit)
  ⟨numeral whole places, if places.isEmpty then whole else whole ++ '.' :: places, rest⟩

/-- A name that starts with the letter `c`; the keywords are names of their own kind. -/
def name (c : Char) (cs : List Char) : Cut :=
  let text := c :: cs.takeWhile Letter.continuesName
  let kind := (TokenKind.keyword? (String.ofList text)).getD .identifier
  ⟨.token kind none, text, cs.dropWhile Letter.continuesName⟩

/-- The first piece of the source `c :: cs`. -/
def first (c : Char) (cs : List Char) : Cut :=
  match c with
  | '(' => single (.token .leftParen none) c cs
  | ')' => single (.token .rightParen none) c cs
  | '\x7b' => single (.token .leftBrace none) c cs
  | '\x7d' => single (.token .rightBrace none) c cs
  | ',' => single (.token .comma none) c cs
  | '.' => single (.token .dot none) c cs
  | '-' => single (.token .minus none) c cs
  | '+' => single (.token .plus none) c cs
  | ';' => single (.token .semicolon none) c cs
  | '*' => single (.token .star none) c cs
  | '!' => operator .bang .bangEqual c cs
  | '=' => operator .equal .equalEqual c cs
  | '<' => operator .less .lessEqual c cs
  | '>' => operator .greater .greaterEqual c cs
  | '/' =>
    match cs with
    | '/' :: cs => comment cs
    | cs => single (.token .slash none) c cs
  | ' ' | '\t' | '\r' | '\n' => single .blank c cs
  | '"' => string cs
  | c =>
    if c.isDigit then number c cs
    else if Letter.startsName c then name c cs
    else single (.fault (.unexpected c)) c cs

theorem operator_text (alone withEqual : TokenKind) (c : Char) (cs : List Char) :
    (operator alone withEqual c cs).text ++ (operator alone withEqual c cs).rest = c :: cs := by
  unfold operator
  split <;> simp [single]

theorem comment_text (cs : List Char) :
    (comment cs).text ++ (comment cs).rest = '/' :: '/' :: cs := by
  simp [comment]

theorem string_text (cs : List Char) : (string cs).text ++ (string cs).rest = '"' :: cs := by
  have h := List.takeWhile_append_dropWhile (p := (· != '"')) (l := cs)
  unfold string
  split
  · simp_all
  · rw [‹cs.dropWhile _ = _›] at h
    simp [h]

/-- Nothing of the text is lost when the places behind a point are split off. -/
theorem fraction_text (cs : List Char) :
    (if (fraction cs).1.isEmpty then [] else '.' :: (fraction cs).1) ++ (fraction cs).2 = cs := by
  unfold fraction
  split
  · split <;> simp_all
  · simp

theorem number_text (c : Char) (cs : List Char) :
    (number c cs).text ++ (number c cs).rest = c :: cs := by
  have h := fraction_text (cs.dropWhile Char.isDigit)
  simp only [number]
  split at h
  · simp_all
  · simp_all

theorem name_text (c : Char) (cs : List Char) :
    (name c cs).text ++ (name c cs).rest = c :: cs := by
  simp [name]

/-- The first piece and what follows it make up the source. -/
theorem first_text (c : Char) (cs : List Char) :
    (first c cs).text ++ (first c cs).rest = c :: cs := by
  unfold first
  split
  case h_15 =>
    split
    · exact comment_text _
    · rfl
  case h_20 => exact string_text _
  case h_21 =>
    split
    · exact number_text _ _
    split
    · exact name_text _ _
    · rfl
  all_goals simp [single, operator_text]

theorem number_text_pos (c : Char) (cs : List Char) : 0 < (number c cs).text.length := by
  simp only [number]
  split <;> simp

theorem operator_text_pos (alone withEqual : TokenKind) (c : Char) (cs : List Char) :
    0 < (operator alone withEqual c cs).text.length := by
  unfold operator
  split <;> simp [single]

/-- A piece covers at least one character. -/
theorem first_text_pos (c : Char) (cs : List Char) : 0 < (first c cs).text.length := by
  unfold first
  split
  case h_15 => split <;> simp [comment, single]
  case h_20 => unfold string; split <;> simp
  case h_21 =>
    split
    · exact number_text_pos _ _
    split <;> simp [name, single]
  all_goals simp [single, operator_text_pos]

theorem length_rest_lt (c : Char) (cs : List Char) : (first c cs).rest.length < cs.length + 1 := by
  have pos := first_text_pos c cs
  have whole := congrArg List.length (first_text c cs)
  simp only [List.length_append, List.length_cons] at whole
  omega

end Cut

/-- All pieces of a source, each with the text it covers. -/
def pieces : List Char → List (Piece × List Char)
  | [] => []
  | c :: cs => ((Cut.first c cs).piece, (Cut.first c cs).text) :: pieces (Cut.first c cs).rest
termination_by source => source.length
decreasing_by exact Cut.length_rest_lt c cs

/-- Nothing is lost, doubled or moved: the pieces make up the source. -/
theorem flatten_pieces (source : List Char) : ((pieces source).map Prod.snd).flatten = source := by
  fun_induction pieces source with
  | case1 => rfl
  | case2 c cs ih => simp [ih, Cut.first_text]

/-- The tokens of a source, closed by the one of kind `eof`, and its faults. -/
structure Scanned where
  tokens : List Token
  errors : List ScanError
  deriving DecidableEq, Repr

namespace Scanned

/-- What pieces amount to when the first of them starts on the given line. Each takes as many lines
as it has newlines; `scan_eq_run` counts them one character at a time. -/
def ofPieces (line : Nat) : List (Piece × List Char) → Scanned
  | [] => ⟨[Token.eof line], []⟩
  | (piece, text) :: more =>
    let later := ofPieces (line + text.count '\n') more
    match piece with
    | .token kind literal => ⟨⟨kind, String.ofList text, literal, line⟩ :: later.tokens, later.errors⟩
    | .fault fault => ⟨later.tokens, ⟨line, fault⟩ :: later.errors⟩
    | .blank | .comment => later

def equals (a b : Scanned) : Bool :=
  a.tokens.isEqv b.tokens Token.equals && a.errors == b.errors

end Scanned

/-- Reads a source as tokens. A fault is recorded and reading goes on behind it. -/
def scan (source : String) : Scanned := .ofPieces 1 (pieces source.toList)

end LoxSyntax
