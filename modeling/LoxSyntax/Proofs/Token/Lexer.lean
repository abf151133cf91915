import LoxSyntax.Proofs.Token.Tiling

namespace LoxSyntax

/-- A scan that goes through its source a character at a time. It counts lines as it moves on, and
remembers on which of them the current lexeme started. -/
structure Lexer where
  source : List Char
  /-- The place where the current lexeme starts. -/
  start : Nat
  /-- The place of the next character. -/
  pos : Nat
  line : Nat
  startLine : Nat
  tokens : Array Token
  errors : Array ScanError

namespace Lexer

def ofSource (source : List Char) : Lexer := ⟨source, 0, 0, 1, 1, #[], #[]⟩

def peek (l : Lexer) : Option Char := l.source[l.pos]?

def peekNext (l : Lexer) : Option Char := l.source[l.pos + 1]?

/-- Moves on over a character; this is where lines are counted. -/
def advance (l : Lexer) : Lexer :=
  match l.peek with
  | none => l
  | some c => { l with pos := l.pos + 1, line := if c = '\n' then l.line + 1 else l.line }

theorem advance_of_peek {l : Lexer} {c : Char} (next : l.peek = some c) :
    l.advance = { l with pos := l.pos + 1, line := if c = '\n' then l.line + 1 else l.line } := by
  unfold advance
  rw [next]

/-- A character that is moved over is one of the source. -/
theorem length_advance_lt {l : Lexer} {c : Char} (next : l.peek = some c) :
    l.advance.source.length - l.advance.pos < l.source.length - l.pos := by
  have inside := (List.getElem?_eq_some_iff.mp next).1
  rw [advance_of_peek next]
  dsimp only
  omega

/-- Moves on over all characters of a kind. -/
def advanceWhile (p : Char → Bool) (l : Lexer) : Lexer :=
  if l.peek.any p then l.advance.advanceWhile p else l
termination_by l.source.length - l.pos
decreasing_by
  rename_i found
  obtain ⟨c, next, -⟩ := (Option.any_eq_true p l.peek).mp found
  exact length_advance_lt next

/-- The text between two places. -/
def slice (l : Lexer) (i j : Nat) : List Char := (l.source.drop i).take (j - i)

def lexeme (l : Lexer) : List Char := l.slice l.start l.pos

def addToken (kind : TokenKind) (literal : Option Literal) (l : Lexer) : Lexer :=
  { l with tokens := l.tokens.push ⟨kind, String.ofList l.lexeme, literal, l.startLine⟩ }

def error (fault : ScanFault) (l : Lexer) : Lexer :=
  { l with errors := l.errors.push ⟨l.startLine, fault⟩ }

/-- The operator that was read, or the one that a following `=` makes of it. -/
def operator (alone withEqual : TokenKind) (l : Lexer) : Lexer :=
  if l.peek = some '=' then l.advance.addToken withEqual none else l.addToken alone none

/-- A second slash makes a comment of the first, which runs up to the end of the line. -/
def slash (l : Lexer) : Lexer :=
  if l.peek = some '/' then l.advance.advanceWhile (· != '\n') else l.addToken .slash none

def string (l : Lexer) : Lexer :=
  let l := l.advanceWhile (· != '"')
  if l.peek = none then l.error .unterminatedString
  else
    let l := l.advance
    l.addToken .string (some (.string (String.ofList (l.slice (l.start + 1) (l.pos - 1)))))

/-- The digits of a number, with a point among them if there are digits behind it. -/
def digits (l : Lexer) : Lexer :=
  let l := l.advanceWhile Char.isDigit
  if l.peek = some '.' && l.peekNext.any Char.isDigit then l.advance.advanceWhile Char.isDigit
  else l

def number (l : Lexer) : Lexer :=
  let l := l.digits
  let value :=
    numeralValue (l.lexeme.takeWhile Char.isDigit) (l.lexeme.dropWhile Char.isDigit).tail
  if value.isFinite then l.addToken .number (some (.number value)) else l.error .numberTooLarge

def name (l : Lexer) : Lexer :=
  let l := l.advanceWhile Letter.continuesName
  l.addToken ((TokenKind.keyword? (String.ofList l.lexeme)).getD .identifier) none

/-- Goes on behind the first character of a lexeme. -/
def scanBehind (c : Char) (l : Lexer) : Lexer :=
  match c with
  | '(' => l.addToken .leftParen none
  | ')' => l.addToken .rightParen none
  | '\x7b' => l.addToken .leftBrace none
  | '\x7d' => l.addToken .rightBrace none
  | ',' => l.addToken .comma none
  | '.' => l.addToken .dot none
  | '-' => l.addToken .minus none
  | '+' => l.addToken .plus none
  | ';' => l.addToken .semicolon none
  | '*' => l.addToken .star none
  | '!' => l.operator .bang .bangEqual
  | '=' => l.operator .equal .equalEqual
  | '<' => l.operator .less .lessEqual
  | '>' => l.operator .greater .greaterEqual
  | '/' => l.slash
  | ' ' | '\t' | '\r' | '\n' => l
  | '"' => l.string
  | c =>
    if c.isDigit then l.number
    else if Letter.startsName c then l.name
    else l.error (.unexpected c)

/-- Scans what starts at the next character. -/
def scanToken (l : Lexer) : Lexer :=
  match l.peek with
  | none => l
  | some c => l.advance.scanBehind c

/-- The characters that are not yet read. -/
def ahead (l : Lexer) : List Char := l.source.drop l.pos

theorem peek_eq (l : Lexer) : l.peek = l.ahead.head? := List.head?_drop.symm

/-- Starts a lexeme at the next character. -/
def begun (l : Lexer) : Lexer := { l with start := l.pos, startLine := l.line }

/-- What the text makes of the place and of the line. -/
def past (l : Lexer) (text : List Char) : Lexer :=
  { l with pos := l.pos + text.length, line := l.line + text.count '\n' }

/-- From where the lexeme started the lexer has read the text, and now is in front of the rest. -/
structure Reads (b l : Lexer) (text rest : List Char) : Prop where
  past : l = b.past text
  start : b.start = b.pos
  source : b.ahead = text ++ rest

namespace Reads

theorem begin (l : Lexer) : Reads l.begun l.begun [] l.ahead := ⟨rfl, rfl, rfl⟩

theorem ahead {b l : Lexer} {text rest : List Char} (h : Reads b l text rest) : l.ahead = rest := by
  have source := h.source
  rw [h.past]
  unfold Lexer.ahead Lexer.past
  unfold Lexer.ahead at source
  dsimp only
  rw [← List.drop_drop, source, List.drop_left]

theorem peek {b l : Lexer} {text rest : List Char} (h : Reads b l text rest) :
    l.peek = rest.head? := by
  rw [l.peek_eq, h.ahead]

theorem advance {b l : Lexer} {c : Char} {text rest : List Char} (h : Reads b l text (c :: rest)) :
    Reads b l.advance (text ++ [c]) rest where
  past := by
    rw [advance_of_peek h.peek, h.past]
    by_cases newline : c = '\n' <;> simp [Lexer.past, newline, Nat.add_assoc]
  start := h.start
  source := by rw [h.source, List.append_assoc, List.singleton_append]

theorem advanceWhile {b l : Lexer} {text rest : List Char} (h : Reads b l text rest)
    (p : Char → Bool) :
    Reads b (l.advanceWhile p) (text ++ rest.takeWhile p) (rest.dropWhile p) := by
  fun_induction Lexer.advanceWhile p l generalizing text rest with
  | case1 l found ih =>
    rw [h.peek] at found
    cases rest with
    | nil => cases found
    | cons c rest =>
      have is : p c = true := found
      have behind := ih h.advance
      rw [List.append_assoc, List.singleton_append] at behind
      rwa [List.takeWhile_cons_of_pos is, List.dropWhile_cons_of_pos is]
  | case2 l other =>
    rw [h.peek] at other
    cases rest with
    | nil => simpa using h
    | cons c rest =>
      have not : ¬p c = true := other
      rwa [List.takeWhile_cons_of_neg not, List.dropWhile_cons_of_neg not, List.append_nil]

/-- What lies inside of the text that was read. -/
theorem slice {b l : Lexer} {text rest front inner back : List Char} (h : Reads b l text rest)
    (same : text = front ++ inner ++ back) :
    l.slice (l.start + front.length) (l.pos - back.length) = inner := by
  have behind : b.source.drop (b.pos + front.length) = inner ++ (back ++ rest) := by
    have source := h.source
    unfold Lexer.ahead at source
    rw [← List.drop_drop, source, same, List.append_assoc, List.append_assoc, List.drop_left]
  have size : b.pos + text.length - back.length - (b.pos + front.length) = inner.length := by
    rw [same]
    simp only [List.length_append]
    omega
  rw [h.past]
  unfold Lexer.slice Lexer.past
  dsimp only
  rw [h.start, behind, size, List.take_left]

theorem peekNext {b l : Lexer} {c : Char} {text rest : List Char}
    (h : Reads b l text (c :: rest)) : l.peekNext = rest.head? := by
  have ahead := h.ahead
  unfold Lexer.ahead at ahead
  unfold Lexer.peekNext
  rw [← List.getElem?_drop, ahead, List.head?_eq_getElem?]
  rfl

theorem lexeme {b l : Lexer} {text rest : List Char} (h : Reads b l text rest) :
    l.lexeme = text :=
  h.slice (by simp : text = [] ++ text ++ [])

end Reads

/-- Adds what a piece amounts to, with the lexeme as its text. -/
def emit (piece : Piece) (l : Lexer) : Lexer :=
  match piece with
  | .token kind literal => l.addToken kind literal
  | .fault fault => l.error fault
  | .blank | .comment => l

/-- The lexer has read the text of the piece, and added what it amounts to. -/
def Emits (b l : Lexer) (cut : Cut) : Prop :=
  ∃ l', Reads b l' cut.text cut.rest ∧ l = l'.emit cut.piece

theorem operator_emits {b l : Lexer} {c : Char} {cs : List Char} (h : Reads b l [c] cs)
    (alone withEqual : TokenKind) :
    Emits b (l.operator alone withEqual) (Cut.operator alone withEqual c cs) := by
  unfold operator
  rw [h.peek]
  split
  next equal =>
    obtain ⟨rest, rfl⟩ := List.head?_eq_some_iff.mp equal
    exact ⟨_, h.advance, rfl⟩
  next other =>
    unfold Cut.operator
    split
    · exact absurd rfl other
    · exact ⟨l, h, rfl⟩

theorem comment_emits {b l : Lexer} {cs : List Char} (h : Reads b l ['/'] ('/' :: cs)) :
    Emits b l.slash (Cut.comment cs) := by
  have second : l.peek = some '/' := h.peek
  unfold slash
  rw [if_pos second]
  exact ⟨_, h.advance.advanceWhile _, rfl⟩

theorem slash_emits {b l : Lexer} {cs : List Char} (h : Reads b l ['/'] cs)
    (other : cs.head? ≠ some '/') :
    Emits b l.slash (Cut.single (.token .slash none) '/' cs) := by
  unfold slash
  rw [h.peek, if_neg other]
  exact ⟨l, h, rfl⟩

theorem string_emits {b l : Lexer} {cs : List Char} (h : Reads b l ['"'] cs) :
    Emits b l.string (Cut.string cs) := by
  have body := h.advanceWhile (· != '"')
  unfold string Cut.string
  dsimp only
  rw [body.peek]
  cases behind : cs.dropWhile (· != '"') with
  | nil =>
    rw [behind] at body
    exact ⟨_, body, rfl⟩
  | cons quote rest =>
    rw [behind] at body
    have value := body.advance.slice (rfl : _ = ['"'] ++ cs.takeWhile (· != '"') ++ [quote])
    refine ⟨_, body.advance, ?_⟩
    rw [if_neg nofun]
    exact congrArg (fun value => addToken .string (some (.string (String.ofList value))) _) value

/-- The point and the digits behind it, where there are any. -/
theorem fraction_reads {b l : Lexer} {text rest : List Char} (h : Reads b l text rest) :
    Reads b (if l.peek = some '.' && l.peekNext.any Char.isDigit
        then l.advance.advanceWhile Char.isDigit else l)
      (if (Cut.fraction rest).1.isEmpty then text else text ++ '.' :: (Cut.fraction rest).1)
      (Cut.fraction rest).2 := by
  by_cases found : ∃ d more, rest = '.' :: d :: more ∧ d.isDigit = true
  · obtain ⟨d, more, rfl, digit⟩ := found
    have behind := h.advance.advanceWhile Char.isDigit
    rw [List.append_assoc, List.singleton_append, List.takeWhile_cons_of_pos digit,
      List.dropWhile_cons_of_pos digit] at behind
    rw [h.peek, h.peekNext, Cut.fraction_of_digit more digit]
    simpa [digit] using behind
  · have none : (l.peek = some '.' && l.peekNext.any Char.isDigit) = false := by
      refine Bool.eq_false_iff.mpr fun both => ?_
      obtain ⟨point, digit⟩ := (Bool.and_eq_true _ _).mp both
      rw [h.peek] at point
      obtain ⟨more, rfl⟩ := List.head?_eq_some_iff.mp (of_decide_eq_true point)
      rw [h.peekNext] at digit
      obtain ⟨d, next, is⟩ := (Option.any_eq_true _ _).mp digit
      obtain ⟨more, rfl⟩ := List.head?_eq_some_iff.mp next
      exact found ⟨d, more, rfl, is⟩
    rw [none, Cut.fraction_of_not_digit fun d more same digit => found ⟨d, more, same, digit⟩]
    exact h

theorem number_emits {b l : Lexer} {c : Char} {cs : List Char} (h : Reads b l [c] cs)
    (digit : c.isDigit = true) : Emits b l.number (Cut.number c cs) := by
  have read : Reads b l.digits (Cut.number c cs).text (Cut.number c cs).rest :=
    fraction_reads (h.advanceWhile Char.isDigit)
  obtain ⟨whole, places⟩ := (Cut.number_isNumeral cs digit).parts
  have piece : (Cut.number c cs).piece = Cut.numeral (c :: cs.takeWhile Char.isDigit)
      (Cut.fraction (cs.dropWhile Char.isDigit)).1 := rfl
  refine ⟨_, read, ?_⟩
  unfold number
  dsimp only
  rw [read.lexeme, whole, places, piece, Cut.numeral_eq]
  split <;> rfl

theorem name_emits {b l : Lexer} {c : Char} {cs : List Char} (h : Reads b l [c] cs) :
    Emits b l.name (Cut.name c cs) := by
  have read := h.advanceWhile Letter.continuesName
  refine ⟨_, read, ?_⟩
  unfold name
  dsimp only
  rw [read.lexeme]
  rfl

theorem scanBehind_of_not_mark {c : Char} (l : Lexer) (h : c ∉ markCharacters) :
    l.scanBehind c = if c.isDigit then l.number else if Letter.startsName c then l.name
      else l.error (.unexpected c) := by
  unfold scanBehind
  split
  case h_21 => rfl
  all_goals exact absurd (by decide) h

/-- Behind its first character a lexeme is read as the piece that the cut makes of it. -/
theorem scanBehind_emits {b l : Lexer} {c : Char} {cs : List Char} (h : Reads b l [c] cs) :
    Emits b (l.scanBehind c) (Cut.first c cs) := by
  unfold Cut.first
  split
  case h_11 | h_12 | h_13 | h_14 => exact operator_emits h _ _
  case h_15 =>
    split
    · exact comment_emits h
    next other =>
      refine slash_emits h fun next => ?_
      obtain ⟨rest, behind⟩ := List.head?_eq_some_iff.mp next
      exact other rest behind
  case h_20 => exact string_emits h
  case h_21 =>
    have mark : c ∉ markCharacters := by simp_all [markCharacters]
    rw [scanBehind_of_not_mark l mark]
    split
    next digit => exact number_emits h digit
    next =>
      split
      · exact name_emits h
      · exact ⟨l, h, rfl⟩
  all_goals exact ⟨l, h, rfl⟩

theorem scanToken_emits {l : Lexer} {c : Char} {cs : List Char} (next : l.ahead = c :: cs) :
    Emits l.begun l.begun.scanToken (Cut.first c cs) := by
  have start : Reads l.begun l.begun [] (c :: cs) := next ▸ .begin l
  unfold scanToken
  rw [start.peek]
  exact scanBehind_emits start.advance

theorem ahead_emit (piece : Piece) (l : Lexer) : (l.emit piece).ahead = l.ahead := by
  cases piece <;> rfl

theorem line_emit (piece : Piece) (l : Lexer) : (l.emit piece).line = l.line := by
  cases piece <;> rfl

/-- A piece is added on the line where its lexeme started. -/
theorem emit_ofPieces (piece : Piece) (l : Lexer) (more : List (Piece × List Char)) :
    let later := Scanned.ofPieces (l.startLine + l.lexeme.count '\n') more
    let whole := Scanned.ofPieces l.startLine ((piece, l.lexeme) :: more)
    (l.emit piece).tokens.toList ++ later.tokens = l.tokens.toList ++ whole.tokens ∧
      (l.emit piece).errors.toList ++ later.errors = l.errors.toList ++ whole.errors := by
  cases piece <;> simp [emit, addToken, error, Scanned.ofPieces]

/-- Scans all that is ahead. -/
def run (l : Lexer) : Scanned :=
  if l.peek = none then ⟨(l.tokens.push (.eof l.line)).toList, l.errors.toList⟩
  else l.begun.scanToken.run
termination_by l.ahead.length
decreasing_by
  rename_i more
  cases next : l.ahead with
  | nil => exact absurd (by rw [l.peek_eq, next]; rfl) more
  | cons c cs =>
    obtain ⟨l', read, same⟩ := scanToken_emits next
    rw [same, ahead_emit, read.ahead]
    exact Cut.length_rest_lt c cs

/-- From where it stands, a lexer adds to its tokens and errors what the pieces ahead amount to. -/
theorem run_eq (l : Lexer) :
    l.run = ⟨l.tokens.toList ++ (Scanned.ofPieces l.line (pieces l.ahead)).tokens,
      l.errors.toList ++ (Scanned.ofPieces l.line (pieces l.ahead)).errors⟩ := by
  fun_induction run l with
  | case1 l ended =>
    rw [l.peek_eq, List.head?_eq_none_iff] at ended
    rw [ended, pieces]
    simp [Scanned.ofPieces]
  | case2 l more ih =>
    cases next : l.ahead with
    | nil => exact absurd (by rw [l.peek_eq, next]; rfl) more
    | cons c cs =>
      obtain ⟨l', read, same⟩ := scanToken_emits next
      obtain ⟨tokens, errors⟩ :=
        emit_ofPieces (Cut.first c cs).piece l' (pieces (Cut.first c cs).rest)
      have first : l'.startLine = l.line := by
        rw [read.past]
        rfl
      have line : l'.line = l'.startLine + (Cut.first c cs).text.count '\n' := by
        rw [read.past]
        rfl
      rw [read.lexeme] at tokens errors
      rw [ih, same, ahead_emit, line_emit, read.ahead, line, tokens, errors, first, pieces]
      rw [read.past]
      rfl

end Lexer

/-- A scan is what a lexer makes of the source that goes through it character by character, counts
the newlines that it moves over, and puts each token and each error on the line where it began. -/
theorem scan_eq_run (source : String) : scan source = (Lexer.ofSource source.toList).run := by
  rw [Lexer.run_eq]
  rfl

end LoxSyntax
