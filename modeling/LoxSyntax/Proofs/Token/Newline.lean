import LoxSyntax.Proofs.Token.Tiling

namespace LoxSyntax

/-- The token on a line further down. -/
def Token.lowered (lines : Nat) (t : Token) : Token := { t with line := t.line + lines }

/-- The error on a line further down. -/
def ScanError.lowered (lines : Nat) (e : ScanError) : ScanError := { e with line := e.line + lines }

namespace Scanned

def lowered (lines : Nat) (scanned : Scanned) : Scanned :=
  ⟨scanned.tokens.map (Token.lowered lines), scanned.errors.map (ScanError.lowered lines)⟩

/-- One scan behind another, which loses the token that closes it. -/
def followedBy (scanned later : Scanned) : Scanned :=
  ⟨scanned.tokens.dropLast ++ later.tokens, scanned.errors ++ later.errors⟩

theorem ofPieces_tokens_ne_nil (line : Nat) (ps : List (Piece × List Char)) :
    (ofPieces line ps).tokens ≠ [] := by
  induction ps generalizing line with
  | nil => exact List.cons_ne_nil _ _
  | cons p ps ih =>
    obtain ⟨piece, text⟩ := p
    cases piece with
    | token => exact List.cons_ne_nil _ _
    | blank | comment | fault => exact ih _

/-- Pieces behind others start on the line where those end. -/
theorem ofPieces_append (line : Nat) (ps qs : List (Piece × List Char)) :
    ofPieces line (ps ++ qs) =
      (ofPieces line ps).followedBy (ofPieces (line + (ps.flatMap Prod.snd).count '\n') qs) := by
  induction ps generalizing line with
  | nil => rfl
  | cons p ps ih =>
    obtain ⟨piece, text⟩ := p
    have later := ih (line + text.count '\n')
    rw [Nat.add_assoc, ← List.count_append] at later
    have solid := ofPieces_tokens_ne_nil (line + text.count '\n') ps
    cases piece with
    | token kind literal =>
      simp only [List.cons_append, ofPieces, later, followedBy, List.flatMap_cons,
        List.dropLast_cons_of_ne_nil solid]
    | fault fault =>
      simp only [List.cons_append, ofPieces, later, followedBy, List.flatMap_cons]
    | blank | comment => exact later

theorem ofPieces_lowered (line lines : Nat) (ps : List (Piece × List Char)) :
    ofPieces (line + lines) ps = (ofPieces line ps).lowered lines := by
  induction ps generalizing line with
  | nil => rfl
  | cons p ps ih =>
    obtain ⟨piece, text⟩ := p
    have later := ih (line + text.count '\n')
    rw [Nat.add_right_comm] at later
    cases piece with
    | token | fault =>
      simp only [ofPieces, later]
      rfl
    | blank | comment => exact later

/-- A fault among the pieces is an error of the scan. -/
theorem exists_error_of_mem (line : Nat) {ps : List (Piece × List Char)} {fault : ScanFault}
    {text : List Char} (h : (.fault fault, text) ∈ ps) :
    ∃ e ∈ (ofPieces line ps).errors, e.fault = fault := by
  induction ps generalizing line with
  | nil => cases h
  | cons p ps ih =>
    rcases List.mem_cons.mp h with rfl | others
    · exact ⟨_, List.mem_cons_self, rfl⟩
    · obtain ⟨piece, text'⟩ := p
      obtain ⟨e, inside, is⟩ := ih (line + text'.count '\n') others
      cases piece with
      | fault => exact ⟨e, List.mem_cons_of_mem _ inside, is⟩
      | token | blank | comment => exact ⟨e, inside, is⟩

end Scanned

/-- Characters of a kind that a newline is not of end in front of it. -/
theorem takeWhile_newline {p : Char → Bool} (newline : p '\n' = false) (cs more : List Char) :
    (cs ++ '\n' :: more).takeWhile p = cs.takeWhile p := by
  induction cs with
  | nil => simp [newline]
  | cons c cs ih =>
    by_cases inside : p c = true
    · simp [inside, ih]
    · simp [inside]

theorem dropWhile_newline {p : Char → Bool} (newline : p '\n' = false) (cs more : List Char) :
    (cs ++ '\n' :: more).dropWhile p = cs.dropWhile p ++ '\n' :: more := by
  induction cs with
  | nil => simp [newline]
  | cons c cs ih =>
    by_cases inside : p c = true
    · simp [inside, ih]
    · simp [inside]

namespace Cut

/-- The same cut of a source that goes on behind it. -/
def extended (more : List Char) (cut : Cut) : Cut := { cut with rest := cut.rest ++ '\n' :: more }

theorem operator_newline (cs more : List Char) (alone withEqual : TokenKind) (c : Char) :
    operator alone withEqual c (cs ++ '\n' :: more) =
      (operator alone withEqual c cs).extended more := by
  cases cs with
  | nil => rfl
  | cons d cs =>
    by_cases equal : d = '='
    · subst equal
      rfl
    · simp [operator, extended, single, equal]

theorem comment_newline (cs more : List Char) :
    comment (cs ++ '\n' :: more) = (comment cs).extended more := by
  simp [comment, extended, takeWhile_newline (p := (· != '\n')) rfl,
    dropWhile_newline (p := (· != '\n')) rfl]

/-- A string that has its quote is not changed by what is behind it. -/
theorem string_newline (cs more : List Char)
    (closed : (string cs).piece ≠ .fault .unterminatedString) :
    string (cs ++ '\n' :: more) = (string cs).extended more := by
  unfold string at closed ⊢
  cases behind : cs.dropWhile (· != '"') with
  | nil => simp [behind] at closed
  | cons quote rest =>
    have whole := congrArg List.length (List.takeWhile_append_dropWhile (p := (· != '"')) (l := cs))
    rw [behind, List.length_append, List.length_cons] at whole
    have short : (cs.takeWhile (· != '"')).length ≠ cs.length := by omega
    simp [List.takeWhile_append, List.dropWhile_append, short, behind, extended]

theorem fraction_newline (cs more : List Char) :
    fraction (cs ++ '\n' :: more) = ((fraction cs).1, (fraction cs).2 ++ '\n' :: more) := by
  have newline : Char.isDigit '\n' = false := rfl
  cases cs with
  | nil => rfl
  | cons c cs =>
    by_cases point : c = '.'
    · subst point
      by_cases none : cs.takeWhile Char.isDigit = []
      · simp [fraction, takeWhile_newline newline, none]
      · simp [fraction, takeWhile_newline newline, dropWhile_newline newline, none]
    · simp [fraction, point]

theorem number_newline (cs more : List Char) (c : Char) :
    number c (cs ++ '\n' :: more) = (number c cs).extended more := by
  have newline : Char.isDigit '\n' = false := rfl
  simp [number, extended, takeWhile_newline newline, dropWhile_newline newline, fraction_newline]

theorem name_newline (cs more : List Char) (c : Char) :
    name c (cs ++ '\n' :: more) = (name c cs).extended more := by
  have newline : Letter.continuesName '\n' = false := rfl
  simp [name, extended, takeWhile_newline newline, dropWhile_newline newline]

/-- A newline ends the first piece, or leaves it alone. -/
theorem first_newline (cs more : List Char) (c : Char)
    (closed : (first c cs).piece ≠ .fault .unterminatedString) :
    first c (cs ++ '\n' :: more) = (first c cs).extended more := by
  unfold first at closed
  split at closed
  case h_11 | h_12 | h_13 | h_14 => exact operator_newline cs more _ _ _
  case h_15 =>
    cases cs with
    | nil => rfl
    | cons d cs =>
      by_cases slash : d = '/'
      · subst slash
        exact comment_newline cs more
      · simp [first, extended, single, slash]
  case h_20 => exact string_newline cs more closed
  case h_21 =>
    split at closed
    next digit => rw [first_digit _ digit, first_digit _ digit, number_newline]
    next noDigit =>
      split at closed
      next letter => rw [first_letter _ letter, first_letter _ letter, name_newline]
      next noLetter =>
        have mark : c ∉ markCharacters := by simp_all [markCharacters]
        rw [first_of_not_mark _ mark, if_neg noDigit, if_neg noLetter,
          first_of_not_mark _ mark, if_neg noDigit, if_neg noLetter]
        rfl
  all_goals rfl

end Cut

/-- Behind a newline that is not inside a string, a source is cut as it is by itself. -/
theorem pieces_newline (cs more : List Char)
    (closed : ∀ p ∈ pieces cs, p.1 ≠ .fault .unterminatedString) :
    pieces (cs ++ '\n' :: more) = pieces cs ++ (.blank, ['\n']) :: pieces more := by
  fun_induction pieces cs with
  | case1 => rw [List.nil_append, List.nil_append, pieces]; rfl
  | case2 c cs ih =>
    obtain ⟨first, later⟩ := List.forall_mem_cons.mp closed
    have cut := Cut.first_newline cs more c first
    rw [List.cons_append, pieces, cut]
    exact congrArg _ (ih later)

/-- The second of two texts with a newline between them is scanned by itself, and further down. -/
theorem scanFrom_newline (line : Nat) (cs more : List Char)
    (closed : ∀ p ∈ pieces cs, p.1 ≠ .fault .unterminatedString) :
    scanFrom line (cs ++ '\n' :: more) =
      (scanFrom line cs).followedBy ((scanFrom line more).lowered (cs.count '\n' + 1)) := by
  have whole : ((pieces cs).flatMap Prod.snd).count '\n' = cs.count '\n' := by
    rw [List.flatMap_def, flatten_pieces]
  have later : Scanned.ofPieces (line + cs.count '\n') ((.blank, ['\n']) :: pieces more) =
      scanFrom (line + (cs.count '\n' + 1)) more := rfl
  unfold scanFrom
  rw [pieces_newline _ _ closed, Scanned.ofPieces_append, whole, later, scanFrom,
    Scanned.ofPieces_lowered]

/-- A source leaves no string open, unless that is one of its errors. -/
theorem closed_of_errors {source : String}
    (h : ∀ e ∈ (scan source).errors, e.fault ≠ .unterminatedString) :
    ∀ p ∈ pieces source.toList, p.1 ≠ .fault .unterminatedString := by
  intro p inside fault
  obtain ⟨_, text⟩ := p
  subst fault
  obtain ⟨e, error, is⟩ := Scanned.exists_error_of_mem 1 inside
  exact h e error is

theorem closed_of_errors_eq_nil {source : String} (h : (scan source).errors = []) :
    ∀ p ∈ pieces source.toList, p.1 ≠ .fault .unterminatedString :=
  closed_of_errors fun _ error => absurd (h ▸ error) List.not_mem_nil

theorem scan_followedBy {first : String}
    (closed : ∀ p ∈ pieces first.toList, p.1 ≠ .fault .unterminatedString) (second : String) :
    scan (first ++ "\n" ++ second) =
      (scan first).followedBy ((scan second).lowered (first.toList.count '\n' + 1)) := by
  have text : (first ++ "\n" ++ second).toList = first.toList ++ '\n' :: second.toList := by simp
  change scanFrom 1 (first ++ "\n" ++ second).toList = _
  rw [text]
  exact scanFrom_newline 1 first.toList second.toList closed

/-- A scan splits at a newline. In front of one, a text that leaves no string open is scanned as it
is by itself, whatever else is wrong with it, but for the token that closes it; and the text behind
it comes to the tokens and the errors that it comes to by itself, that many lines further down. -/
theorem scan_newline {first : String}
    (closed : ∀ e ∈ (scan first).errors, e.fault ≠ .unterminatedString) (second : String) :
    let lines := 1 + first.toList.count '\n'
    ∃ ts line, (scan first).tokens = ts ++ [Token.eof line] ∧
      scan (first ++ "\n" ++ second) =
        ⟨ts ++ (scan second).tokens.map (Token.lowered lines),
          (scan first).errors ++ (scan second).errors.map (ScanError.lowered lines)⟩ := by
  intro lines
  have same : first.toList.count '\n' + 1 = lines := Nat.add_comm _ _
  obtain ⟨ts, line, tokens, -⟩ := scan_closed first
  have whole := scan_followedBy (closed_of_errors closed) second
  rw [same, Scanned.followedBy, tokens, List.dropLast_concat] at whole
  exact ⟨ts, line, tokens, whole⟩

/-- A character that is no token, and a division at the end. -/
def danglingSlash : String := "#\na /"

/-- A division that is no comment, and a string that is left open. -/
def openString : String := "/ 1.\n\"b"

theorem scan_newline_danglingSlash :
    (∀ e ∈ (scan danglingSlash).errors, e.fault ≠ .unterminatedString) ∧
      ∃ ts line, (scan danglingSlash).tokens = ts ++ [Token.eof line] ∧
        scan (danglingSlash ++ "\n" ++ openString) =
          ⟨ts ++ (scan openString).tokens.map (Token.lowered 2),
            (scan danglingSlash).errors ++ (scan openString).errors.map (ScanError.lowered 2)⟩ := by
  have closed : ∀ e ∈ (scan danglingSlash).errors, e.fault ≠ .unterminatedString := by
    decide +kernel
  have lines : 1 + danglingSlash.toList.count '\n' = 2 := by decide +kernel
  have split := scan_newline closed openString
  rw [lines] at split
  exact ⟨closed, split⟩

end LoxSyntax
