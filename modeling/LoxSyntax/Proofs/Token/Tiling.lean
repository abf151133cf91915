import LoxSyntax.Proofs.Token.Rescan

namespace LoxSyntax

/-- The value of a numeral, to the nearest number; see `Decimal.toBinary64_nearest` and
`Decimal.toBinary64_infinite_iff`. -/
def numeralValue (whole places : List Char) : Binary64 := (Decimal.ofDigits whole places).toBinary64

/-- A numeral is a token, unless its value is too large. -/
theorem Cut.numeral_eq (whole places : List Char) :
    Cut.numeral whole places = if (numeralValue whole places).isFinite = true
      then .token .number (some (.number (numeralValue whole places)))
      else .fault .numberTooLarge := rfl

/-- The lexeme, taken by itself, spells a token of this kind that carries this value. -/
inductive Denotes : String → TokenKind → Option Literal → Prop where
  | fixed {kind : TokenKind} {lexeme : String} (spelled : kind.spelling? = some lexeme) :
      Denotes lexeme kind none
  | name {lexeme : String} (letters : IsName lexeme.toList)
      (other : TokenKind.keyword? lexeme = none) : Denotes lexeme .identifier none
  | string (value : String) (inside : '"' ∉ value.toList) :
      Denotes ("\"" ++ value ++ "\"") .string (some (.string value))
  | number {text whole places : List Char} (numeral : IsNumeral text whole places)
      (finite : (numeralValue whole places).isFinite = true) :
      Denotes (String.ofList text) .number (some (.number (numeralValue whole places)))

namespace Denotes

/-- By itself the lexeme is cut as the token that it spells. -/
theorem cut {lexeme : String} {kind : TokenKind} {literal : Option Literal}
    (h : Denotes lexeme kind literal) :
    ∃ c cs, lexeme.toList = c :: cs ∧ Cut.first c cs = ⟨.token kind literal, c :: cs, []⟩ := by
  cases h with
  | fixed spelled => cases kind <;> cases spelled <;> exact ⟨_, _, rfl, rfl⟩
  | name letters other =>
    obtain ⟨c, cs, text, letter, others⟩ := letters
    have taken : cs.takeWhile Letter.continuesName = cs := List.takeWhile_eq_self_iff.mpr others
    have dropped : cs.dropWhile Letter.continuesName = [] := List.dropWhile_eq_nil_iff.mpr others
    have same : String.ofList (c :: cs) = lexeme := by rw [← text, String.ofList_toList]
    refine ⟨c, cs, text, ?_⟩
    rw [Cut.first_letter cs letter, Cut.name, taken, dropped, same, other]
    rfl
  | string value inside =>
    refine ⟨'"', value.toList ++ ['"'], by simp, ?_⟩
    rw [Cut.first_string inside [], String.ofList_toList]
    rfl
  | @number text whole places numeral finite =>
    have stops : Stops [] := trivial
    obtain ⟨c, cs, same, cut⟩ := Cut.first_numeral numeral stops
    rw [List.append_nil] at same
    refine ⟨c, cs, by rw [String.toList_ofList, same], ?_⟩
    rw [cut, ← same, Cut.numeral_eq, if_pos finite]

/-- A character that is in no spelling, no name and no number is in no lexeme but a string. -/
theorem not_mem {lexeme : String} {kind : TokenKind} {literal : Option Literal}
    (h : Denotes lexeme kind literal) (other : kind ≠ .string) {c : Char}
    (fixed : ∀ kind : TokenKind, ∀ lexeme ∈ kind.spelling?, c ∉ lexeme.toList)
    (letter : Letter.continuesName c = false) (digit : c.isDigit = false) (point : c ≠ '.') :
    c ∉ lexeme.toList := by
  cases h with
  | fixed spelled => exact fixed kind lexeme spelled
  | name letters => exact letters.not_mem letter
  | string => exact absurd rfl other
  | number numeral =>
    rw [String.toList_ofList]
    exact numeral.not_mem digit point

/-- Nothing spells the token that closes a program. -/
theorem kind_ne_eof {lexeme : String} {kind : TokenKind} {literal : Option Literal}
    (h : Denotes lexeme kind literal) : kind ≠ .eof := by
  intro closing
  subst closing
  cases h with
  | fixed spelled => cases spelled

/-- A lexeme spells one token only. -/
theorem unique {lexeme : String} {kind kind' : TokenKind} {literal literal' : Option Literal}
    (h : Denotes lexeme kind literal) (h' : Denotes lexeme kind' literal') :
    kind = kind' ∧ literal = literal' := by
  obtain ⟨c, cs, text, cut⟩ := h.cut
  obtain ⟨c', cs', text', cut'⟩ := h'.cut
  obtain ⟨rfl, rfl⟩ := List.cons.inj (text.symm.trans text')
  have same := congrArg Cut.piece (cut.symm.trans cut')
  exact Piece.token.inj same

end Denotes

/-- The characters that are blanks, marks, or the beginning of operators, comments and strings. -/
def markCharacters : List Char :=
  ['(', ')', '\x7b', '\x7d', ',', '.', '-', '+', ';', '*', '!', '=', '<', '>', '/', ' ', '\t', '\r',
    '\n', '"']

/-- Any other character starts a number, a name, or nothing. -/
theorem Cut.first_of_not_mark {c : Char} (cs : List Char) (h : c ∉ markCharacters) :
    first c cs = if c.isDigit then number c cs else if Letter.startsName c then name c cs
      else single (.fault (.unexpected c)) c cs := by
  unfold first
  split
  case h_21 => rfl
  all_goals exact absurd (by decide) h

/-- A character that nothing starts with. -/
structure StartsNothing (c : Char) : Prop where
  mark : c ∉ markCharacters
  digit : c.isDigit = false
  letter : Letter.startsName c = false

/-- A stretch of a source, with the token or the error that it is. -/
inductive Tile where
  | token (t : Token)
  | blank (c : Char)
  | comment (body : List Char)
  | fault (e : ScanError) (text : List Char)

namespace Tile

def text : Tile → List Char
  | token t => t.lexeme.toList
  | blank c => [c]
  | comment body => '/' :: '/' :: body
  | fault _ text => text

def token? : Tile → Option Token
  | token t => some t
  | _ => none

def error? : Tile → Option ScanError
  | fault e _ => some e
  | _ => none

/-- What the tile has to be to stand on this line in front of the rest of a source. -/
def Fits (line : Nat) (rest : List Char) : Tile → Prop
  | token t => t.line = line ∧ Denotes t.lexeme t.kind t.literal
  | blank c => c ∈ [' ', '\t', '\r', '\n']
  | comment body => '\n' ∉ body ∧ ∀ c ∈ rest.head?, c = '\n'
  | fault e text => e.line = line ∧ match e.fault with
    | .unexpected c => text = [c] ∧ StartsNothing c
    | .numberTooLarge => ∃ whole places, IsNumeral text whole places ∧
        (numeralValue whole places).isFinite = false
    | .unterminatedString => ∃ body, text = '"' :: body ∧ '"' ∉ body ∧ rest = []

/-- The tile is what the cut makes of the source from this line on. -/
structure Of (line : Nat) (cut : Cut) (tile : Tile) : Prop where
  text : tile.text = cut.text
  fits : tile.Fits line cut.rest
  reading : ∀ more, Scanned.ofPieces line ((cut.piece, cut.text) :: more) =
    let later := Scanned.ofPieces (line + cut.text.count '\n') more
    ⟨tile.token?.toList ++ later.tokens, tile.error?.toList ++ later.errors⟩

end Tile

/-- Tiles from this line on, each of which fits in front of the text of those behind it. -/
def Tiles : Nat → List Tile → Prop
  | _, [] => True
  | line, tile :: more =>
    tile.Fits line (more.flatMap Tile.text) ∧ Tiles (line + tile.text.count '\n') more

namespace Cut

/-- What is dropped ends where the condition does not hold. -/
theorem eq_false_of_dropWhile (p : Char → Bool) {cs rest : List Char} {c : Char}
    (h : cs.dropWhile p = c :: rest) : p c = false := by
  have stop := List.head?_dropWhile_not p cs
  rw [h] at stop
  exact stop

/-- Wherever the cut starts, there is a tile for it. -/
def HasTile (cut : Cut) : Prop := ∀ line, ∃ tile : Tile, tile.Of line cut

theorem hasTile_token {kind : TokenKind} {literal : Option Literal} {text rest : List Char}
    (h : Denotes (String.ofList text) kind literal) : HasTile ⟨.token kind literal, text, rest⟩ :=
  fun line => ⟨.token ⟨kind, String.ofList text, literal, line⟩, String.toList_ofList, ⟨rfl, h⟩,
    fun _ => rfl⟩

theorem hasTile_fixed {kind : TokenKind} {text rest : List Char}
    (h : kind.spelling? = some (String.ofList text)) : HasTile ⟨.token kind none, text, rest⟩ :=
  hasTile_token (.fixed h)

theorem hasTile_blank {c : Char} (rest : List Char) (h : c ∈ [' ', '\t', '\r', '\n']) :
    HasTile ⟨.blank, [c], rest⟩ :=
  fun _ => ⟨.blank c, rfl, h, fun _ => rfl⟩

theorem hasTile_unexpected {c : Char} (rest : List Char) (h : StartsNothing c) :
    HasTile ⟨.fault (.unexpected c), [c], rest⟩ :=
  fun line => ⟨.fault ⟨line, .unexpected c⟩ [c], rfl, ⟨rfl, rfl, h⟩, fun _ => rfl⟩

theorem hasTile_numeral {text whole places : List Char} (rest : List Char)
    (h : IsNumeral text whole places) : HasTile ⟨numeral whole places, text, rest⟩ := by
  rw [numeral_eq]
  split
  next finite => exact hasTile_token (.number h finite)
  next large =>
    exact fun line => ⟨.fault ⟨line, .numberTooLarge⟩ text, rfl,
      ⟨rfl, whole, places, h, by simpa using large⟩, fun _ => rfl⟩

theorem operator_hasTile {alone withEqual : TokenKind} {c : Char} (cs : List Char)
    (h : alone.spelling? = some (String.ofList [c]))
    (h' : withEqual.spelling? = some (String.ofList [c, '='])) :
    (operator alone withEqual c cs).HasTile := by
  unfold operator
  split
  · exact hasTile_fixed h'
  · exact hasTile_fixed h

theorem comment_hasTile (cs : List Char) : (comment cs).HasTile := by
  intro line
  refine ⟨.comment (cs.takeWhile (· != '\n')), rfl, ⟨fun inside => ?_, fun c next => ?_⟩,
    fun _ => rfl⟩
  · have other := List.mem_takeWhile_imp inside
    simp at other
  · obtain ⟨rest, behind⟩ := List.head?_eq_some_iff.mp next
    simpa using eq_false_of_dropWhile (· != '\n') behind

theorem string_hasTile (cs : List Char) : (string cs).HasTile := by
  have closed : '"' ∉ cs.takeWhile (· != '"') := fun inside => by
    have other := List.mem_takeWhile_imp inside
    simp at other
  unfold string
  dsimp only
  split
  · intro line
    exact ⟨.fault ⟨line, .unterminatedString⟩ ('"' :: cs.takeWhile (· != '"')), rfl,
      ⟨rfl, _, rfl, closed, rfl⟩, fun _ => rfl⟩
  next quote rest behind =>
    obtain rfl : quote = '"' := by simpa using eq_false_of_dropWhile (· != '"') behind
    have lexeme : String.ofList ('"' :: cs.takeWhile (· != '"') ++ ['"']) =
        "\"" ++ String.ofList (cs.takeWhile (· != '"')) ++ "\"" :=
      String.toList_inj.mp (by simp)
    apply hasTile_token
    rw [lexeme]
    exact .string _ (by rwa [String.toList_ofList])

theorem isDigit_of_mem_fraction {cs : List Char} : ∀ d ∈ (fraction cs).1, d.isDigit = true := by
  intro d inside
  unfold fraction at inside
  split at inside
  · split at inside
    · simp at inside
    · exact List.mem_takeWhile_imp inside
  · simp at inside

theorem number_isNumeral {c : Char} (cs : List Char) (h : c.isDigit = true) :
    IsNumeral (number c cs).text (c :: cs.takeWhile Char.isDigit)
      (fraction (cs.dropWhile Char.isDigit)).1 where
  spelled := by simp [number]
  solid := List.cons_ne_nil _ _
  digits d inside := by
    rcases List.mem_append.mp inside with front | behind
    · rcases List.mem_cons.mp front with rfl | others
      · exact h
      · exact List.mem_takeWhile_imp others
    · exact isDigit_of_mem_fraction d behind

theorem number_hasTile {c : Char} (cs : List Char) (h : c.isDigit = true) :
    (number c cs).HasTile :=
  hasTile_numeral _ (number_isNumeral cs h)

theorem name_hasTile {c : Char} (cs : List Char) (h : Letter.startsName c = true) :
    (name c cs).HasTile := by
  have letters : IsName (c :: cs.takeWhile Letter.continuesName) :=
    ⟨c, _, rfl, h, fun d inside => List.mem_takeWhile_imp inside⟩
  apply hasTile_token
  cases keyword : TokenKind.keyword? (String.ofList (c :: cs.takeWhile Letter.continuesName)) with
  | none => exact .name (by rwa [String.toList_ofList]) keyword
  | some kind => exact .fixed (TokenKind.spelling?_of_keyword? keyword)

/-- The first piece of a source is a tile of it. -/
theorem first_hasTile (c : Char) (cs : List Char) : (first c cs).HasTile := by
  unfold first
  split
  case h_11 | h_12 | h_13 | h_14 => exact operator_hasTile cs rfl rfl
  case h_15 =>
    split
    · exact comment_hasTile _
    · exact hasTile_fixed rfl
  case h_16 | h_17 | h_18 | h_19 => exact hasTile_blank cs (by decide)
  case h_20 => exact string_hasTile cs
  case h_21 =>
    have mark : c ∉ markCharacters := by simp_all [markCharacters]
    split
    next digit => exact number_hasTile cs digit
    next noDigit =>
      split
      next letter => exact name_hasTile cs letter
      next noLetter =>
        exact hasTile_unexpected cs ⟨mark, by simpa using noDigit, by simpa using noLetter⟩
  all_goals exact hasTile_fixed rfl

end Cut

/-- From any line on, there is a tile for each piece of a source. -/
theorem exists_tiles (cs : List Char) (line : Nat) :
    ∃ tiles : List Tile, tiles.map Tile.text = (pieces cs).map Prod.snd ∧ Tiles line tiles ∧
      Scanned.ofPieces line (pieces cs) =
        ⟨tiles.filterMap Tile.token? ++ [Token.eof (line + cs.count '\n')],
          tiles.filterMap Tile.error?⟩ := by
  fun_induction pieces cs generalizing line with
  | case1 => exact ⟨[], rfl, trivial, rfl⟩
  | case2 c cs ih =>
    obtain ⟨tile, first⟩ := Cut.first_hasTile c cs line
    obtain ⟨tiles, texts, fit, reading⟩ := ih (line + (Cut.first c cs).text.count '\n')
    have behind : tiles.flatMap Tile.text = (Cut.first c cs).rest := by
      rw [List.flatMap_def, texts, flatten_pieces]
    have lines : (c :: cs).count '\n' =
        (Cut.first c cs).text.count '\n' + (Cut.first c cs).rest.count '\n' := by
      rw [← Cut.first_text c cs, List.count_append]
    refine ⟨tile :: tiles, ?_, ⟨?_, ?_⟩, ?_⟩
    · rw [List.map_cons, List.map_cons, first.text, texts]
    · rw [behind]
      exact first.fits
    · rw [first.text]
      exact fit
    · rw [first.reading, reading, lines, Nat.add_assoc]
      cases tile <;> rfl

/-- From any line on, the pieces of a source are tiles of it. -/
theorem pieces_tiles (cs : List Char) (line : Nat) :
    ∃ tiles : List Tile, tiles.flatMap Tile.text = cs ∧ Tiles line tiles ∧
      Scanned.ofPieces line (pieces cs) =
        ⟨tiles.filterMap Tile.token? ++ [Token.eof (line + cs.count '\n')],
          tiles.filterMap Tile.error?⟩ := by
  obtain ⟨tiles, texts, fit, reading⟩ := exists_tiles cs line
  refine ⟨tiles, ?_, fit, reading⟩
  rw [List.flatMap_def, texts, flatten_pieces]

theorem Tiles.denotes {line : Nat} {tiles : List Tile} (h : Tiles line tiles) :
    ∀ t ∈ tiles.filterMap Tile.token?, Denotes t.lexeme t.kind t.literal := by
  induction tiles generalizing line with
  | nil => nofun
  | cons tile tiles ih =>
    obtain ⟨first, later⟩ := h
    cases tile with
    | token t =>
      have spelled : Denotes t.lexeme t.kind t.literal := first.2
      exact List.forall_mem_cons.mpr ⟨spelled, ih later⟩
    | blank | comment | fault => exact ih later

/-- The token that closes a program is the last one and no other. -/
theorem scan_closed (source : String) : ∃ ts line,
    (scan source).tokens = ts ++ [Token.eof line] ∧ ∀ t ∈ ts, t.kind ≠ .eof := by
  obtain ⟨tiles, -, fit, reading⟩ := pieces_tiles source.toList 1
  exact ⟨_, _, congrArg Scanned.tokens reading, fun t inside => (fit.denotes t inside).kind_ne_eof⟩

/-- Tokens are on lines in the order of their tiles, and the line where the program ends is the last
one. -/
theorem Tiles.lines {line : Nat} {tiles : List Tile} (h : Tiles line tiles) :
    let tokens := tiles.filterMap Tile.token? ++
      [Token.eof (line + (tiles.flatMap Tile.text).count '\n')]
    (∀ t ∈ tokens, line ≤ t.line) ∧ tokens.Pairwise (·.line ≤ ·.line) := by
  induction tiles generalizing line with
  | nil => simp [Token.eof]
  | cons tile tiles ih =>
    obtain ⟨first, later⟩ := h
    obtain ⟨low, order⟩ := ih later
    have same : line + ((tile :: tiles).flatMap Tile.text).count '\n' =
        line + tile.text.count '\n' + (tiles.flatMap Tile.text).count '\n' := by
      rw [List.flatMap_cons, List.count_append, Nat.add_assoc]
    have above := fun t inside => Nat.le_trans (Nat.le_add_right line _) (low t inside)
    dsimp only
    rw [same]
    cases tile with
    | token t =>
      obtain ⟨here, -⟩ : t.line = line ∧ _ := first
      refine ⟨List.forall_mem_cons.mpr ⟨by omega, above⟩, List.pairwise_cons.mpr ⟨?_, order⟩⟩
      intro t' inside
      rw [here]
      exact above t' inside
    | blank | comment | fault => exact ⟨above, order⟩

theorem scan_lines (source : String) : (scan source).tokens.Pairwise (·.line ≤ ·.line) := by
  obtain ⟨tiles, text, fit, reading⟩ := pieces_tiles source.toList 1
  have order := fit.lines.2
  rw [text] at order
  have tokens := congrArg Scanned.tokens reading
  change (Scanned.ofPieces 1 (pieces source.toList)).tokens.Pairwise _
  rwa [tokens]

end LoxSyntax
