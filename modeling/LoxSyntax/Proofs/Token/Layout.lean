import LoxSyntax.Proofs.Token.Newline

namespace LoxSyntax

/-- The characters that stand between tokens and mean nothing. -/
def blanks : List Char := [' ', '\t', '\r', '\n']

/-- Blanks and comments, each comment with the newline that ends it. -/
inductive Layout : List Char → Prop where
  | nothing : Layout []
  | blank {c : Char} {more : List Char} (is : c ∈ blanks) (rest : Layout more) : Layout (c :: more)
  | comment {body more : List Char} (inside : '\n' ∉ body) (rest : Layout more) :
      Layout ('/' :: '/' :: (body ++ '\n' :: more))

/-- Layout that keeps tokens apart. It begins with a blank, as a comment right behind a slash would
take that slash for its own. -/
structure Separator (gap : List Char) : Prop where
  layout : Layout gap
  blank : ∃ c ∈ gap.head?, c ∈ blanks

/-- The text is that of the lexemes of these tokens, with a separator between each two. -/
inductive LaidOut : List Token → List Char → Prop where
  | nothing : LaidOut [] []
  | last (t : Token) : LaidOut [t] t.lexeme.toList
  | next (t : Token) {ts : List Token} {gap text : List Char} (some : ts ≠ [])
      (between : Separator gap) (more : LaidOut ts text) :
      LaidOut (t :: ts) (t.lexeme.toList ++ (gap ++ text))

theorem Cut.first_blank {c : Char} (is : c ∈ blanks) (cs : List Char) :
    Cut.first c cs = ⟨.blank, [c], cs⟩ := by
  simp only [blanks, List.mem_cons, List.not_mem_nil, or_false] at is
  rcases is with rfl | rfl | rfl | rfl <;> rfl

/-- A comment is left out up to its newline. -/
theorem scanFrom_comment {body : List Char} (inside : '\n' ∉ body) (line : Nat)
    (rest : List Char) :
    scanFrom line ('/' :: '/' :: (body ++ '\n' :: rest)) = scanFrom (line + 1) rest := by
  have all : ∀ c ∈ body, (c != '\n') = true := fun c is =>
    bne_iff_ne.mpr fun same => inside (same ▸ is)
  have taken : body.takeWhile (· != '\n') = body := List.takeWhile_eq_self_iff.mpr all
  have dropped : body.dropWhile (· != '\n') = [] := List.dropWhile_eq_nil_iff.mpr all
  have cut : Cut.first '/' ('/' :: (body ++ '\n' :: rest)) =
      ⟨.comment, '/' :: '/' :: body, '\n' :: rest⟩ := by
    change Cut.comment (body ++ '\n' :: rest) = _
    rw [Cut.comment_newline, Cut.comment, taken, dropped]
    rfl
  have none : ('/' :: '/' :: body).count '\n' = 0 := by
    simpa [List.count_eq_zero] using inside
  have skipped : scanFrom line ('/' :: '/' :: (body ++ '\n' :: rest)) =
      scanFrom (line + ('/' :: '/' :: body).count '\n') ('\n' :: rest) := by
    unfold scanFrom
    rw [pieces, cut]
    rfl
  rw [skipped, none, Nat.add_zero]
  exact scanFrom_blank line rfl

namespace Layout

/-- Layout is no token, and moves what is behind it down by its newlines. -/
theorem skipped {text : List Char} (h : Layout text) (line : Nat) (rest : List Char) :
    scanFrom line (text ++ rest) = scanFrom (line + text.count '\n') rest := by
  induction h generalizing line with
  | nothing => rfl
  | @blank c more is _ ih =>
    have lines : ([c] ++ more).count '\n' = [c].count '\n' + more.count '\n' :=
      List.count_append
    rw [List.singleton_append] at lines
    rw [List.cons_append, scanFrom_blank line (Cut.first_blank is _), ih, lines, Nat.add_assoc]
  | @comment body more inside _ ih =>
    have lines : ('/' :: '/' :: (body ++ '\n' :: more)).count '\n' = 1 + more.count '\n' := by
      simp [List.count_eq_zero.mpr inside, Nat.add_comm]
    have whole : '/' :: '/' :: (body ++ '\n' :: more) ++ rest =
        '/' :: '/' :: (body ++ '\n' :: (more ++ rest)) := by simp
    rw [whole, scanFrom_comment inside, ih, lines, Nat.add_assoc]

theorem spells {text : List Char} (h : Layout text) (may : List Char → Prop) (line : Nat) :
    Spells may text line [] (line + text.count '\n') :=
  fun rest _ => h.skipped line rest

end Layout

/-- Every lexeme may stand in front of a separator. -/
theorem Separator.stops {gap : List Char} (h : Separator gap) (rest : List Char) :
    Stops (gap ++ rest) := by
  obtain ⟨c, first, is⟩ := h.blank
  obtain ⟨more, rfl⟩ := List.head?_eq_some_iff.mp first
  have among : blanks ⊆ separators := by decide
  exact .inl (among is)

/-- Where it is read in full, a lexeme is read as the token that it spells. -/
theorem Denotes.spells {lexeme : String} {kind : TokenKind} {literal : Option Literal}
    (h : Denotes lexeme kind literal) (line : Nat) :
    ∃ line', Spells Stops lexeme.toList line [⟨kind, lexeme, literal, line⟩] line' := by
  cases h with
  | fixed spelled => exact ⟨line, Spells.spelling spelled⟩
  | name letters other =>
    have read := @Spells.word line lexeme letters
    rw [other] at read
    exact ⟨line, read⟩
  | string value inside => exact Spells.string inside
  | number numeral finite =>
    have token := (Cut.numeral_eq _ _).trans (if_pos finite)
    refine ⟨line, ?_⟩
    rw [String.toList_ofList]
    exact Spells.numeral numeral token

/-- Tokens that are laid out are read again, each on its new line. -/
theorem LaidOut.spells {ts : List Token} {text : List Char} (h : LaidOut ts text)
    (denote : ∀ t ∈ ts, Denotes t.lexeme t.kind t.literal) (line : Nat) :
    ∃ us line', Spells Stops text line us line' ∧
      us.map (fun t => (t.kind, t.lexeme, t.literal)) =
        ts.map fun t => (t.kind, t.lexeme, t.literal) := by
  induction h generalizing line with
  | nothing => exact ⟨[], line, .nil, rfl⟩
  | last t =>
    obtain ⟨line', read⟩ := (denote t List.mem_cons_self).spells line
    exact ⟨_, line', read, rfl⟩
  | @next t ts gap text some between more ih =>
    obtain ⟨first, others⟩ := List.forall_mem_cons.mp denote
    obtain ⟨below, read⟩ := first.spells line
    obtain ⟨us, line', later, same⟩ := ih others (below + gap.count '\n')
    have behind : Spells Stops (gap ++ text) below ([] ++ us) line' :=
      (between.layout.spells Anything below).append later fun _ _ => trivial
    refine ⟨_, line', read.append behind fun rest _ => ?_, ?_⟩
    -- A lexeme ends in front of its gap, as that begins with a blank.
    · rw [List.append_assoc]
      exact between.stops _
    · rw [List.nil_append, List.map_append, same]
      rfl

/-- Layout does not matter. Whatever source tokens were scanned from, with or without errors, their
lexemes with a separator between each two, with any layout in front and a separator behind or none,
are scanned without an error, and as tokens of the same kinds, with the same lexemes and values and
in the same order. -/
theorem scan_laidOut {source : String} {ts : List Token} {line : Nat}
    (scanned : (scan source).tokens = ts ++ [Token.eof line]) {before text after : List Char}
    (laidOut : LaidOut ts text) (leading : Layout before)
    (trailing : after = [] ∨ Separator after) :
    ∃ us line', scan (String.ofList (before ++ text ++ after)) = ⟨us ++ [Token.eof line'], []⟩ ∧
      us.map (fun t => (t.kind, t.lexeme, t.literal)) =
        ts.map fun t => (t.kind, t.lexeme, t.literal) := by
  obtain ⟨tiles, -, fit, reading⟩ := pieces_tiles source.toList 1
  have tokens := congrArg Scanned.tokens reading
  obtain ⟨rfl, -⟩ := List.append_inj' (scanned.symm.trans tokens) rfl
  obtain ⟨us, below, read, same⟩ := laidOut.spells fit.denotes (1 + before.count '\n')
  have closing : ∃ line', Spells Stops after below [] line' ∧
      ∀ rest, Stops rest → Stops (after ++ rest) := by
    rcases trailing with rfl | separator
    · exact ⟨below, .nil, fun _ stops => stops⟩
    · exact ⟨_, separator.layout.spells Stops below, fun rest _ => separator.stops rest⟩
  obtain ⟨line', ends, fits⟩ := closing
  have whole : Spells Stops (before ++ (text ++ after)) 1 ([] ++ (us ++ [])) line' :=
    (leading.spells Anything 1).append (read.append ends fits) fun _ _ => trivial
  rw [List.nil_append, List.append_nil, ← List.append_assoc,
    ← String.toList_ofList (l := before ++ text ++ after)] at whole
  exact ⟨us, line', whole.scan trivial, same⟩

/-- A division, and a number in front of a point. -/
def crowdedTokens : List Token :=
  [⟨.identifier, "a", none, 1⟩, ⟨.slash, "/", none, 1⟩,
    ⟨.number, "3", some (.number (numeralValue ['3'] [])), 1⟩, ⟨.dot, ".", none, 1⟩]

/-- Their lexemes, the first two of them in front of comments. -/
def spreadText : List Char :=
  "a".toList ++ ([' ', '/', '/', '/', '\n'] ++ ("/".toList ++ (['\r', '/', '/', '\n'] ++
    ("3".toList ++ (['\t'] ++ ".".toList)))))

theorem scan_laidOut_spreadText :
    (scan "a/3.").tokens = crowdedTokens ++ [Token.eof 1] ∧ LaidOut crowdedTokens spreadText ∧
      Layout ['/', '/', '\n'] ∧ Separator ['\n'] ∧
      ∃ us line', scan (String.ofList (['/', '/', '\n'] ++ spreadText ++ ['\n'])) =
          ⟨us ++ [Token.eof line'], []⟩ ∧
        us.map (fun t => (t.kind, t.lexeme, t.literal)) =
          crowdedTokens.map fun t => (t.kind, t.lexeme, t.literal) := by
  have scanned : (scan "a/3.").tokens = crowdedTokens ++ [Token.eof 1] := by decide +kernel
  have comment : Layout ['/', '/', '\n'] := @Layout.comment [] [] nofun .nothing
  have slashes : Layout ['/', '/', '/', '\n'] := @Layout.comment ['/'] [] (by decide) .nothing
  have laidOut : LaidOut crowdedTokens spreadText :=
    .next _ (List.cons_ne_nil _ _) ⟨.blank (by decide) slashes, ' ', rfl, by decide⟩ <|
      .next _ (List.cons_ne_nil _ _) ⟨.blank (by decide) comment, '\r', rfl, by decide⟩ <|
        .next _ (List.cons_ne_nil _ _) ⟨.blank (by decide) .nothing, '\t', rfl, by decide⟩ <|
          .last _
  have newline : Separator ['\n'] := ⟨.blank (by decide) .nothing, '\n', rfl, by decide⟩
  exact ⟨scanned, laidOut, comment, newline, scan_laidOut scanned laidOut comment (.inr newline)⟩

end LoxSyntax
