import LoxSyntax.Proofs.Token.Tiling

namespace LoxSyntax

namespace Tile

/-- The line of the token or of the error that the tile is. -/
def line? : Tile → Option Nat
  | token t => some t.line
  | fault e _ => some e.line
  | _ => none

theorem Fits.line_eq {line l : Nat} {rest : List Char} {tile : Tile} (h : tile.Fits line rest)
    (is : l ∈ tile.line?) : l = line := by
  cases tile with
  | token => exact (Option.some.inj is).symm.trans h.1
  | fault => exact (Option.some.inj is).symm.trans h.1
  | blank | comment => cases is

theorem line?_of_token? {tile : Tile} {t : Token} (h : t ∈ tile.token?) : t.line ∈ tile.line? := by
  cases tile with
  | token => exact congrArg (some ·.line) (Option.some.inj h)
  | blank | comment | fault => cases h

theorem line?_of_error? {tile : Tile} {e : ScanError} (h : e ∈ tile.error?) :
    e.line ∈ tile.line? := by
  cases tile with
  | fault => exact congrArg (some ·.line) (Option.some.inj h)
  | blank | comment | token => cases h

end Tile

namespace Tiles

/-- Tiles behind others start on the line where those end. -/
theorem behind {line : Nat} {before after : List Tile} (h : Tiles line (before ++ after)) :
    Tiles (line + (before.flatMap Tile.text).count '\n') after := by
  induction before generalizing line with
  | nil => exact h
  | cons tile before ih =>
    rw [List.flatMap_cons, List.count_append, ← Nat.add_assoc]
    exact ih h.2

/-- The line of a tile is told by the newlines in front of it. -/
theorem line_eq {line l : Nat} {before after : List Tile} {tile : Tile}
    (h : Tiles line (before ++ tile :: after)) (is : l ∈ tile.line?) :
    l = line + (before.flatMap Tile.text).count '\n' :=
  h.behind.1.line_eq is

/-- No tile is on a line above one in front of it. -/
theorem pairwise {line : Nat} {tiles : List Tile} (h : Tiles line tiles) :
    (∀ tile ∈ tiles, ∀ l ∈ tile.line?, line ≤ l) ∧
      tiles.Pairwise fun tile tile' => ∀ l ∈ tile.line?, ∀ l' ∈ tile'.line?, l ≤ l' := by
  induction tiles generalizing line with
  | nil => exact ⟨nofun, .nil⟩
  | cons tile tiles ih =>
    obtain ⟨first, later⟩ := h
    obtain ⟨low, order⟩ := ih later
    have above : ∀ tile' ∈ tiles, ∀ l ∈ tile'.line?, line ≤ l := fun tile' inside l is =>
      Nat.le_trans (Nat.le_add_right line _) (low tile' inside l is)
    refine ⟨List.forall_mem_cons.mpr ⟨fun l is => Nat.le_of_eq (first.line_eq is).symm, above⟩,
      List.pairwise_cons.mpr ⟨?_, order⟩⟩
    intro tile' inside l is l' is'
    rw [first.line_eq is]
    exact above tile' inside l' is'

theorem errors_pairwise {line : Nat} {tiles : List Tile} (h : Tiles line tiles) :
    (tiles.filterMap Tile.error?).Pairwise (·.line ≤ ·.line) := by
  refine List.pairwise_filterMap.mpr (h.pairwise.2.imp ?_)
  intro tile tile' order e is e' is'
  exact order _ (Tile.line?_of_error? is) _ (Tile.line?_of_error? is')

end Tiles

/-- Lines are exact: a source is made up of tiles, among which are the tokens and the errors of its
scan, in order, and each of these is on the line that is one more than the newlines in all tiles in
front of it. The program ends on the line that is one more than all newlines of the source, and
neither the lines of the tokens nor those of the errors ever decrease. -/
theorem scan_positions (source : String) :
    ∃ tiles : List Tile, tiles.flatMap Tile.text = source.toList ∧ Tiles 1 tiles ∧
      (scan source).tokens =
        tiles.filterMap Tile.token? ++ [Token.eof (1 + source.toList.count '\n')] ∧
      (scan source).errors = tiles.filterMap Tile.error? ∧
      (∀ before tile after, tiles = before ++ tile :: after →
        (∀ t, tile.token? = some t → t.line = 1 + (before.flatMap Tile.text).count '\n') ∧
        ∀ e, tile.error? = some e → e.line = 1 + (before.flatMap Tile.text).count '\n') ∧
      (scan source).tokens.Pairwise (·.line ≤ ·.line) ∧
      (scan source).errors.Pairwise (·.line ≤ ·.line) := by
  obtain ⟨tiles, text, fit, reading⟩ := pieces_tiles source.toList 1
  have errors : (scan source).errors = tiles.filterMap Tile.error? :=
    congrArg Scanned.errors reading
  refine ⟨tiles, text, fit, congrArg Scanned.tokens reading, errors, ?_, scan_lines source,
    errors ▸ fit.errors_pairwise⟩
  rintro before tile after rfl
  exact ⟨fun t is => fit.line_eq (Tile.line?_of_token? is),
    fun e is => fit.line_eq (Tile.line?_of_error? is)⟩

/-- A string over two lines, and one that is not closed. -/
example : let scanned := scan "\"a\nb\" c\n// d\n\"e\n"
    scanned.tokens.map (·.line) = [1, 2, 5] ∧ scanned.errors.map (·.line) = [4] := by
  decide +kernel

end LoxSyntax
