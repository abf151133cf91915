import LoxSyntax.Text.LetterTable

namespace LoxSyntax.Letter

def within (ranges : List (Nat × Nat)) (c : Char) : Bool :=
  ranges.any fun r => r.1 ≤ c.toNat && c.toNat ≤ r.2

/-- A name starts with a letter or an underscore; ASCII is decided without the table. -/
def startsName (c : Char) : Bool :=
  if c.toNat < 128 then c.isAlpha || c == '_' else within alphabetic c

/-- A name goes on with letters, numerals and underscores. -/
def continuesName (c : Char) : Bool :=
  if c.toNat < 128 then c.isAlphanum || c == '_' else within alphabetic c || within numeric c

theorem continuesName_of_startsName {c : Char} (h : startsName c = true) :
    continuesName c = true := by
  unfold startsName at h
  unfold continuesName
  split at h <;> simp_all [Char.isAlphanum]
  rcases h with h | h <;> simp [h]

end LoxSyntax.Letter
