namespace LoxSyntax.Toml

/-- Takes an `α` from the front of a text; an alternative starts where the first one did. -/
abbrev Reader := StateT (List Char) Option

namespace Reader

def peek? : Reader (Option Char) := fun text => some (text.head?, text)

/-- The next character, if it is one of these. -/
def one (p : Char → Bool) : Reader Char
  | c :: rest => if p c then some (c, rest) else none
  | [] => none

/-- These characters, in this order. -/
def exactly (wanted : List Char) : Reader Unit := fun text =>
  if wanted.isPrefixOf text then some ((), text.drop wanted.length) else none

/-- All characters up to the first that is none of these. -/
def run (p : Char → Bool) : Reader (List Char) := fun text =>
  some (text.takeWhile p, text.dropWhile p)

/-- What `item` reads, or nothing if it refuses. -/
def option {α : Type} (item : Reader α) : Reader (Option α) := some <$> item <|> pure none

def rounds {α : Type} (item : Reader (Option α)) : List Char → Reader (List α)
  | [] => return (← item).toList
  | _ :: bound => do
    let some a ← item | return []
    return a :: (← rounds item bound)

/-- Repeats `item` until it gives none. Every item takes at least one character, so the text
bounds the rounds. -/
def many {α : Type} (item : Reader (Option α)) :
    Reader (List α) := fun text => rounds item text text

/-- Whether the text goes on with these characters. -/
def startsWith (wanted : List Char) : Reader Bool := fun text =>
  some (wanted.isPrefixOf text, text)

/-- A number of exactly `n` decimal digits. -/
def digits (n : Nat) : Reader Nat := do
  return Nat.ofDigitChars 10 (← (List.replicate n (one Char.isDigit)).mapM id) 0

end Reader

/-- The blanks within a line. -/
def isBlank (c : Char) : Bool := c == ' ' || c == '\t'

def blanks : Reader Unit := do
  let _ ← Reader.run isBlank

/-- A line ends with a line feed, and with the carriage return right before it. -/
def newline : Reader Unit := Reader.exactly ['\n'] <|> Reader.exactly ['\r', '\n']

/-- Characters that need no escape: all but the controls, of which the tab is allowed. -/
def isPlain (c : Char) : Bool := c == '\t' || ' ' ≤ c && c != '\x7f'

/-- A comment, if there is one. -/
def comment : Reader Unit := do
  if ← Reader.startsWith ['#'] then
    let _ ← Reader.run isPlain

/-- Blanks, newlines and comments. -/
def layout : Reader Unit := do
  let piece : Reader (Option Unit) := do
    match ← Reader.peek? with
    | some '#' => some <$> comment
    | some ' ' | some '\t' => some <$> blanks
    | some '\n' | some '\r' => some <$> newline
    | _ => return none
  let _ ← Reader.many piece

end LoxSyntax.Toml
