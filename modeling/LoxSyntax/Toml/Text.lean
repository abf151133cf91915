import LoxSyntax.Toml.Reader

namespace LoxSyntax.Toml

def hexDigit : Reader Nat := do
  let c ← Reader.one fun c => c.isDigit || 'a' ≤ c && c ≤ 'f' || 'A' ≤ c && c ≤ 'F'
  return if c.isDigit then c.toNat - 48 else if 'a' ≤ c then c.toNat - 87 else c.toNat - 55

/-- The character with a code of `n` hexadecimal digits. A surrogate is no character. -/
def codePoint (n : Nat) : Reader Char := do
  let code := (← (List.replicate n hexDigit).mapM id).foldl (16 * · + ·) 0
  if code.isValidChar then return Char.ofNat code else failure

/-- What a backslash makes of the characters behind it. -/
def escape : Reader Char := do
  match ← Reader.one fun _ => true with
  | 'b' => return '\x08'
  | 't' => return '\t'
  | 'n' => return '\n'
  | 'f' => return '\x0c'
  | 'r' => return '\r'
  | '"' => return '"'
  | '\\' => return '\\'
  | 'u' => codePoint 4
  | 'U' => codePoint 8
  | _ => failure

/-- A string on one line, with escapes. -/
def basicString : Reader String := do
  let piece : Reader (Option Char) := do
    match ← Reader.one isPlain with
    | '"' => return none
    | '\\' => some <$> escape
    | c => return some c
  Reader.exactly ['"']
  return String.ofList (← Reader.many piece)

/-- A string on one line, without escapes. -/
def literalString : Reader String := do
  Reader.exactly ['\'']
  let text ← Reader.run fun c => isPlain c && c != '\''
  Reader.exactly ['\'']
  return String.ofList text

/-- A backslash at the end of a line leaves out all blanks and newlines that follow. -/
def continuation : Reader Unit := do
  blanks
  newline
  let piece : Reader (Option Unit) := do
    match ← Reader.peek? with
    | some ' ' | some '\t' => some <$> blanks
    | some '\n' | some '\r' => Reader.option newline
    | _ => return none
  let _ ← Reader.many piece

/-- A string over any number of lines between three quotes. A newline right behind the first
three is left out, and one or two more quotes before the last three belong to the text. -/
def multilineString (quote : Char) (escapes : Bool) : Reader String := do
  let delimiter := [quote, quote, quote]
  let piece : Reader (Option (List Char)) := do
    if ← Reader.startsWith delimiter then return none
    match ← Reader.peek? with
    | some '\n' | some '\r' =>
      newline
      return some ['\n']
    | _ =>
      let c ← Reader.one isPlain
      if escapes && c == '\\' then
        (do continuation; return some []) <|> (do return some [← escape])
      else return some [c]
  Reader.exactly delimiter
  let _ ← Reader.option newline
  let text ← Reader.many piece
  Reader.exactly delimiter
  let more ← Reader.option (Reader.exactly [quote])
  let last ← if more.isSome then Reader.option (Reader.exactly [quote]) else pure none
  let quotes := more.toList.length + last.toList.length
  return String.ofList (text.flatten ++ List.replicate quotes quote)

/-- Any of the four forms of string. -/
def string : Reader String := do
  if ← Reader.startsWith ['"', '"', '"'] then multilineString '"' true
  else if ← Reader.startsWith ['\'', '\'', '\''] then multilineString '\'' false
  else basicString <|> literalString

def isBareKey (c : Char) : Bool := c.isAlphanum || c == '_' || c == '-'

def simpleKey : Reader String := do
  match ← Reader.peek? with
  | some '"' => basicString
  | some '\'' => literalString
  | _ =>
    let text ← Reader.run isBareKey
    if text.isEmpty then failure else return String.ofList text

/-- The most keys on one path. -/
def maxPath : Nat := 79

/-- Keys with dots between them: the path of tables, and the last key. -/
def key : Reader (List String × String) := do
  let part : Reader String := do
    blanks
    let k ← simpleKey
    blanks
    return k
  let next : Reader (Option String) := do
    if ← Reader.startsWith ['.'] then
      Reader.exactly ['.']
      some <$> part
    else return none
  let first ← part
  let more ← Reader.many next
  if maxPath ≤ more.length then failure
  match more.getLast? with
  | none => return ([], first)
  | some last => return (first :: more.dropLast, last)

end LoxSyntax.Toml
