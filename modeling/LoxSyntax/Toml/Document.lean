import LoxSyntax.Toml.Scalar
import LoxSyntax.Toml.Table
import LoxSyntax.Toml.Text

namespace LoxSyntax.Toml

/-- A key with its path, and the value given to it. -/
abbrev Pair := (List String × String) × Node

/-- Items between brackets, over any number of lines; a comma may follow the last one. -/
def arrayOf (item : Reader Node) : Reader Node := do
  let next : Reader (Option Node) := do
    if ← Reader.startsWith [']'] then return none
    let a ← item
    layout
    unless ← Reader.startsWith [']'] do
      Reader.exactly [',']
      layout
    return some a
  Reader.exactly ['[']
  layout
  let items ← Reader.many next
  Reader.exactly [']']
  return .array items

/-- A key, an equals sign and a value. -/
def pairOf (value : Reader Node) : Reader Pair := do
  let k ← key
  Reader.exactly ['=']
  blanks
  return (k, ← value)

/-- Pairs between braces, on one line; no comma follows the last one. -/
def inlineOf (value : Reader Node) : Reader Node := do
  let pair : Reader Pair := do
    let p ← pairOf value
    blanks
    return p
  let next : Reader (Option Pair) := do
    if ← Reader.startsWith [','] then
      Reader.exactly [',']
      some <$> pair
    else return none
  Reader.exactly ['\x7b']
  blanks
  let pairs ← do
    if ← Reader.startsWith ['\x7d'] then pure []
    else
      let first ← pair
      let more ← Reader.many next
      pure (first :: more)
  Reader.exactly ['\x7d']
  match Entries.addValues pairs [] with
  | some entries => return .inline entries
  | none => failure

/-- The most levels that arrays and inline tables may nest. -/
def maxNesting : Nat := 79

def scalar : Reader Node := do
  match ← Reader.peek? with
  | some '"' | some '\'' => .string <$> string
  | some 't' | some 'f' => .boolean <$> boolean
  | _ =>
    (do moment; return .moment) <|> (do float; return .float) <|> (do return .integer (← integer))

/-- A value in which arrays and inline tables nest at most so many levels. -/
def value : Nat → Reader Node
  | 0 => scalar
  | level + 1 => do
    match ← Reader.peek? with
    | some '[' => arrayOf (value level)
    | some '\x7b' => inlineOf (value level)
    | _ => scalar

/-- What stands on one line of a document. -/
inductive Line where
  | blank
  | pair (p : Pair)
  | header (path : List String) (key : String)
  | elementHeader (path : List String) (key : String)

def header : Reader Line := do
  if ← Reader.startsWith ['[', '['] then
    Reader.exactly ['[', '[']
    let (path, k) ← key
    Reader.exactly [']', ']']
    return .elementHeader path k
  else
    Reader.exactly ['[']
    let (path, k) ← key
    Reader.exactly [']']
    return .header path k

/-- One line with its comment and its end; a value may run over further lines. -/
def line : Reader (Option Line) := do
  if (← Reader.peek?).isNone then return none
  blanks
  let content ← match ← Reader.peek? with
    | none | some '#' | some '\n' | some '\r' => pure .blank
    | some '[' => header
    | _ => .pair <$> pairOf (value maxNesting)
  blanks
  comment
  unless (← Reader.peek?).isNone do newline
  return some content

/-- The pairs of each table: those in front of all headers, and those behind each header. -/
def sections : List Line → List Pair × List (Line × List Pair)
  | [] => ([], [])
  | line :: more =>
    let (pairs, later) := sections more
    match line with
    | .blank => (pairs, later)
    | .pair p => (p :: pairs, later)
    | line => ([], (line, pairs) :: later)

/-- Adds the table that a header opens. -/
def addSection (entries : Entries) : Line × List Pair → Option Entries
  | (.header path key, pairs) => entries.addTable path key pairs
  | (.elementHeader path key, pairs) => entries.addElement path key pairs
  | (_, pairs) => entries.addValues pairs

/-- The entries of a document. A byte order mark in front of it is left out. -/
def document (text : String) : Option Entries := do
  let chars := if text.toList.head? = some '\ufeff' then text.toList.tail else text.toList
  let (lines, rest) ← Reader.many line chars
  if !rest.isEmpty then none
  let (pairs, later) := sections lines
  later.foldlM addSection (← Entries.addValues pairs [])

end LoxSyntax.Toml
