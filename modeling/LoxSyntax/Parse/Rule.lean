import LoxSyntax.Diagnostic

namespace LoxSyntax.Parse

/-- The most arguments of a call, and the most parameters of a function. -/
def maxArguments : Nat := 255

/-- The most levels that expressions, statements and function bodies may nest. -/
def maxDepth : Nat := 256

/-- Where a parse stands. -/
structure State where
  /-- The tokens still to be used, up to the end of the program. -/
  ahead : List Token
  /-- The token that stands at the end of the program. -/
  stop : Token
  depth : Nat
  /-- Set once the parse was given up; no error is recorded after that. -/
  halted : Bool
  errors : Array ParseError
  deriving DecidableEq, Repr

namespace State

/-- The state before the first token. What follows a token of kind `eof` is never read, and a
missing one is supplied on the line of the last token; `parse_walks` shows that this is what comes
of a cursor that goes over the whole list. -/
def start (tokens : List Token) : State where
  ahead := tokens.takeWhile (·.kind != .eof)
  stop := (tokens.find? (·.kind == .eof)).getD (.eof (tokens.getLast?.elim 1 (·.line)))
  depth := 0
  halted := false
  errors := #[]

/-- The first token of kind `eof` is the end, whatever follows it. -/
theorem start_closed {ts : List Token} (inside : ∀ t ∈ ts, t.kind ≠ .eof) {e : Token}
    (closing : e.kind = .eof) (rest : List Token) :
    start (ts ++ e :: rest) = ⟨ts, e, 0, false, #[]⟩ := by
  have stays : ∀ t ∈ ts, (t.kind != .eof) = true := by simpa using inside
  have none : ts.find? (·.kind == .eof) = none := by simpa using inside
  simp [start, List.takeWhile_append_of_pos stays, List.find?_append, none, closing]

/-- Without one, all of the tokens are in front of the end. -/
theorem start_open {ts : List Token} (inside : ∀ t ∈ ts, t.kind ≠ .eof) :
    start ts = ⟨ts, .eof (ts.getLast?.elim 1 (·.line)), 0, false, #[]⟩ := by
  have stays : ∀ t ∈ ts, (t.kind != .eof) = true := by simpa using inside
  have none : ts.find? (·.kind == .eof) = none := by simpa using inside
  have all : ts.takeWhile (·.kind != .eof) = ts := by
    rw [← List.append_nil ts, List.takeWhile_append_of_pos stays]
    rfl
  rw [start, all, none]
  rfl

/-- The token at which an error is reported. -/
def current (s : State) : Token := s.ahead.headD s.stop

def record (e : ParseError) (s : State) : State :=
  if s.halted then s else { s with errors := s.errors.push e }

end State

/-- A rule of the grammar that denotes an `α`. It looks at the next token only, never goes back, and
fails with the error at which it stopped. -/
abbrev Rule := EStateM ParseError State

namespace Rule

/-- Fails at the current token. -/
def fail {α : Type} (problem : Problem) : Rule α := fun s => .error ⟨s.current, problem⟩ s

/-- Records an error without giving up the rule. -/
def report (e : ParseError) : Rule Unit := fun s => .ok () (s.record e)

/-- The next token, if the program does not end here. -/
def peek? : Rule (Option Token) := fun s => .ok s.ahead.head? s

def skip : Rule Unit := fun s => .ok () { s with ahead := s.ahead.tail }

/-- Whether the next token is of this kind. -/
def isNext (kind : TokenKind) : Rule Bool :=
  fun s => .ok (s.ahead.head?.any (·.kind == kind)) s

/-- Uses up the next token if it is of one of these kinds. -/
def take? (kinds : List TokenKind) : Rule (Option Token) := fun s =>
  match s.ahead with
  | t :: rest => if kinds.contains t.kind then .ok (some t) { s with ahead := rest } else .ok none s
  | [] => .ok none s

/-- Uses up the next token if it is of this kind, and says whether it was. -/
def accept (kind : TokenKind) : Rule Bool := return (← take? [kind]).isSome

/-- Uses up a token of this kind, or fails with the problem. -/
def expect (kind : TokenKind) (problem : Problem) : Rule Token := do
  let some t ← take? [kind] | fail problem
  return t

def name (role : NameRole) : Rule Token := expect .identifier (.noName role)

def mark (kind : TokenKind) (place : Place) : Rule Token := expect kind (.noMark kind place)

/-- Goes one level deeper, or fails at the limit. -/
def descend : Rule Unit := fun s =>
  if s.depth < maxDepth then .ok () { s with depth := s.depth + 1 }
  else .error ⟨s.current, .tooDeep⟩ s

/-- Returns to the present depth after `rule`, however it ends. -/
def keepingDepth {α : Type} (rule : Rule α) : Rule α := fun s =>
  match rule s with
  | .ok a s' => .ok a { s' with depth := s.depth }
  | .error e s' => .error e { s' with depth := s.depth }

/-- Runs `rule` one level deeper. -/
def nested {α : Type} (rule : Rule α) : Rule α := keepingDepth do
  descend
  rule

/-- Repeats `step` on its own results until it gives none, in at most one round more than
`bound` has items. -/
def rounds {α : Type} (step : α → Rule (Option α)) : List Token → α → Rule α
  | [], a => return (← step a).getD a
  | _ :: bound, a => do
    let some b ← step a | return a
    rounds step bound b

/-- Repeats `step` on its own results until it gives none. Every step that gives one uses up a
token, so the tokens ahead bound the rounds. -/
def iterate {α : Type} (step : α → Rule (Option α)) (a : α) :
    Rule α := fun s => rounds step s.ahead a s

/-- What follows a token of this kind, if there is one. -/
def behind {α : Type} (kind : TokenKind) (rule : Rule α) : Rule (Option α) := do
  if ← accept kind then some <$> rule else return none

/-- What stands in front of a token of this kind, if anything does. -/
def before {α : Type} (kind : TokenKind) (rule : Rule α) : Rule (Option α) := do
  if ← isNext kind then return none else some <$> rule

/-- Reports that so many items are in front of the current one, if these are the most allowed. -/
def checkCount (count : Nat) (excess : Problem) : Rule Unit := fun s =>
  .ok () (if maxArguments ≤ count then s.record ⟨s.current, excess⟩ else s)

/-- Reads one more item. One past the limit is reported at its first token, and read all the
same. -/
def addItem {α : Type} (item : Rule α) (excess : Problem) (items : Array α) : Rule (Array α) := do
  checkCount items.size excess
  return items.push (← item)

/-- Items with commas between them. -/
def commaSeparated {α : Type} (item : Rule α) (excess : Problem) : Rule (List α) := do
  let next (items : Array α) := behind .comma (addItem item excess items)
  return (← iterate next (← addItem item excess #[])).toList

end Rule

/-- Leaves out the token at which a declaration failed and what follows it, up to the end of a
statement or to a token that opens the next one. -/
def synchronize : List Token → List Token
  | [] => []
  | t :: rest =>
    if t.kind = .semicolon || rest.head?.any (·.kind.beginsStatement) then rest
    else synchronize rest

theorem synchronize_suffix (tokens : List Token) : synchronize tokens <:+ tokens := by
  induction tokens with
  | nil => exact List.suffix_rfl
  | cons t rest ih =>
    unfold synchronize
    split
    · exact List.suffix_cons t rest
    · exact ih.trans (List.suffix_cons t rest)

/-- Recovery uses up a token, so parsing goes on behind a failure. -/
theorem length_synchronize_cons (t : Token) (rest : List Token) :
    (synchronize (t :: rest)).length ≤ rest.length := by
  unfold synchronize
  split
  · exact Nat.le_refl _
  · exact (synchronize_suffix rest).length_le

/-- Takes up the parse after a failure. Past the nesting limit the rest of the program cannot be
matched up, so there the parse is given up. -/
def State.recover (e : ParseError) (s : State) : State :=
  let s := s.record e
  if e.problem = .tooDeep then { s with halted := true, ahead := [] }
  else { s with ahead := synchronize s.ahead }

/-- Runs `rule`, and recovers if it fails. -/
def recovering {α : Type} (rule : Rule α) (s : State) : Option α × State :=
  match rule s with
  | .ok a s' => (some a, s')
  | .error e s' => (none, s'.recover e)

end LoxSyntax.Parse
