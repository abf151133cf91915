import LoxSyntax.Proofs.Parse.Congruence

namespace LoxSyntax.Parse

/-- A parse that goes by a place in the whole list of tokens. What stands at the place is looked up
each time, and the end of the program is a kind of token like any other. -/
structure Cursor where
  tokens : List Token
  /-- The place of the next token. -/
  current : Nat
  /-- The line of the last token, for a stand-in where no token closes the program. -/
  lastLine : Nat
  depth : Nat
  /-- Set where the nesting is found to be too deep. -/
  tooDeep : Bool
  halted : Bool
  errors : Array ParseError

namespace Cursor

/-- In front of the first token, whatever the tokens are. -/
def start (tokens : List Token) : Cursor where
  tokens := tokens
  current := 0
  lastLine := tokens.getLast?.elim 1 (·.line)
  depth := 0
  tooDeep := false
  halted := false
  errors := #[]

/-- The token at a place, or the stand-in for the end behind the last one. -/
def tokenAt (c : Cursor) (place : Nat) : Token := c.tokens[place]?.getD (.eof c.lastLine)

def peek (c : Cursor) : Token := c.tokenAt c.current

def isAtEnd (c : Cursor) : Bool := c.peek.kind == .eof

/-- Moves on by a token, but never over the end. -/
def advance (c : Cursor) : Cursor := if c.isAtEnd then c else { c with current := c.current + 1 }

/-- The token in front of the cursor; the next one where there is none. -/
def previous (c : Cursor) : Token := c.tokenAt (c.current - 1)

def check (c : Cursor) (kind : TokenKind) : Bool := !c.isAtEnd && c.peek.kind == kind

theorem lt_length {c : Cursor} (inside : c.isAtEnd = false) : c.current < c.tokens.length := by
  refine Nat.lt_of_not_le fun outside => ?_
  have none : c.tokens[c.current]? = none := List.getElem?_eq_none outside
  simp [isAtEnd, peek, tokenAt, none, Token.eof] at inside

/-- Moves on to the end of a statement, or to a token that opens the next one. -/
def seek (c : Cursor) : Cursor :=
  if c.isAtEnd then c
  else if c.previous.kind == .semicolon || c.peek.kind.beginsStatement then c
  else c.advance.seek
termination_by c.tokens.length - c.current
decreasing_by
  rename_i ended _
  have inside := lt_length (Bool.eq_false_iff.mpr ended)
  simp only [advance, ended, Bool.false_eq_true, if_false]
  omega

def report (e : ParseError) (c : Cursor) : Cursor :=
  if c.halted then c else { c with errors := c.errors.push e }

/-- Takes up the parse after a failure, and gives it up by a jump behind the last token. -/
def recover (e : ParseError) (c : Cursor) : Cursor :=
  let c := c.report e
  if c.tooDeep then { c with halted := true, current := c.tokens.length }
  else c.advance.seek

/-- The tokens that the cursor can still move over. -/
def ahead (c : Cursor) : List Token := (c.tokens.drop c.current).takeWhile (·.kind != .eof)

/-- The token at which it has to stop. -/
def stop (c : Cursor) : Token :=
  ((c.tokens.drop c.current).find? (·.kind == .eof)).getD (.eof c.lastLine)

/-- Either the cursor stands at the end and stays there, or there is a token to move over. -/
theorem ended_or_next (c : Cursor) :
    (c.isAtEnd = true ∧ c.ahead = [] ∧ c.peek = c.stop ∧ c.advance = c) ∨
      (c.isAtEnd = false ∧ c.ahead = c.peek :: c.advance.ahead ∧ c.advance.stop = c.stop ∧
        c.advance = { c with current := c.current + 1 }) := by
  have next : c.peek = (c.tokens.drop c.current).head?.getD (.eof c.lastLine) := by
    rw [List.head?_drop]
    rfl
  have behind : c.tokens.drop (c.current + 1) = (c.tokens.drop c.current).tail := by
    rw [List.tail_drop]
  cases rest : c.tokens.drop c.current with
  | nil =>
    rw [rest] at next
    have ended : c.isAtEnd = true := by simp [isAtEnd, next, Token.eof]
    exact .inl ⟨ended, by simp [ahead, rest], by simp [stop, rest, next], by simp [advance, ended]⟩
  | cons t more =>
    rw [rest] at next behind
    have next : c.peek = t := next
    by_cases closing : t.kind = .eof
    · have ended : c.isAtEnd = true := by simp [isAtEnd, next, closing]
      exact .inl ⟨ended, by simp [ahead, rest, closing], by simp [stop, rest, next, closing],
        by simp [advance, ended]⟩
    · have inside : c.isAtEnd = false := by simpa [isAtEnd, next] using closing
      have moved : c.advance = { c with current := c.current + 1 } := by simp [advance, inside]
      refine .inr ⟨inside, ?_, ?_, moved⟩
      · simp [moved, ahead, rest, behind, next, closing]
      · simp [moved, stop, rest, behind, closing]

theorem peek_eq (c : Cursor) : c.peek = c.ahead.headD c.stop := by
  obtain ⟨-, none, same, -⟩ | ⟨-, next, -, -⟩ := c.ended_or_next
  · rw [none, same]
    rfl
  · rw [next]
    rfl

theorem ahead_advance (c : Cursor) : c.advance.ahead = c.ahead.tail := by
  obtain ⟨-, none, -, stays⟩ | ⟨-, next, -, -⟩ := c.ended_or_next
  · rw [stays, none]
    rfl
  · rw [next]
    rfl

/-- The token that was moved over. -/
theorem previous_advance {c : Cursor} (inside : c.isAtEnd = false) :
    c.advance.previous = c.peek := by
  simp [advance, inside, previous, peek, tokenAt]

/-- Only the place has changed, and the cursor has to stop where it had to. -/
structure Moves (c c' : Cursor) : Prop where
  place : ∃ place, c' = { c with current := place }
  stop : c'.stop = c.stop

theorem Moves.refl (c : Cursor) : c.Moves c := ⟨⟨c.current, rfl⟩, rfl⟩

theorem Moves.trans {c c' c'' : Cursor} (h : c.Moves c') (h' : c'.Moves c'') : c.Moves c'' := by
  obtain ⟨⟨_, rfl⟩, stop⟩ := h
  obtain ⟨⟨place, rfl⟩, stop'⟩ := h'
  exact ⟨⟨place, rfl⟩, stop'.trans stop⟩

theorem moves_advance (c : Cursor) : c.Moves c.advance := by
  obtain ⟨-, -, -, stays⟩ | ⟨-, -, same, moved⟩ := c.ended_or_next
  · rw [stays]
    exact .refl c
  · exact ⟨⟨_, moved⟩, same⟩

theorem moves_seek (c : Cursor) : c.Moves c.seek := by
  fun_induction seek c with
  | case1 c _ => exact .refl c
  | case2 c _ _ => exact .refl c
  | case3 c _ _ ih => exact c.moves_advance.trans ih

/-- What is ahead after the search is what synchronization leaves of the token that was moved over
and those that were ahead. -/
theorem ahead_seek (c : Cursor) : c.seek.ahead = synchronize (c.previous :: c.ahead) := by
  fun_induction seek c with
  | case1 c ended =>
    obtain ⟨-, none, -, -⟩ | ⟨inside, -, -, -⟩ := c.ended_or_next
    · simp [none, synchronize]
    · simp [inside] at ended
  | case2 c ended boundary =>
    obtain ⟨now, -, -, -⟩ | ⟨-, next, -, -⟩ := c.ended_or_next
    · exact absurd now ended
    · have found : (c.previous.kind = .semicolon ||
          c.ahead.head?.any (·.kind.beginsStatement)) = true := by
        simpa [next] using boundary
      rw [synchronize, if_pos found]
  | case3 c ended inside ih =>
    obtain ⟨now, -, -, -⟩ | ⟨more, next, -, -⟩ := c.ended_or_next
    · exact absurd now ended
    · have missed : ¬(c.previous.kind = .semicolon ||
          c.ahead.head?.any (·.kind.beginsStatement)) = true := by
        simpa [next] using inside
      have left : synchronize (c.previous :: c.ahead) = synchronize c.ahead := by
        rw [synchronize, if_neg missed]
      rw [ih, previous_advance more, ← next, left]

/-- Recovery that does not give up leaves out what synchronization does. -/
theorem ahead_advance_seek (c : Cursor) : c.advance.seek.ahead = synchronize c.ahead := by
  obtain ⟨ended, none, -, stays⟩ | ⟨inside, next, -, -⟩ := c.ended_or_next
  · have found : c.seek = c := by
      unfold seek
      rw [if_pos ended]
    rw [stays, found, none]
    rfl
  · rw [ahead_seek, previous_advance inside, ← next]

end Cursor

/-- A rule that works on a cursor. -/
abbrev Walk := EStateM ParseError Cursor

namespace Walk

/-- Fails at the token under the cursor. -/
def fail {α : Type} (problem : Problem) : Walk α := fun c =>
  .error ⟨c.peek, problem⟩ { c with tooDeep := c.tooDeep || problem = .tooDeep }

def peek? : Walk (Option Token) := fun c => .ok (if c.isAtEnd then none else some c.peek) c

def skip : Walk Unit := fun c => .ok () c.advance

def isNext (kind : TokenKind) : Walk Bool := fun c => .ok (c.check kind) c

def take? (kinds : List TokenKind) : Walk (Option Token) := fun c =>
  if kinds.any c.check then .ok (some c.advance.previous) c.advance else .ok none c

def note (place : Token → Token) (problem : Problem) : Walk Unit := fun c =>
  .ok () (c.report ⟨place c.peek, problem⟩)

def descend : Walk Unit := fun c =>
  if c.depth < maxDepth then .ok () { c with depth := c.depth + 1 } else fail .tooDeep c

def keepingDepth {α : Type} (walk : Walk α) : Walk α := fun c =>
  match walk c with
  | .ok a c' => .ok a { c' with depth := c.depth }
  | .error e c' => .error e { c' with depth := c.depth }

def attempt {α : Type} (walk : Walk α) : Walk (Option α) := fun c =>
  match walk c with
  | .ok a c' => .ok (some a) c'
  | .error e c' => .ok none (c'.recover e)

end Walk

namespace Rule

/-- The walk is put together of the primitive walks as the rule is of the primitive rules. -/
inductive Walks : {α : Type} → Rule α → Walk α → Prop where
  | pure {α : Type} (a : α) : Walks (Pure.pure a) (Pure.pure a)
  | bind {α β : Type} {rule : Rule α} {walk : Walk α} {f : α → Rule β} {g : α → Walk β}
      (first : Walks rule walk) (second : ∀ a, Walks (f a) (g a)) :
      Walks (rule >>= f) (walk >>= g)
  | fail {α : Type} (problem : Problem) : Walks (Rule.fail problem : Rule α) (Walk.fail problem)
  | peek? : Walks Rule.peek? Walk.peek?
  | skip : Walks Rule.skip Walk.skip
  | isNext (kind : TokenKind) : Walks (Rule.isNext kind) (Walk.isNext kind)
  | take? (kinds : List TokenKind) : Walks (Rule.take? kinds) (Walk.take? kinds)
  | note (place : Token → Token) (problem : Problem) :
      Walks (Rule.note place problem) (Walk.note place problem)
  | descend : Walks Rule.descend Walk.descend
  | keepingDepth {α : Type} {rule : Rule α} {walk : Walk α} (inside : Walks rule walk) :
      Walks (Rule.keepingDepth rule) (Walk.keepingDepth walk)
  | attempt {α : Type} {rule : Rule α} {walk : Walk α} (inside : Walks rule walk) :
      Walks (Rule.attempt rule) (Walk.attempt walk)
  /-- Both are bounded by the tokens ahead, which is no more than the loops need to end by
  themselves. -/
  | bounded {α : Type} {f : List Token → Rule α} {g : List Token → Walk α}
      (each : ∀ ts, Walks (f ts) (g ts)) : Walks (fun s => f s.ahead s) fun c => g c.ahead c

end Rule

/-- What the state says about the cursor. After a failure at the nesting limit the cursor knows
already that the parse will be given up. -/
structure Cursor.Shows (deep : Bool) (c : Cursor) (s : State) : Prop where
  ahead : c.ahead = s.ahead
  /-- Where the parse was given up, the jump has left the closing token behind. -/
  stop : s.halted = false → c.stop = s.stop
  depth : c.depth = s.depth
  tooDeep : c.tooDeep = (s.halted || deep)
  halted : c.halted = s.halted
  errors : c.errors = s.errors
  /-- Nothing is ahead of a parse that was given up. -/
  ended : s.halted = true → s.ahead = []

namespace Cursor.Shows

theorem start (tokens : List Token) : Shows false (.start tokens) (.start tokens) :=
  ⟨rfl, fun _ => rfl, rfl, rfl, rfl, rfl, nofun⟩

theorem peek {deep : Bool} {c : Cursor} {s : State} (h : Shows deep c s)
    (live : s.halted = false) : c.peek = s.current := by
  rw [c.peek_eq, h.ahead, h.stop live]
  rfl

theorem head?_ahead {deep : Bool} {c : Cursor} {s : State} (h : Shows deep c s) :
    s.ahead.head? = if c.isAtEnd then none else some c.peek := by
  obtain ⟨ended, none, -, -⟩ | ⟨inside, next, -, -⟩ := c.ended_or_next
  · rw [← h.ahead, none, ended]
    rfl
  · rw [← h.ahead, next, inside]
    rfl

theorem check {deep : Bool} {c : Cursor} {s : State} (h : Shows deep c s) (kind : TokenKind) :
    c.check kind = s.ahead.head?.any (·.kind == kind) := by
  rw [h.head?_ahead]
  unfold Cursor.check
  cases c.isAtEnd <;> rfl

theorem any_check {deep : Bool} {c : Cursor} {s : State} (h : Shows deep c s)
    (kinds : List TokenKind) :
    kinds.any c.check = s.ahead.head?.any (kinds.contains ·.kind) := by
  rw [h.head?_ahead]
  unfold Cursor.check
  cases c.isAtEnd with
  | true => simp
  | false => simpa using (List.any_beq : kinds.any (c.peek.kind == ·) = _)

theorem moves {deep : Bool} {c c' : Cursor} {s : State} {ts : List Token} (h : Shows deep c s)
    (moved : c.Moves c') (ahead : c'.ahead = ts) (ended : s.ahead = [] → ts = []) :
    Shows deep c' { s with ahead := ts } := by
  obtain ⟨⟨place, rfl⟩, stop⟩ := moved
  exact ⟨ahead, fun live => stop.trans (h.stop live), h.depth, h.tooDeep, h.halted, h.errors,
    fun gone => ended (h.ended gone)⟩

theorem advance {deep : Bool} {c : Cursor} {s : State} (h : Shows deep c s) :
    Shows deep c.advance { s with ahead := s.ahead.tail } :=
  h.moves c.moves_advance (by rw [c.ahead_advance, h.ahead]) fun none => by rw [none]; rfl

theorem withDepth {deep : Bool} {c : Cursor} {s : State} (h : Shows deep c s) (d : Nat) :
    Shows deep { c with depth := d } { s with depth := d } :=
  ⟨h.ahead, h.stop, rfl, h.tooDeep, h.halted, h.errors, h.ended⟩

/-- The error may name another token where nothing is recorded any more. -/
theorem report {deep : Bool} {c : Cursor} {s : State} {e e' : ParseError} (h : Shows deep c s)
    (same : s.halted = false → e' = e) : Shows deep (c.report e') (s.record e) := by
  cases live : s.halted with
  | true =>
    have kept : c.report e' = c := if_pos (h.halted.trans live)
    have kept' : s.record e = s := if_pos live
    rwa [kept, kept']
  | false =>
    have added : c.report e' = { c with errors := c.errors.push e' } :=
      if_neg (Bool.eq_false_iff.mp (h.halted.trans live))
    have added' : s.record e = { s with errors := s.errors.push e } :=
      if_neg (Bool.eq_false_iff.mp live)
    rw [added, added', same live]
    exact ⟨h.ahead, h.stop, h.depth, h.tooDeep, h.halted, congrArg (·.push e) h.errors, h.ended⟩

/-- The jump behind the last token, for a parse that is given up. -/
theorem jump {deep : Bool} {c : Cursor} {s : State} (h : Shows deep c s) (set : c.tooDeep = true) :
    Shows false { c with halted := true, current := c.tokens.length }
      { s with halted := true, ahead := [] } where
  ahead := by simp [Cursor.ahead]
  stop := nofun
  depth := h.depth
  tooDeep := set
  halted := rfl
  errors := h.errors
  ended _ := rfl

/-- Recovery from a failure gives up in both, or goes on in front of the same tokens. -/
theorem recover {c : Cursor} {s : State} {e e' : ParseError}
    (h : Shows (e.problem = .tooDeep) c s) (same : s.halted = false → e' = e) :
    Shows false (c.recover e') (s.recover e) := by
  have recorded := h.report same
  unfold Cursor.recover State.recover
  dsimp only
  by_cases deep : e.problem = .tooDeep
  · have set : (c.report e').tooDeep = true := by simp [recorded.tooDeep, deep]
    rw [if_pos set, if_pos deep]
    exact recorded.jump set
  · rw [if_neg deep]
    have flag : (c.report e').tooDeep = (s.record e).halted := by simp [recorded.tooDeep, deep]
    by_cases gone : (s.record e).halted = true
    · have jumped := recorded.jump (flag.trans gone)
      rw [if_pos (flag.trans gone), recorded.ended gone]
      rwa [← gone] at jumped ⊢
    · have settled : Shows false (c.report e') (s.record e) :=
        { recorded with tooDeep := flag.trans (Bool.or_false _).symm }
      rw [if_neg (flag ▸ gone)]
      refine settled.moves ((Cursor.moves_advance _).trans (Cursor.moves_seek _)) ?_ fun none => ?_
      · rw [Cursor.ahead_advance_seek, settled.ahead]
      · rw [none]
        rfl

end Cursor.Shows

/-- What comes of a walk where this comes of the rule. -/
inductive Rule.Agrees {α : Type} :
    EStateM.Result ParseError Cursor α → EStateM.Result ParseError State α → Prop where
  | ok (a : α) {c : Cursor} {s : State} (shows : c.Shows false s) : Agrees (.ok a c) (.ok a s)
  | error {e e' : ParseError} {c : Cursor} {s : State} (shows : c.Shows (e.problem = .tooDeep) s)
      (same : s.halted = false → e' = e) : Agrees (.error e' c) (.error e s)

open Rule (Agrees Walks)

theorem Rule.Agrees.bind {α β : Type} {rule : Rule α} {walk : Walk α} {f : α → Rule β}
    {g : α → Walk β} {c : Cursor} {s : State} (first : Agrees (walk c) (rule s))
    (second : ∀ a c' s', c'.Shows false s' → Agrees (g a c') (f a s')) :
    Agrees ((walk >>= g) c) ((rule >>= f) s) := by
  change Agrees (EStateM.bind walk g c) (EStateM.bind rule f s)
  unfold EStateM.bind
  generalize walk c = walked, rule s = run at first ⊢
  cases first with
  | ok a shows => exact second a _ _ shows
  | error shows same => exact .error shows same

/-- A walk does what its rule says, wherever the one starts that the other shows. -/
theorem Rule.Walks.agrees {α : Type} {rule : Rule α} {walk : Walk α} (h : Walks rule walk)
    {c : Cursor} {s : State} (shows : c.Shows false s) : Agrees (walk c) (rule s) := by
  induction h generalizing c s with
  | pure a => exact .ok a shows
  | bind first second ih ih' => exact (ih shows).bind fun a _ _ shows' => ih' a shows'
  | fail problem =>
    refine .error ?_ fun live => by rw [shows.peek live]
    exact { shows with tooDeep := by simp [shows.tooDeep] }
  | peek? =>
    unfold Walk.peek? Rule.peek?
    rw [shows.head?_ahead]
    exact .ok _ shows
  | skip => exact .ok () shows.advance
  | isNext kind =>
    unfold Walk.isNext Rule.isNext
    rw [shows.check]
    exact .ok _ shows
  | take? kinds =>
    rw [Rule.take?_eq_look]
    unfold Walk.take? Rule.look Rule.taking
    rw [shows.any_check]
    by_cases found : s.ahead.head?.any (kinds.contains ·.kind) = true
    · have moved : some c.advance.previous = s.ahead.head? := by
        rw [shows.head?_ahead] at found ⊢
        split at found
        · simp at found
        next inside => rw [if_neg inside, Cursor.previous_advance (Bool.eq_false_iff.mpr inside)]
      rw [if_pos found, if_pos found, moved]
      exact .ok _ shows.advance
    · rw [if_neg found, if_neg found]
      exact .ok _ shows
  | note place problem =>
    exact .ok () (shows.report fun live => by rw [shows.peek live])
  | descend =>
    unfold Walk.descend Rule.descend
    rw [shows.depth]
    split
    · exact .ok () (shows.withDepth _)
    · refine .error ?_ fun live => by rw [shows.peek live]
      exact { shows with tooDeep := by simp [shows.tooDeep] }
  | @keepingDepth α rule walk inside ih =>
    have ended := ih shows
    unfold Walk.keepingDepth Rule.keepingDepth
    rw [shows.depth]
    generalize walk c = walked, rule s = run at ended ⊢
    cases ended with
    | ok a shows' => exact .ok a (shows'.withDepth _)
    | error shows' same => exact .error (shows'.withDepth _) same
  | @attempt α rule walk inside ih =>
    have ended := ih shows
    unfold Walk.attempt Rule.attempt recovering
    generalize walk c = walked, rule s = run at ended ⊢
    cases ended with
    | ok a shows' => exact .ok (some a) shows'
    | error shows' same => exact .ok none (shows'.recover same)
  | @bounded α f g each ih =>
    change Agrees (g c.ahead c) (f s.ahead s)
    rw [shows.ahead]
    exact ih s.ahead shows

namespace Rule

/-- There is a walk for the rule. -/
def Walked {α : Type} (rule : Rule α) : Prop := ∃ walk, Walks rule walk

theorem Walked.bind {α β : Type} {rule : Rule α} {f : α → Rule β} (first : rule.Walked)
    (second : ∀ a, (f a).Walked) : (rule >>= f).Walked := by
  obtain ⟨walk, inside⟩ := first
  obtain ⟨walks, behind⟩ := Classical.skolem.mp second
  exact ⟨walk >>= walks, .bind inside behind⟩

theorem walked_attempted : Attempted fun _ rule _ => rule.Walked where
  pure a := ⟨_, .pure a⟩
  bind := .bind
  fail {_ problem} _ := ⟨_, .fail problem⟩
  peek? := ⟨_, .peek?⟩
  skip := ⟨_, .skip⟩
  isNext kind := ⟨_, .isNext kind⟩
  take? kinds := ⟨_, .take? kinds⟩
  bounded _ _ each := by
    obtain ⟨walks, inside⟩ := Classical.skolem.mp each
    exact ⟨_, .bounded inside⟩
  attempt := fun ⟨_, inside⟩ => ⟨_, .attempt inside⟩

theorem walked_congruence : Congruence fun _ rule _ => rule.Walked where
  toStepwise := walked_attempted.toStepwise
  note place {problem} _ _ := ⟨_, .note place problem⟩
  descend := ⟨_, .descend⟩
  keepingDepth := fun ⟨_, inside⟩ => ⟨_, .keepingDepth inside⟩
  bounded := walked_attempted.bounded
  block := walked_attempted.block

end Rule

/-- The declarations of a whole program, as a rule. -/
def program : Rule (List Stmt) := fun s => reading (rules maxDepth) (fun _ => false) s.ahead s

theorem program_walked : program.Walked := by
  have each : (declarationRule (rules maxDepth)).Walked :=
    Rule.walked_congruence.declarationRule (Rule.walked_congruence.related maxDepth)
  have all (bound : List Token) : (reading (rules maxDepth) (fun _ => false) bound).Walked :=
    Rule.walked_attempted.reading (rules maxDepth) (rules maxDepth) each _ bound
  exact Rule.walked_attempted.bounded _ (reading (rules maxDepth) fun _ => false) all

end Parse

/-- A parse is what comes of walking over the whole list of tokens, with a cursor that looks for a
token of kind `eof` wherever it stands and makes one up behind the last token. -/
theorem parse_walks (tokens : List Token) :
    (∃ walk, Parse.Rule.Walks Parse.program walk) ∧
      ∀ walk, Parse.Rule.Walks Parse.program walk → ∃ c,
        walk (.start tokens) = .ok (parse tokens).statements c ∧
          c.errors.toList = (parse tokens).errors := by
  refine ⟨Parse.program_walked, fun walk inside => ?_⟩
  have ended := inside.agrees (.start tokens)
  generalize walked : walk (.start tokens) = result at ended ⊢
  cases ended with
  | ok _ shows => exact ⟨_, rfl, congrArg Array.toList shows.errors⟩

end LoxSyntax
