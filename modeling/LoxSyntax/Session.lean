import LoxSyntax.FileTree
import LoxSyntax.Program
import LoxSyntax.Settings
import LoxSyntax.Text.Lines

namespace LoxSyntax

namespace Settings

/-- Refuses a source past the limit of the settings, if they set one. -/
def checkSize (settings : Settings) (source : String) : Except Failure Unit :=
  match settings.maxSourceBytes with
  | some limit =>
    if limit < source.utf8ByteSize then .error (.tooLarge source.utf8ByteSize limit) else .ok ()
  | none => .ok ()

/-- The tokens of a source, one after another, or its program written back. The former is free of
errors even where the tokens are no program. -/
def render (settings : Settings) (source : String) : Except Failure String := do
  settings.checkSize source
  match settings.emit with
  | .tokens =>
    let scanned := scan source
    if scanned.errors.isEmpty then return "\n".intercalate (scanned.tokens.map Token.text)
    else throw (.source ⟨scanned.errors, []⟩)
  | .ast =>
    match readProgram source with
    | .ok program => return programText program
    | .error diagnostics => throw (.source diagnostics)

/-- Shows the source in a file. -/
def renderFile (settings : Settings) (content : FileContent) : Except Failure String := do
  settings.render (← content.text)

/-- Settings from a file, if one is named; otherwise the defaults. -/
def loadBy (reader : String → Option Settings) : Option FileContent → Except Failure Settings
  | none => .ok {}
  | some content => do
    match reader (← content.text) with
    | some settings => return settings
    | none => throw .settings

/-- Settings from a file that holds a TOML document. -/
def load : Option FileContent → Except Failure Settings := loadBy ofToml

end Settings

/-- What a session does: it writes, or it tells of a failure. -/
inductive Event where
  | out (text : String)
  | failure (f : Failure)
  deriving DecidableEq, Repr

/-- The course of a session, and the fault that ended it, if it did not just end. -/
structure Session where
  events : List Event
  fault : Option InputFault
  deriving DecidableEq, Repr

namespace Session

/-- What a session makes of one line: it goes on after some events, or ends. -/
inductive Turn where
  | goOn (events : List Event)
  | stop (fault : Option InputFault)
  deriving DecidableEq, Repr

/-- What a session makes of what a source shows, or fails to. Nothing is written of a source that
shows nothing, and no failure ends the session but a fault of its input. -/
def answer : Except Failure String → Turn
  | .ok text => .goOn (if text.isEmpty then [] else [.out (text ++ "\n")])
  | .error (.input fault) => .stop (some fault)
  | .error f => .goOn [.failure f]

/-- A session ends at an empty line, and on one that is no text. -/
def turn (settings : Settings) (line : Bytes) : Turn :=
  match Utf8.decode line with
  | .error e => .stop (some (.lineNotText e))
  | .ok source => if source.isEmpty then .stop none else answer (settings.render source)

/-- A session on lines of input; before it reads a line or finds none, it writes the prompt. -/
def ofLines (settings : Settings) : List Bytes → Session
  | [] => ⟨[.out settings.prompt], none⟩
  | line :: lines =>
    match turn settings line with
    | .stop fault => ⟨[.out settings.prompt], fault⟩
    | .goOn events =>
      let later := ofLines settings lines
      ⟨.out settings.prompt :: events ++ later.events, later.fault⟩

end Session

/-- A session on bytes of input. -/
def Settings.session (settings : Settings) (input : Bytes) : Session :=
  .ofLines settings (linesOfBytes input)

namespace Event

/-- The events of a session with what is written in a row taken together. -/
def joined : List Event → List Event
  | [] => []
  | .failure f :: more => .failure f :: joined more
  | .out text :: more =>
    match joined more with
    | .out later :: rest => .out (text ++ later) :: rest
    | rest => if text.isEmpty then rest else .out text :: rest

end Event

end LoxSyntax
