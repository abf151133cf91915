import LoxSyntax.CommandLine
import LoxSyntax.Session

namespace LoxSyntax

/-- The environment variable that names a file of settings. -/
def settingsVariable : String := "LOXFRONT_CONFIG"

/-- The exit status for a script with errors. -/
def statusOfErrors : Nat := 65

/-- What a run finds: the files, the value of the settings variable, and the standard input. -/
structure World where
  file : String → FileContent
  settingsFile : Option String
  input : Bytes

/-- What a run leaves behind. -/
structure Outcome where
  status : Nat
  out : String
  err : String
  /-- The failure that gave the status, where there is one. -/
  failure : Option Failure := none

/-- A failure as told during a run, each error on lines of its own. -/
def report : Failure → String
  | .source diagnostics =>
    String.join ((linesOfText diagnostics.text).map (· ++ "\n"))
  | f => f.message ++ "\n"

/-- A failure as told at the end of a run that it has brought down. -/
def finalReport (f : Failure) : String :=
  "Error: " ++ f.message ++
    (f.cause?.elim "" fun cause => "\n\nCaused by:\n    " ++ cause) ++ "\n"

namespace Outcome

def broughtDown (out err : String) (f : Failure) : Outcome :=
  ⟨1, out, err ++ finalReport f, some f⟩

def ofScript : Except Failure String → Outcome
  | .ok text => { status := 0, out := text ++ "\n", err := "" }
  | .error (.source diagnostics) =>
    ⟨statusOfErrors, "", report (.source diagnostics), some (.source diagnostics)⟩
  | .error f => broughtDown "" "" f

def ofSession (session : Session) : Outcome :=
  let out := String.join (session.events.map fun | .out text => text | .failure _ => "")
  let err := String.join (session.events.map fun | .out _ => "" | .failure f => report f)
  match session.fault with
  | none => { status := 0, out := out, err := err }
  | some fault => broughtDown out err (.input fault)

end Outcome

/-- Settings come from the file that the command line names, or else from the one that the
variable names. -/
def World.settings (world : World) (reader : String → Option Settings) (options : Options) :
    Except Failure Settings := do
  let name := options.config <|> world.settingsFile
  return (← Settings.loadBy reader (name.map world.file)).withEmit options.emit

/-- A run with the given options. -/
def runOptions (reader : String → Option Settings) (world : World) (options : Options) : Outcome :=
  match world.settings reader options with
  | .error f => .broughtDown "" "" f
  | .ok settings =>
    match options.script with
    | some script => .ofScript (settings.renderFile (world.file script))
    | none => .ofSession (settings.session world.input)

/-- What libraries read for a run. -/
structure Readers where
  /-- The options in a list of arguments; without options, this is how the run ends. -/
  options : List String → Except Outcome Options
  /-- The settings in the text of a file. -/
  settings : String → Option Settings

/-- A run with the given arguments. -/
def runBy (readers : Readers) (world : World) (args : List String) : Outcome :=
  match readers.options args with
  | .error outcome => outcome
  | .ok options => runOptions readers.settings world options

/-- The name and the version of the program. -/
def versionText : String := "loxfront 0.1.0\n"

/-- How a run without options ends. The words of the help, and of what is wrong with arguments, are
left out. -/
def Outcome.ofUsage : UsageError → Outcome
  | .helpWanted => { status := 0, out := "", err := "" }
  | .versionWanted => { status := 0, out := versionText, err := "" }
  | _ => { status := 2, out := "", err := "" }

/-- The readers that the program is built with. -/
def Readers.standard : Readers where
  options args := (Options.ofArguments args).mapError Outcome.ofUsage
  settings := Settings.ofToml

def run : World → List String → Outcome := runBy .standard

end LoxSyntax
