import LoxSyntax.Run

namespace LoxSyntax.Main

/-- The number of a system error. Its sign depends on the call that failed. -/
def errorNumber (code : UInt32) : Nat := (min code (-code)).toNat

/-- Why the system did not give the content of a file. -/
def faultOf (e : IO.Error) : InputFault :=
  match e with
  | .noFileOrDirectory .. => .notFound
  | .inappropriateType _ code _ | .invalidArgument _ code _ =>
    match errorNumber code with
    | 20 => .notDirectory
    | 21 => .isDirectory
    | 36 => .nameTooLong
    | _ => .system e.toString
  | _ => .system e.toString

def readFile (name : String) : IO FileContent := do
  try
    return .ok (← IO.FS.readBinFile name).toList
  catch e => return .error (faultOf e)

def tell (outcome : Outcome) : IO UInt32 := do
  (← IO.getStdout).putStr outcome.out
  (← IO.getStderr).putStr outcome.err
  return outcome.status.toUInt32

/-- The bytes of the next line of standard input; none are left at its end. -/
partial def readLine (input : IO.FS.Stream) (line : Bytes) : IO Bytes := do
  match (← input.read 1).toList with
  | [] => return line.reverse
  | byte :: _ => if byte = 10 then return (byte :: line).reverse else readLine input (byte :: line)

def perform : Event → IO Unit
  | .out text => do (← IO.getStdout).putStr text
  | .failure f => do (← IO.getStderr).putStr (report f)

partial def interact (settings : Settings) : IO UInt32 := do
  let output ← IO.getStdout
  output.putStr settings.prompt
  output.flush
  let [line] := linesOfBytes (← readLine (← IO.getStdin) []) | return 0
  match Session.turn settings line with
  | .goOn events =>
    events.forM perform
    interact settings
  | .stop none => return 0
  | .stop (some fault) => tell (.broughtDown "" "" (.input fault))

/-- Runs the program on the world as it is. -/
def start (args : List String) : IO UInt32 := do
  match Readers.standard.options args with
  | .error outcome => tell outcome
  | .ok options =>
    let settingsFile ← IO.getEnv settingsVariable
    let names := (options.config <|> settingsFile).toList ++ options.script.toList
    let found ← names.mapM fun name => return (name, ← readFile name)
    let world : World :=
      ⟨fun name => (found.lookup name).getD (.error .notFound), settingsFile, []⟩
    let reader := Readers.standard.settings
    match options.script, world.settings reader options with
    | none, .ok settings => interact settings
    | _, _ => tell (runOptions reader world options)

end LoxSyntax.Main

def main (args : List String) : IO UInt32 := LoxSyntax.Main.start args
