import LoxSyntax.Settings

namespace LoxSyntax

/-- What a command line asks for. -/
structure Options where
  script : Option String := none
  emit : Option Emit := none
  config : Option String := none
  verbose : Bool := false
  deriving DecidableEq, Repr

/-- Why a command line gives no options. -/
inductive UsageError where
  | invalidValue
  | unknownArgument
  | repeatedArgument
  | unneededValue
  /-- Not a fault, but a request for text in place of a run. -/
  | helpWanted
  | versionWanted
  deriving DecidableEq, Repr

namespace CommandLine

/-- What takes a value. -/
inductive Slot where
  | script | emit | config
  deriving DecidableEq, Repr

/-- What takes none. -/
inductive Switch where
  | verbose | help | version
  deriving DecidableEq, Repr

inductive Flag where
  | slot (slot : Slot)
  | switch (switch : Switch)
  deriving DecidableEq, Repr

def Flag.ofLong? : List Char → Option Flag
  | ['e', 'm', 'i', 't'] => some (.slot .emit)
  | ['c', 'o', 'n', 'f', 'i', 'g'] => some (.slot .config)
  | ['v', 'e', 'r', 'b', 'o', 's', 'e'] => some (.switch .verbose)
  | ['h', 'e', 'l', 'p'] => some (.switch .help)
  | ['v', 'e', 'r', 's', 'i', 'o', 'n'] => some (.switch .version)
  | _ => none

def Flag.ofShort? : Char → Option Flag
  | 'e' => some (.slot .emit)
  | 'c' => some (.slot .config)
  | 'v' => some (.switch .verbose)
  | 'h' => some (.switch .help)
  | 'V' => some (.switch .version)
  | _ => none

/-- How far a command line was read. -/
structure State where
  options : Options := {}
  /-- The slot that was named last, and the value given to it so far. -/
  pending : Option (Slot × Option String) := none
  /-- Whether the one argument without a name was given. -/
  scriptGiven : Bool := false
  deriving DecidableEq, Repr

abbrev Reading := Except UsageError

/-- Takes in a value. A slot is filled once; an empty value fits none. -/
def fill (options : Options) (slot : Slot) (value : String) : Reading Options :=
  match slot with
  | .script =>
    if options.script.isSome then throw .repeatedArgument
    else if value.isEmpty then throw .invalidValue
    else return { options with script := some value }
  | .config =>
    if options.config.isSome then throw .repeatedArgument
    else if value.isEmpty then throw .invalidValue
    else return { options with config := some value }
  | .emit =>
    if options.emit.isSome then throw .repeatedArgument
    else match Emit.ofName? value with
      | none => throw .invalidValue
      | some emit => return { options with emit := some emit }

/-- Takes in the pending slot. That is done when the next option begins, or at the end of the line:
until then its value may still follow, and its faults are not reported. -/
def settle (s : State) : Reading State :=
  match s.pending with
  | none => return s
  | some (_, none) => throw .invalidValue
  | some (slot, some value) =>
    return { s with options := ← fill s.options slot value, pending := none }

def turn (s : State) (switch : Switch) : Reading State := do
  let s ← settle s
  match switch with
  | .help => throw .helpWanted
  | .version => throw .versionWanted
  | .verbose =>
    if s.options.verbose then throw .repeatedArgument
    return { s with options := { s.options with verbose := true } }

/-- Names a slot. A value in the same argument is taken in at once. -/
def name (s : State) (slot : Slot) (attached : Option String) : Reading State := do
  let s ← settle s
  match attached with
  | some value => return { s with options := ← fill s.options slot value }
  | none => return { s with pending := some (slot, none) }

/-- Reads what follows two dashes: a name, and a value behind the first equals sign. -/
def long (s : State) (text : List Char) : Reading State :=
  let attached := match text.dropWhile (· != '=') with
    | [] => none
    | _ :: value => some (String.ofList value)
  match Flag.ofLong? (text.takeWhile (· != '=')), attached with
  | none, _ => throw .unknownArgument
  | some (.slot slot), _ => name s slot attached
  | some (.switch _), some _ => throw .unneededValue
  | some (.switch switch), none => turn s switch

/-- Reads what follows one dash: letters of switches, up to one that names a slot; the rest is
its value, with or without an equals sign in front. -/
def short (s : State) : List Char → Reading State
  | [] => return s
  | c :: rest =>
    match Flag.ofShort? c with
    | none => throw .unknownArgument
    | some (.switch switch) => do short (← turn s switch) rest
    | some (.slot slot) =>
      name s slot <| match rest with
        | [] => none
        | '=' :: value => some (String.ofList value)
        | value => some (String.ofList value)

/-- Reads an argument without a name, of which there is only one. -/
def unnamed (s : State) (text : String) : Reading State := do
  if s.scriptGiven then throw .unknownArgument
  let s ← settle s
  return { s with pending := some (.script, some text), scriptGiven := true }

/-- Reads one argument; a dash alone is a value. -/
def argument (s : State) (text : String) : Reading State :=
  match text.toList with
  | '-' :: '-' :: more => long s more
  | '-' :: c :: more => short s (c :: more)
  | _ =>
    match s.pending with
    | some (slot, none) => return { s with pending := some (slot, some text) }
    | _ => unnamed s text

/-- Reads all arguments. Behind two dashes that stand alone no argument has a name. -/
def arguments : State → List String → Reading State
  | s, [] => return s
  | s, text :: more => do
    if text = "--" then more.foldlM unnamed s
    else arguments (← argument s text) more

end CommandLine

/-- The options that a command line gives. -/
def Options.ofArguments (args : List String) : Except UsageError Options := do
  return (← CommandLine.settle (← CommandLine.arguments {} args)).options

end LoxSyntax
