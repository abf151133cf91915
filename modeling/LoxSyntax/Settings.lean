import LoxSyntax.Toml.Document

namespace LoxSyntax

/-- What is shown of a source that is free of errors. -/
inductive Emit where
  | tokens
  | ast
  deriving DecidableEq, Repr

namespace Emit

def name : Emit → String
  | tokens => "tokens"
  | ast => "ast"

def ofName? : String → Option Emit
  | "tokens" => some tokens
  | "ast" => some ast
  | _ => none

theorem ofName?_name (emit : Emit) : ofName? emit.name = some emit := by
  cases emit <;> rfl

end Emit

structure Settings where
  /-- Written before each line of a session is read. -/
  prompt : String := "> "
  /-- Sources of more bytes are refused. -/
  maxSourceBytes : Option Nat := none
  emit : Emit := .ast
  deriving DecidableEq, Repr

namespace Settings

open Toml (Node Entries)

/-- A container with nothing in it, as which the value of an enumeration's table form counts. -/
def isEmptyNode : Node → Bool
  | .array items => items.isEmpty
  | .inline entries | .table _ entries => entries.isEmpty
  | .tables elements => elements.isEmpty
  | _ => false

/-- A mode is given by its name, or by a table that holds nothing but its name. -/
def emitOf : Node → Option Emit
  | .string name => Emit.ofName? name
  | .inline [(name, content)] | .table _ [(name, content)] =>
    if isEmptyNode content then Emit.ofName? name else none
  | _ => none

def promptOf : Node → Option String
  | .string text => some text
  | _ => none

def limitOf : Node → Option Nat
  | .integer (.ofNat n) => some n
  | _ => none

/-- Reads one setting: the default where it is not given, and nothing where it does not fit. -/
def setting {α : Type} (entries : Entries) (key : String) (fallback : α)
    (read : Node → Option α) : Option α :=
  match entries.lookup key with
  | some node => read node
  | none => some fallback

/-- Settings from the text of a document. Keys that are no settings are allowed. -/
def ofToml (text : String) : Option Settings := do
  let entries ← Toml.document text
  let standard : Settings := {}
  return {
    prompt := ← setting entries "prompt" standard.prompt promptOf
    maxSourceBytes :=
      ← setting entries "max_source_bytes" standard.maxSourceBytes (some <$> limitOf ·)
    emit := ← setting entries "emit" standard.emit emitOf }

/-- Another mode, if one is given. -/
def withEmit (settings : Settings) (emit : Option Emit) : Settings :=
  { settings with emit := emit.getD settings.emit }

end Settings

end LoxSyntax
