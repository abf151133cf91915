import LoxSyntax.Diagnostic
import LoxSyntax.Text.Utf8

namespace LoxSyntax

/-- Why bytes could not be had, or are no text. -/
inductive InputFault where
  | notFound
  | isDirectory
  | notDirectory
  | nameTooLong
  | notText
  /-- A line of a session, in which the place is known. -/
  | lineNotText (e : Utf8.DecodeError)
  /-- What the system says in any other case. -/
  | system (message : String)
  deriving DecidableEq, Repr

def InputFault.message : InputFault → String
  | notFound => "No such file or directory (os error 2)"
  | isDirectory => "Is a directory (os error 21)"
  | notDirectory => "Not a directory (os error 20)"
  | nameTooLong => "File name too long (os error 36)"
  | notText => "stream did not contain valid UTF-8"
  | lineNotText e => e.message
  | system message => message

inductive Failure where
  | input (fault : InputFault)
  /-- The text of the settings does not fit them. -/
  | settings
  /-- The source has errors. -/
  | source (diagnostics : Diagnostics)
  | tooLarge (size limit : Nat)
  deriving DecidableEq, Repr

namespace Failure

def message : Failure → String
  | input fault => "io error: " ++ fault.message
  | settings => "config error: the settings do not fit"
  | source diagnostics => diagnostics.text
  | tooLarge size limit =>
    "source is " ++ toString size ++ " bytes, larger than the limit of " ++ toString limit ++
      " bytes"

/-- The message of what is behind a failure, where it has one of its own. -/
def cause? : Failure → Option String
  | input fault => some fault.message
  | _ => none

end Failure

end LoxSyntax
