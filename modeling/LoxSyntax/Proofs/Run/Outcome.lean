import LoxSyntax.Proofs.Session.Course
import LoxSyntax.Run

namespace LoxSyntax

namespace Settings

end Settings

namespace World

/-- What a run on this script shows, or why it shows nothing. -/
def shows (world : World) (reader : String → Option Settings) (options : Options)
    (script : String) : Except Failure String := do
  (← world.settings reader options).renderFile (world.file script)

end World

namespace Outcome

end Outcome

namespace Session

end Session

namespace Outcome

end Outcome

end LoxSyntax
