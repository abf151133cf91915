namespace LoxSyntax

inductive Colour where
  | red | green | yellow | blue
  deriving DecidableEq, Repr

structure Style where
  bold : Bool
  colour : Colour
  deriving DecidableEq, Repr

namespace Style

/-- The parts of a message, by the name under which each has its style. -/
def ofName? : String → Option Style
  | "header" | "usage" => some ⟨true, .yellow⟩
  | "literal" => some ⟨true, .blue⟩
  | "placeholder" => some ⟨false, .green⟩
  | "error" | "invalid" => some ⟨true, .red⟩
  | "valid" => some ⟨true, .green⟩
  | _ => none

def code : Colour → String
  | .red => "31"
  | .green => "32"
  | .yellow => "33"
  | .blue => "34"

/-- The escape codes that begin the style. -/
def on (style : Style) : String :=
  (if style.bold then "\x1b[1m" else "") ++ "\x1b[" ++ code style.colour ++ "m"

/-- The escape code that ends any style. -/
def off : String := "\x1b[0m"

/-- Text in a style, or as it is where the output shows none. -/
def apply (style : Style) (shown : Bool) (text : String) : String :=
  if shown then style.on ++ text ++ off else text

end Style

end LoxSyntax
