/-!
# Console styles

Text on the console is plain or carries escape codes for its colour and weight.
-/

namespace RouteAudit

/-- A colour of the console. -/
inductive Colour where
  | red
  | green
  | yellow
  | cyan
  deriving DecidableEq, Repr

def Colour.code : Colour → String
  | red => "31"
  | green => "32"
  | yellow => "33"
  | cyan => "36"

/-- How a text is shown. -/
structure Style where
  colour : Option Colour := none
  bold : Bool := false
  deriving DecidableEq, Repr

namespace Style

/-- The codes of the style: the weight before the colour. -/
def codes (s : Style) : List String :=
  (if s.bold then ["1"] else []) ++ (s.colour.map Colour.code).toList

/-- The text in the style, or the bare text on a console without colours. -/
def apply (s : Style) (colours : Bool) (text : String) : String :=
  if colours then "\x1b[" ++ ";".intercalate s.codes ++ "m" ++ text ++ "\x1b[0m" else text

end Style

end RouteAudit
