/-!
# TOML values

The values of a TOML document. Numbers with a fraction and dates are kept as they are written.
-/

namespace RouteAudit

/-- A TOML value. -/
inductive Toml where
  | string (text : String)
  | integer (value : Int)
  | float (literal : String)
  | boolean (value : Bool)
  | moment (literal : String)
  | array (items : List Toml)
  | table (entries : List (String × Toml))
  deriving Repr, Inhabited

namespace Toml

def string? : Toml → Option String
  | string text => some text
  | _ => none

def boolean? : Toml → Option Bool
  | boolean value => some value
  | _ => none

/-- The value of an integer from zero up to the largest count. -/
def count? : Toml → Option Nat
  | integer (.ofNat n) => if n < Nat.pow 2 64 then some n else none
  | _ => none

def strings? : Toml → Option (List String)
  | array items => items.mapM string?
  | _ => none

def maxInteger : Nat := Nat.pow 2 63 - 1

end Toml

end RouteAudit
