/-!
# JSON values

Objects keep their members in the order of the text, repeated names included.
-/

namespace RouteAudit

/-- A JSON value. -/
inductive Json where
  | null
  | bool (value : Bool)
  | int (value : Int)
  /-- A number with a fraction or an exponent, as it is written. -/
  | decimal (literal : String)
  | string (text : String)
  | array (items : List Json)
  | object (members : List (String × Json))
  deriving Repr, Inhabited

namespace Json

def nat (n : Nat) : Json :=
  int n

def named (name : String) : List (String × Json) → List Json
  | [] => []
  | (n, v) :: rest => if n = name then v :: named name rest else named name rest

/-- The first member of an object with the given name. -/
def get? (j : Json) (name : String) : Option Json :=
  match j with
  | object members => (named name members).head?
  | _ => none

def string? : Json → Option String
  | string text => some text
  | _ => none

def bool? : Json → Option Bool
  | bool value => some value
  | _ => none

def int? : Json → Option Int
  | int value => some value
  | _ => none

def array? : Json → Option (List Json)
  | array items => some items
  | _ => none

def maxCount : Nat := Nat.pow 2 64 - 1

/-- The value of an integer from zero to the largest count. -/
def count? : Json → Option Nat
  | int (.ofNat n) => if n ≤ maxCount then some n else none
  | _ => none

end Json

end RouteAudit
