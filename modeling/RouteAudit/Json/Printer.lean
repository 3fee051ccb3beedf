import RouteAudit.Json.Basic

/-!
# Printing JSON

Values are printed on several lines, two spaces for each level; empty arrays and objects stay on
one line. Quotes, backslashes and controls in strings are escaped, all else stands as it is.
-/

namespace RouteAudit.Json

/-- One digit to the base 16, in lower case. -/
def hexDigit (n : Nat) : Char :=
  Nat.digitChar (n % 16)

/-- The text of one character inside a string. -/
def escapeChar (c : Char) : List Char :=
  match c with
  | '"' => ['\\', '"']
  | '\\' => ['\\', '\\']
  | '\x08' => ['\\', 'b']
  | '\x0c' => ['\\', 'f']
  | '\n' => ['\\', 'n']
  | '\r' => ['\\', 'r']
  | '\t' => ['\\', 't']
  | c =>
    if c.toNat < 0x20 then ['\\', 'u', '0', '0', hexDigit (c.toNat / 16), hexDigit c.toNat]
    else [c]

def printString (s : String) : List Char :=
  '"' :: (s.toList.flatMap escapeChar ++ ['"'])

/-- A new line with two spaces for each level. -/
def newLine (level : Nat) : List Char :=
  '\n' :: List.replicate (2 * level) ' '

def printInt (n : Int) : List Char :=
  match n with
  | .ofNat n => Nat.toDigits 10 n
  | .negSucc n => '-' :: Nat.toDigits 10 (n + 1)

mutual

/-- The value on several lines, at the given level. -/
def print (level : Nat) : Json → List Char
  | null => "null".toList
  | bool true => "true".toList
  | bool false => "false".toList
  | int n => printInt n
  | decimal literal => literal.toList
  | string text => printString text
  | array [] => ['[', ']']
  | array (v :: vs) =>
    '[' :: (newLine (level + 1) ++ print (level + 1) v ++ printItems (level + 1) vs ++
      newLine level ++ [']'])
  | object [] => ['{', '}']
  | object ((name, v) :: members) =>
    '{' :: (newLine (level + 1) ++ printString name ++ [':', ' '] ++ print (level + 1) v ++
      printMembers (level + 1) members ++ newLine level ++ ['}'])

/-- The further items of an array, each after a comma. -/
def printItems (level : Nat) : List Json → List Char
  | [] => []
  | v :: vs => ',' :: (newLine level ++ print level v ++ printItems level vs)

/-- The further members of an object, each after a comma. -/
def printMembers (level : Nat) : List (String × Json) → List Char
  | [] => []
  | (name, v) :: members =>
    ',' :: (newLine level ++ printString name ++ [':', ' '] ++ print level v ++
      printMembers level members)

end

def pretty (j : Json) : String :=
  String.ofList (print 0 j)

end RouteAudit.Json
