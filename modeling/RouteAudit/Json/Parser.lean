import RouteAudit.Json.Basic

/-!
# Reading JSON

`parse?` reads a text that holds one JSON value. Values nest at most 127 levels deep. The reading
functions take the text that is left and give what they read with what is left after it.
-/

namespace RouteAudit.Json

/-- A blank between the parts of a value. -/
def isSpace (c : Char) : Bool :=
  c = ' ' || c = '\n' || c = '\r' || c = '\t'

def skipSpace (s : List Char) : List Char :=
  s.dropWhile isSpace

/-- The value of a digit to the base 16. -/
def hexValue? (c : Char) : Option Nat :=
  if '0' ≤ c ∧ c ≤ '9' then some (c.toNat - '0'.toNat)
  else if 'a' ≤ c ∧ c ≤ 'f' then some (c.toNat - 'a'.toNat + 10)
  else if 'A' ≤ c ∧ c ≤ 'F' then some (c.toNat - 'A'.toNat + 10)
  else none

def hexFour? : List Char → Option (Nat × List Char)
  | a :: b :: c :: d :: r => do
    let a ← hexValue? a
    let b ← hexValue? b
    let c ← hexValue? c
    let d ← hexValue? d
    return (((a * 16 + b) * 16 + c) * 16 + d, r)
  | _ => none

/-- The character that a short escape stands for. -/
def shortEscape? : Char → Option Char
  | '"' => some '"'
  | '\\' => some '\\'
  | '/' => some '/'
  | 'b' => some '\x08'
  | 'f' => some '\x0c'
  | 'n' => some '\n'
  | 'r' => some '\r'
  | 't' => some '\t'
  | _ => none

/-- The character after `\u`: four digits, or two pairs of four for a character beyond U+FFFF. -/
def unicodeEscape? (s : List Char) : Option (Char × List Char) :=
  match hexFour? s with
  | none => none
  | some (high, rest) =>
    if 0xD800 ≤ high ∧ high < 0xDC00 then
      match rest with
      | '\\' :: 'u' :: rest =>
        match hexFour? rest with
        | none => none
        | some (low, rest) =>
          if 0xDC00 ≤ low ∧ low < 0xE000 then
            some (Char.ofNat (0x10000 + (high - 0xD800) * 0x400 + (low - 0xDC00)), rest)
          else none
      | _ => none
    else if 0xDC00 ≤ high ∧ high < 0xE000 then none
    else some (Char.ofNat high, rest)

/-- The characters of a string up to its closing quote; the number bounds the steps. -/
def readString : Nat → List Char → Option (List Char × List Char)
  | 0, _ => none
  | _ + 1, [] => none
  | n + 1, c :: r =>
    if c = '"' then some ([], r)
    else if c = '\\' then
      match r with
      | 'u' :: r =>
        match unicodeEscape? r with
        | none => none
        | some (d, r) => (readString n r).map fun (s, rest) => (d :: s, rest)
      | e :: r =>
        match shortEscape? e with
        | none => none
        | some d => (readString n r).map fun (s, rest) => (d :: s, rest)
      | [] => none
    else if c.toNat < 0x20 then none
    else (readString n r).map fun (s, rest) => (c :: s, rest)

/-- A string whose opening quote has been read. -/
def readText (steps : Nat) (s : List Char) : Option (String × List Char) :=
  (readString steps s).map fun (cs, rest) => (String.ofList cs, rest)

/-- The value of digits to the base 10. -/
def digitsValue (ds : List Char) : Nat :=
  ds.foldl (fun n d => n * 10 + (d.toNat - '0'.toNat)) 0

/-- The fraction of a number, if there is one: a point and at least one digit. -/
def readFraction : List Char → Option (List Char × List Char)
  | '.' :: r =>
    let ds := r.takeWhile Char.isDigit
    if ds = [] then none else some ('.' :: ds, r.dropWhile Char.isDigit)
  | s => some ([], s)

/-- The sign of an exponent, if there is one. -/
def readSign : List Char → List Char × List Char
  | '+' :: r => (['+'], r)
  | '-' :: r => (['-'], r)
  | s => ([], s)

/-- The exponent of a number, if there is one. -/
def readExponent : List Char → Option (List Char × List Char)
  | c :: r =>
    if c = 'e' ∨ c = 'E' then
      let (sign, r) := readSign r
      let ds := r.takeWhile Char.isDigit
      if ds = [] then none else some (c :: (sign ++ ds), r.dropWhile Char.isDigit)
    else some ([], c :: r)
  | [] => some ([], [])

def readNumber (negative : Bool) (s : List Char) : Option (Json × List Char) := do
  let ds := s.takeWhile Char.isDigit
  let rest := s.dropWhile Char.isDigit
  if ds = [] ∨ (ds.head? = some '0' ∧ ds ≠ ['0']) then none
  else
    let (fraction, rest) ← readFraction rest
    let (exponent, rest) ← readExponent rest
    let sign := if negative then ['-'] else []
    if fraction = [] ∧ exponent = [] ∧ !(negative && ds = ['0']) then
      let n := digitsValue ds
      return (int (if negative then -(n : Int) else n), rest)
    else return (decimal (String.ofList (sign ++ ds ++ fraction ++ exponent)), rest)

/-- The given word in front of the text. -/
def readWord (word : List Char) (v : Json) (s : List Char) : Option (Json × List Char) :=
  if word.isPrefixOf s then some (v, s.drop word.length) else none

mutual

/-- A value. The first number bounds the steps, the second the levels. -/
def readValue : Nat → Nat → List Char → Option (Json × List Char)
  | 0, _, _ => none
  | steps + 1, levels, s =>
    match skipSpace s with
    | [] => none
    | '"' :: r => (readText steps r).map fun (t, rest) => (string t, rest)
    | '-' :: r => readNumber true r
    | '[' :: r =>
      match levels with
      | 0 => none
      | levels + 1 =>
        match skipSpace r with
        | ']' :: r => some (array [], r)
        | r => (readItems steps levels r).map fun (vs, rest) => (array vs, rest)
    | '{' :: r =>
      match levels with
      | 0 => none
      | levels + 1 =>
        match skipSpace r with
        | '}' :: r => some (object [], r)
        | r => (readMembers steps levels r).map fun (ms, rest) => (object ms, rest)
    | 'n' :: r => readWord "ull".toList null r
    | 't' :: r => readWord "rue".toList (bool true) r
    | 'f' :: r => readWord "alse".toList (bool false) r
    | r => readNumber false r

/-- The items of an array up to its closing bracket. -/
def readItems : Nat → Nat → List Char → Option (List Json × List Char)
  | 0, _, _ => none
  | steps + 1, levels, s =>
    match readValue steps levels s with
    | none => none
    | some (v, rest) =>
      match skipSpace rest with
      | ',' :: r => (readItems steps levels r).map fun (vs, rest) => (v :: vs, rest)
      | ']' :: r => some ([v], r)
      | _ => none

/-- The members of an object up to its closing brace. -/
def readMembers : Nat → Nat → List Char → Option (List (String × Json) × List Char)
  | 0, _, _ => none
  | steps + 1, levels, s =>
    match skipSpace s with
    | '"' :: r =>
      match readText steps r with
      | none => none
      | some (name, rest) =>
        match skipSpace rest with
        | ':' :: r =>
          match readValue steps levels r with
          | none => none
          | some (v, rest) =>
            match skipSpace rest with
            | ',' :: r =>
              (readMembers steps levels r).map fun (ms, rest) => ((name, v) :: ms, rest)
            | '}' :: r => some ([(name, v)], r)
            | _ => none
        | _ => none
    | _ => none

end

def maxLevels : Nat := 127

def parse? (text : String) : Option Json :=
  let s := text.toList
  match readValue (2 * s.length + 2) maxLevels s with
  | some (v, rest) => if skipSpace rest = [] then some v else none
  | none => none

end RouteAudit.Json
