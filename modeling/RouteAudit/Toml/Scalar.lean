import RouteAudit.Text.Blank
import RouteAudit.Toml.Basic

/-!
# TOML strings, numbers and dates

The reading functions take the text that is left and give what they read with what is left after
it; they give nothing if the text does not begin with what they read.
-/

namespace RouteAudit.Toml

/-! ## Characters -/

def isSpace (c : Char) : Bool :=
  c = ' ' || c = '\t'

def skipSpace (s : List Char) : List Char :=
  s.dropWhile isSpace

/-- A character that may stand in comments and strings: a tab, or any other but the controls. -/
def isText (c : Char) : Bool :=
  c = '\t' || (0x20 ≤ c.toNat && c.toNat ≠ 0x7F)

def isBareKey (c : Char) : Bool :=
  c.isAlphanum || c = '_' || c = '-'

/-- The text after a line break, if it begins with one. -/
def afterNewline? : List Char → Option (List Char)
  | '\n' :: r => some r
  | '\r' :: '\n' :: r => some r
  | _ => none

def isHexDigit (c : Char) : Bool :=
  c.isDigit || ('a' ≤ c && c ≤ 'f') || ('A' ≤ c && c ≤ 'F')

/-- The value of a digit to a base up to 16. -/
def digitValue (c : Char) : Nat :=
  if c.isDigit then c.toNat - '0'.toNat
  else if 'a' ≤ c then c.toNat - 'a'.toNat + 10
  else c.toNat - 'A'.toNat + 10

def digitsValue (base : Nat) (ds : List Char) : Nat :=
  ds.foldl (fun n d => n * base + digitValue d) 0

/-! ## Strings -/

/-- The character that a short escape stands for. -/
def shortEscape? : Char → Option Char
  | 'b' => some '\x08'
  | 't' => some '\t'
  | 'n' => some '\n'
  | 'f' => some '\x0c'
  | 'r' => some '\r'
  | '"' => some '"'
  | '\\' => some '\\'
  | _ => none

/-- The character with the code that the digits to the base 16 give. -/
def coded? (ds : List Char) : Option Char :=
  let n := digitsValue 16 ds
  if ds.all isHexDigit && (n < 0xD800 || (0xE000 ≤ n && n < 0x110000)) then some (Char.ofNat n)
  else none

/-- The given number of characters in front, if there are so many. -/
def takeExactly? (count : Nat) (s : List Char) : Option (List Char × List Char) :=
  if count ≤ s.length then some (s.take count, s.drop count) else none

/-- The character that the text after a backslash stands for. -/
def unescape? : List Char → Option (Char × List Char)
  | [] => none
  | e :: r =>
    if e = 'u' ∨ e = 'U' then
      (takeExactly? (if e = 'u' then 4 else 8) r).bind fun (ds, rest) =>
        (coded? ds).map fun c => (c, rest)
    else (shortEscape? e).map fun c => (c, r)

/-- Puts characters in front of what was read. -/
def consRead (c : Char) (r : Option (List Char × List Char)) : Option (List Char × List Char) :=
  r.map fun (s, rest) => (c :: s, rest)

/-- The characters of a basic string up to its closing quote; the number bounds the steps. -/
def readBasic : Nat → List Char → Option (List Char × List Char)
  | 0, _ => none
  | _ + 1, [] => none
  | n + 1, c :: r =>
    if c = '"' then some ([], r)
    else if c = '\\' then
      match unescape? r with
      | some (d, r) => consRead d (readBasic n r)
      | none => none
    else if isText c then consRead c (readBasic n r)
    else none

/-- The characters of a literal string up to its closing quote. -/
def readLiteral (s : List Char) : Option (List Char × List Char) :=
  let text := s.takeWhile (· ≠ '\'')
  match s.dropWhile (· ≠ '\'') with
  | [] => none
  | _ :: rest => if text.all isText then some (text, rest) else none

/-- The closing quotes of a string over several lines. Up to two quotes in front of the closing
three belong to the string. -/
def closing? (quote : Char) (s : List Char) : Option (List Char × List Char) :=
  let count := min 5 (s.takeWhile (· = quote)).length
  if 3 ≤ count then some (List.replicate (count - 3) quote, s.drop count) else none

def skipLines : List Char → List Char
  | [] => []
  | '\r' :: '\n' :: r => skipLines r
  | c :: r => if isSpace c || c = '\n' then skipLines r else c :: r

/-- The text after a folded end of line: after the backslash come blanks, a line break, and all
blanks and line breaks that follow. -/
def afterFold? (s : List Char) : Option (List Char) :=
  (afterNewline? (skipSpace s)).map skipLines

/-- The characters of a basic string over several lines, up to its closing quotes. -/
def readLongBasic : Nat → List Char → Option (List Char × List Char)
  | 0, _ => none
  | _ + 1, [] => none
  | n + 1, c :: r =>
    match closing? '"' (c :: r), afterNewline? (c :: r) with
    | some result, _ => some result
    | none, some rest => consRead '\n' (readLongBasic n rest)
    | none, none =>
      if c = '\\' then
        match afterFold? r, unescape? r with
        | some rest, _ => readLongBasic n rest
        | none, some (d, rest) => consRead d (readLongBasic n rest)
        | none, none => none
      else if isText c then consRead c (readLongBasic n r)
      else none

/-- The characters of a literal string over several lines, up to its closing quotes. -/
def readLongLiteral : Nat → List Char → Option (List Char × List Char)
  | 0, _ => none
  | _ + 1, [] => none
  | n + 1, c :: r =>
    match closing? '\'' (c :: r), afterNewline? (c :: r) with
    | some result, _ => some result
    | none, some rest => consRead '\n' (readLongLiteral n rest)
    | none, none => if isText c then consRead c (readLongLiteral n r) else none

/-- The text without a line break in front. -/
def dropNewline (s : List Char) : List Char :=
  (afterNewline? s).getD s

/-- A string of one line, as keys are written. -/
def readShortString (steps : Nat) : List Char → Option (List Char × List Char)
  | '"' :: r => readBasic steps r
  | '\'' :: r => readLiteral r
  | _ => none

def readString (steps : Nat) : List Char → Option (List Char × List Char)
  | '"' :: '"' :: '"' :: r => readLongBasic steps (dropNewline r)
  | '\'' :: '\'' :: '\'' :: r => readLongLiteral steps (dropNewline r)
  | s => readShortString steps s

/-! ## Numbers -/

/-- The sign in front, if there is one. -/
def readSign : List Char → List Char × List Char
  | '+' :: r => (['+'], r)
  | '-' :: r => (['-'], r)
  | s => ([], s)

/-- Further digits; between two digits one underscore may stand. -/
def moreDigits (digit : Char → Bool) : List Char → List Char × List Char
  | [] => ([], [])
  | '_' :: c :: r =>
    if digit c then let (ds, rest) := moreDigits digit r; (c :: ds, rest)
    else ([], '_' :: c :: r)
  | c :: r =>
    if digit c then let (ds, rest) := moreDigits digit r; (c :: ds, rest)
    else ([], c :: r)

def readDigits (digit : Char → Bool) : List Char → Option (List Char × List Char)
  | [] => none
  | c :: r =>
    if digit c then let (ds, rest) := moreDigits digit r; some (c :: ds, rest)
    else none

/-- Digits to the base 10 that do not begin with zero, or zero alone. -/
def readWhole : List Char → Option (List Char × List Char)
  | '0' :: r => some (['0'], r)
  | s => readDigits Char.isDigit s

/-- The integer that a sign and digits stand for, if it is in range. -/
def integerOf? (sign : List Char) (base : Nat) (ds : List Char) : Option Int :=
  let n := digitsValue base ds
  if sign = ['-'] then (if n ≤ Nat.pow 2 63 then some (-(n : Int)) else none)
  else (if n < Nat.pow 2 63 then some (n : Int) else none)

/-- The base and the digit class that a letter after a leading zero announces. -/
def based? : Char → Option (Nat × (Char → Bool))
  | 'x' => some (16, isHexDigit)
  | 'o' => some (8, fun c => '0' ≤ c && c ≤ '7')
  | 'b' => some (2, fun c => c = '0' || c = '1')
  | _ => none

def readDecimal (s : List Char) : Option (Int × List Char) := do
  let (sign, r) := readSign s
  let (ds, rest) ← readWhole r
  let n ← integerOf? sign 10 ds
  return (n, rest)

def readInteger : List Char → Option (Int × List Char)
  | '0' :: c :: r =>
    match based? c with
    | some (base, digit) => do
      let (ds, rest) ← readDigits digit r
      let n ← integerOf? [] base ds
      return (n, rest)
    | none => readDecimal ('0' :: c :: r)
  | s => readDecimal s

/-- The fraction of a number, without its point. -/
def readFraction : List Char → Option (List Char × List Char)
  | '.' :: r => readDigits Char.isDigit r
  | _ => none

/-- The exponent of a number: its sign and its digits. -/
def readExponent : List Char → Option ((List Char × List Char) × List Char)
  | c :: r =>
    if c = 'e' ∨ c = 'E' then
      let (sign, r) := readSign r
      (readDigits Char.isDigit r).map fun (ds, rest) => ((sign, ds), rest)
    else none
  | [] => none

/-- Whether `mantissa` times ten to the power of `exponent` is beyond the largest number of double
precision, to which numbers below the middle of the next gap are rounded. -/
def overflows (mantissa : Nat) (exponent : Int) : Bool :=
  let bound := Nat.pow 2 1024 - Nat.pow 2 970
  let digits := (Nat.toDigits 10 mantissa).length
  if mantissa = 0 ∨ digits + exponent ≤ 308 then false
  else if 309 < digits + exponent then true
  else bound * Nat.pow 10 (-exponent).toNat ≤ mantissa * Nat.pow 10 exponent.toNat

/-- A number with a fraction or an exponent; one that is too large is refused. -/
def readFloat (s : List Char) : Option (List Char × List Char) := do
  let (sign, r) := readSign s
  let (whole, r) ← readWhole r
  let fraction := readFraction r
  let (fractionDigits, r) := fraction.getD ([], r)
  let exponent := readExponent r
  let ((expSign, expDigits), r) := exponent.getD (([], []), r)
  if fraction.isNone && exponent.isNone then none
  else
    let power := (digitsValue 10 expDigits : Int) * (if expSign = ['-'] then -1 else 1)
    let tooLarge := overflows (digitsValue 10 (whole ++ fractionDigits))
      (power - fractionDigits.length)
    if tooLarge && sign ≠ ['-'] then none
    else
      let point := if fraction.isSome then '.' :: fractionDigits else []
      let e := if exponent.isSome then 'e' :: (expSign ++ expDigits) else []
      return (sign ++ whole ++ point ++ e, r)

def readSpecial (s : List Char) : Option (List Char × List Char) :=
  let (sign, r) := readSign s
  let word := r.take 3
  if word = ['i', 'n', 'f'] ∨ word = ['n', 'a', 'n'] then some (sign ++ word, r.drop 3) else none

/-! ## Dates and times -/

/-- A number of exactly so many digits, from `low` to `high`. -/
def readField (count low high : Nat) (s : List Char) : Option (Nat × List Char) :=
  (takeExactly? count s).bind fun (ds, rest) =>
    let n := digitsValue 10 ds
    if ds.all Char.isDigit && low ≤ n && n ≤ high then some (n, rest) else none

def afterChar? (c : Char) : List Char → Option (List Char)
  | d :: r => if d = c then some r else none
  | [] => none

def daysOfMonth (year month : Nat) : Nat :=
  if month = 2 then
    if year % 4 = 0 ∧ (year % 100 ≠ 0 ∨ year % 400 = 0) then 29 else 28
  else if month = 4 ∨ month = 6 ∨ month = 9 ∨ month = 11 then 30
  else 31

def afterDate? (s : List Char) : Option (List Char) := do
  let (year, r) ← readField 4 0 9999 s
  let r ← afterChar? '-' r
  let (month, r) ← readField 2 1 12 r
  let r ← afterChar? '-' r
  let (_, r) ← readField 2 1 (daysOfMonth year month) r
  return r

/-- The text after the fraction of a second, if there is one. -/
def afterFraction (s : List Char) : List Char :=
  match s with
  | '.' :: c :: r => if c.isDigit then r.dropWhile Char.isDigit else s
  | _ => s

def afterTime? (s : List Char) : Option (List Char) := do
  let (_, r) ← readField 2 0 23 s
  let r ← afterChar? ':' r
  let (_, r) ← readField 2 0 59 r
  let r ← afterChar? ':' r
  let (_, r) ← readField 2 0 60 r
  return afterFraction r

/-- The text after an offset from universal time. -/
def afterOffset? : List Char → Option (List Char)
  | c :: r =>
    if c = 'Z' ∨ c = 'z' then some r
    else if c = '+' ∨ c = '-' then do
      let (_, r) ← readField 2 0 23 r
      let r ← afterChar? ':' r
      let (_, r) ← readField 2 0 59 r
      return r
    else none
  | [] => none

/-- The text after the time that follows a date, if there is one. -/
def afterDateTime (s : List Char) : List Char :=
  match s with
  | c :: r =>
    if c = 'T' ∨ c = 't' ∨ c = ' ' then
      match afterTime? r with
      | some rest => (afterOffset? rest).getD rest
      | none => s
    else s
  | [] => s

def readMoment (s : List Char) : Option (List Char × List Char) :=
  let rest? := match afterDate? s with
    | some rest => some (afterDateTime rest)
    | none => afterTime? s
  rest?.map fun rest => (s.take (s.length - rest.length), rest)

/-! ## Values of one piece -/

def readNumber (s : List Char) : Option (Toml × List Char) :=
  match readMoment s with
  | some (literal, rest) => some (.moment (String.ofList literal), rest)
  | none =>
    match readFloat s with
    | some (literal, rest) => some (.float (String.ofList literal), rest)
    | none =>
      match readSpecial s with
      | some (literal, rest) => some (.float (String.ofList literal), rest)
      | none => (readInteger s).map fun (n, rest) => (.integer n, rest)

/-- A value that is neither an array nor a table. -/
def readScalar (steps : Nat) (s : List Char) : Option (Toml × List Char) :=
  match s with
  | [] => none
  | c :: _ =>
    if c = '"' ∨ c = '\'' then
      (readString steps s).map fun (text, rest) => (.string (String.ofList text), rest)
    else if s.take 4 = ['t', 'r', 'u', 'e'] then some (.boolean true, s.drop 4)
    else if s.take 5 = ['f', 'a', 'l', 's', 'e'] then some (.boolean false, s.drop 5)
    else readNumber s

end RouteAudit.Toml
