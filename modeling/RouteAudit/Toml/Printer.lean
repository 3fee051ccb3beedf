import RouteAudit.Toml.Scalar

/-!
# Writing TOML

A document is written as sections of keys and values. Arrays with two or more items take one line
for each item. A string is written in the first form that needs no escapes: plain double quotes,
single quotes, three double quotes, three single quotes; if every form needs some, in double quotes
with escapes, three of them where the string has line breaks.
-/

namespace RouteAudit.Toml

/-! ## Strings -/

/-- A control other than the tab and the line break. -/
def isControl (c : Char) : Bool :=
  (c.toNat < 0x20 && c ≠ '\t' && c ≠ '\n') || c.toNat = 0x7F

/-- The length of the longest run of a character, where `current` of them came before. -/
def longestRun (q : Char) : Nat → List Char → Nat
  | current, [] => current
  | current, c :: r =>
    if c = q then longestRun q (current + 1) r else max current (longestRun q 0 r)

/-- The ways to write a string. -/
inductive StringForm where
  | basic
  | literal
  | longBasic
  | longLiteral
  deriving DecidableEq, Repr

/-- The form that a string is written in. -/
def StringForm.choose (s : List Char) : StringForm :=
  let controls := s.any isControl
  let backslash := s.contains '\\'
  let lines := s.contains '\n'
  let doubles := longestRun '"' 0 s
  let singles := longestRun '\'' 0 s
  if !controls && !backslash && !lines && doubles = 0 then basic
  else if !controls && !lines && singles = 0 then literal
  else if !controls && !backslash && doubles ≤ 2 then longBasic
  else if !controls && singles ≤ 2 then longLiteral
  else if lines then longBasic
  else basic

def StringForm.quotes : StringForm → List Char
  | basic => ['"']
  | literal => ['\'']
  | longBasic => ['"', '"', '"']
  | longLiteral => ['\'', '\'', '\'']

/-- The code of a control with four digits to the base 16. -/
def controlCode (c : Char) : List Char :=
  ['\\', 'u', '0', '0', (Nat.digitChar (c.toNat / 16)).toUpper,
    (Nat.digitChar (c.toNat % 16)).toUpper]

/-- The text of a character inside double quotes, where line breaks are kept if `long` holds. -/
def escapeChar (long : Bool) (c : Char) : List Char :=
  match c with
  | '\x08' => ['\\', 'b']
  | '\t' => ['\\', 't']
  | '\n' => if long then ['\n'] else ['\\', 'n']
  | '\x0c' => ['\\', 'f']
  | '\r' => ['\\', 'r']
  | '\\' => ['\\', '\\']
  | c => if isControl c then controlCode c else [c]

/-- The text inside double quotes. Of quotes in a row, `allowed` stand as they are and the next one
is escaped; `before` counts those that stand in front. -/
def escapeText (long : Bool) (allowed : Nat) : Nat → List Char → List Char
  | _, [] => []
  | before, c :: r =>
    if c = '"' then
      if before < allowed then '"' :: escapeText long allowed (before + 1) r
      else '\\' :: '"' :: escapeText long allowed 0 r
    else escapeChar long c ++ escapeText long allowed 0 r

/-- The text between the quotes of a form. -/
def StringForm.body (form : StringForm) (s : List Char) : List Char :=
  match form with
  | basic => escapeText false 0 0 s
  | longBasic => escapeText true 2 0 s
  | literal | longLiteral => s

def StringForm.isLong : StringForm → Bool
  | longBasic | longLiteral => true
  | basic | literal => false

/-- A string as it is written. A string with line breaks begins on a line of its own. -/
def printString (text : String) : List Char :=
  let s := text.toList
  let form := StringForm.choose s
  let lead := if form.isLong && s.contains '\n' then ['\n'] else []
  form.quotes ++ lead ++ form.body s ++ form.quotes

/-! ## Values and sections -/

/-- The values of the fields of a section. -/
inductive FieldValue where
  | string (text : String)
  | strings (items : List String)
  | flag (value : Bool)
  | count (n : Nat)
  deriving DecidableEq, Repr

/-- A line for one item of an array. -/
def printItem (text : String) : List Char :=
  ' ' :: ' ' :: ' ' :: ' ' :: (printString text ++ [',', '\n'])

def FieldValue.print : FieldValue → List Char
  | string text => printString text
  | strings [] => ['[', ']']
  | strings [item] => '[' :: (printString item ++ [']'])
  | strings items => '[' :: '\n' :: (items.flatMap printItem ++ [']'])
  | flag value => (if value then "true" else "false").toList
  | count n => Nat.toDigits 10 n

def FieldValue.isWritable : FieldValue → Bool
  | count n => n ≤ maxInteger
  | string _ | strings _ | flag _ => true

/-- A table of fields under a header. -/
structure Section where
  name : String
  fields : List (String × FieldValue)
  deriving DecidableEq, Repr

/-- A line for one field, without its end. -/
def printField (field : String × FieldValue) : List Char :=
  field.1.toList ++ [' ', '=', ' '] ++ field.2.print ++ ['\n']

/-- The header of a section and its fields. -/
def Section.print (s : Section) : List Char :=
  '[' :: (s.name.toList ++ [']', '\n'] ++ s.fields.flatMap printField)

/-- The text of a document; an empty line stands between two sections. -/
def printSections : List Section → List Char
  | [] => []
  | [s] => s.print
  | s :: rest => s.print ++ '\n' :: printSections rest

/-- The text of a document, if every value can be written. -/
def render? (sections : List Section) : Option String :=
  if sections.all fun s => s.fields.all fun f => f.2.isWritable then
    some (String.ofList (printSections sections))
  else none

end RouteAudit.Toml
