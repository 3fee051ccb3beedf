/-!
# Bytes of a text

A text is stored as the UTF-8 bytes of its characters. A place in it can be told by the number of bytes
before it; not every number tells a place, since a character may have several bytes.
-/

namespace RouteAudit.Text

def bytes (s : List Char) : List UInt8 :=
  s.flatMap String.utf8EncodeChar

/-- The byte of a line break. -/
def newline : UInt8 := 10

/-- The text before and behind a number of bytes, unless they end inside a character or beyond the text. -/
def splitAtByte? : Nat → List Char → Option (List Char × List Char)
  | 0, s => some ([], s)
  | _ + 1, [] => none
  | n + 1, c :: r =>
    if c.utf8Size ≤ n + 1 then
      (splitAtByte? (n + 1 - c.utf8Size) r).map fun (before, behind) => (c :: before, behind)
    else none

/-- The text from one place to another, both told in bytes, unless the second comes before the first or one
of them is no place. -/
def slice? (s : List Char) (start stop : Nat) : Option (List Char) :=
  if start ≤ stop then
    (splitAtByte? start s).bind fun parts => (splitAtByte? (stop - start) parts.2).map Prod.fst
  else none

end RouteAudit.Text
