import RouteAudit.Text.Blank
import RouteAudit.Text.Bytes
import RouteAudit.Text.Word

/-!
# Places in a text

A cursor stands between two characters of a text. It keeps the characters before it, the nearest
first, and those after it, so the line that it stands on can be read off both sides.
-/

namespace RouteAudit

/-- A place in a text. -/
structure Cursor where
  /-- The characters before the place, from right to left. -/
  done : List Char
  rest : List Char
  deriving DecidableEq, Repr

namespace Cursor

/-- The whole text around the place. -/
def text (c : Cursor) : List Char :=
  c.done.reverse ++ c.rest

/-- The number of characters before the place. -/
def offset (c : Cursor) : Nat :=
  c.done.length

/-- The number of bytes before the place. -/
def byteOffset (c : Cursor) : Nat :=
  (Text.bytes c.done).length

/-- The place after the next characters, given how many. -/
def advance (c : Cursor) (count : Nat) : Cursor :=
  ⟨(c.rest.take count).reverse ++ c.done, c.rest.drop count⟩

/-- Whether a word begins or ends here. -/
def atBoundary (c : Cursor) : Bool :=
  Text.inWord c.done.head? != Text.inWord c.rest.head?

/-- The number of the line, counted from one. -/
def line (c : Cursor) : Nat :=
  c.done.count '\n' + 1

/-- The text of the line, without the blanks around it. -/
def lineText (c : Cursor) : List Char :=
  Text.trim ((c.done.takeWhile (· ≠ '\n')).reverse ++ c.rest.takeWhile (· ≠ '\n'))

end Cursor

end RouteAudit
