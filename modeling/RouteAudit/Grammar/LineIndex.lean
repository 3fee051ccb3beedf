import RouteAudit.Text.Blank
import RouteAudit.Text.Bytes

/-!
# The lines of a text

An index keeps the places of all line breaks of a text, told in bytes. The number of a line is found by a
binary search among them, and the text of a line is what stands between two of them.
-/

namespace RouteAudit

/-- A text and the places of its line breaks, in order. -/
structure LineIndex where
  content : List Char
  newlines : Array Nat
  deriving DecidableEq, Repr

namespace LineIndex

/-- The place of a byte, if it is a line break. -/
def newlineAt? : UInt8 × Nat → Option Nat
  | (byte, place) => if byte = Text.newline then some place else none

def ofText (content : List Char) : LineIndex :=
  { content, newlines := ((Text.bytes content).zipIdx.filterMap newlineAt?).toArray }

/-- Looks for the first place that is not before the offset. The places below `lo` are before it, those
from `hi` on are not. -/
def search (places : Array Nat) (offset : Nat) : (steps lo hi : Nat) → hi ≤ places.size → Nat
  | 0, lo, _, _ => lo
  | steps + 1, lo, hi, h =>
    if hlt : lo < hi then
      have hmid : (lo + hi) / 2 < places.size := by omega
      if places[(lo + hi) / 2] < offset then search places offset steps ((lo + hi) / 2 + 1) hi h
      else search places offset steps lo ((lo + hi) / 2) (by omega)
    else lo

/-- The number of the line of a place, counted from one. -/
def lineOf (l : LineIndex) (offset : Nat) : Nat :=
  search l.newlines offset l.newlines.size 0 l.newlines.size (Nat.le_refl _) + 1

/-- The place where a line begins; there is no line zero. -/
def startOf? (l : LineIndex) : Nat → Option Nat
  | 0 => none
  | 1 => some 0
  | n + 2 => l.newlines[n]?.map (· + 1)

/-- The place where a line ends: at the next line break or at the end of the text. -/
def endOf (l : LineIndex) (line : Nat) : Nat :=
  l.newlines[line - 1]?.getD (Text.bytes l.content).length

/-- The text of a line, without the blanks around it. -/
def textOf? (l : LineIndex) (line : Nat) : Option (List Char) :=
  (l.startOf? line).bind fun start => (Text.slice? l.content start (l.endOf line)).map Text.trim

end LineIndex

end RouteAudit
