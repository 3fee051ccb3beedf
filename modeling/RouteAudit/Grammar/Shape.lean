import RouteAudit.Grammar.Cursor

/-!
# Shapes of text

A shape describes a piece of text: words, word boundaries, runs of characters, quoted values, and
combinations of these. `hits` lists all ways in which a shape fits the text at a place, the
preferred one first; a sequence prefers by its first part, a choice by its first alternative. The
matches in a text are found from left to right, and a match begins where the one before it has
ended or later.
-/

namespace RouteAudit

/-- A description of a piece of text. -/
inductive Shape where
  | word (words : List (List Char))
  /-- The beginning or the end of a word. -/
  | boundary
  /-- Characters of a class, as many as possible. -/
  | run (member : Char → Bool)
  /-- Characters of a class, as few as possible. -/
  | shortRun (member : Char → Bool)
  /-- A value between two quote characters that does not hold the quote and passes the test. -/
  | quoted (quote : Char) (test : List Char → Bool)
  | seq (first second : Shape)
  /-- The one shape or else the other. -/
  | choice (first second : Shape)

/-- One way in which a shape fits: the value it holds, if any, and the place after it. -/
structure Hit where
  value : Option (List Char)
  after : Cursor
  deriving DecidableEq, Repr

namespace Shape

def nothing : Shape := word [[]]

def inOrder : List Shape → Shape
  | [] => nothing
  | [s] => s
  | s :: rest => seq s (inOrder rest)

/-- The first of several shapes that fits. -/
def oneOf : List Shape → Shape
  | [] => word []
  | [s] => s
  | s :: rest => choice s (oneOf rest)

def literal (s : String) : Shape := word [s.toList]

/-! ## Fitting at a place -/

/-- The places after zero, one, … characters of a class. -/
def runPlaces (member : Char → Bool) (done : List Char) : List Char → List Cursor
  | [] => [⟨done, []⟩]
  | c :: r => ⟨done, c :: r⟩ :: if member c then runPlaces member (c :: done) r else []

/-- The place after a word, if the text goes on with it. -/
def afterWord? (c : Cursor) (w : List Char) : Option Hit :=
  if w.isPrefixOf c.rest then some ⟨none, c.advance w.length⟩ else none

/-- The value between quotes at a place, if there is one. -/
def quotedHit? (quote : Char) (test : List Char → Bool) (c : Cursor) : Option Hit :=
  match c.rest with
  | [] => none
  | q :: r =>
    let value := r.takeWhile (· ≠ quote)
    if q = quote then
      match r.dropWhile (· ≠ quote) with
      | [] => none
      | q' :: rest =>
        if test value then some ⟨some value, ⟨q' :: (value.reverse ++ q :: c.done), rest⟩⟩ else none
    else none

/-- All ways to fit at a place, the preferred one first. -/
def hits : Shape → Cursor → List Hit
  | word words, c => words.filterMap (afterWord? c)
  | boundary, c => if c.atBoundary then [⟨none, c⟩] else []
  | run member, c => (runPlaces member c.done c.rest).reverse.map fun p => ⟨none, p⟩
  | shortRun member, c => (runPlaces member c.done c.rest).map fun p => ⟨none, p⟩
  | quoted quote test, c => (quotedHit? quote test c).toList
  | seq a b, c =>
    (a.hits c).flatMap fun h => (b.hits h.after).map fun k => ⟨h.value <|> k.value, k.after⟩
  | choice a b, c => a.hits c ++ b.hits c

/-! ## Finding in a text -/

/-- A match: where it begins, the value it holds, and where it ends. -/
structure Match where
  start : Cursor
  value : Option (List Char)
  after : Cursor
  deriving DecidableEq, Repr

/-- The matches from a place on, once the given number of characters has been passed over. -/
def matchesFrom (s : Shape) : Nat → List Char → List Char → List Match
  | _, _, [] => []
  | skip + 1, done, c :: r => matchesFrom s skip (c :: done) r
  | 0, done, c :: r =>
    match (s.hits ⟨done, c :: r⟩).head? with
    | none => matchesFrom s 0 (c :: done) r
    | some h =>
      ⟨⟨done, c :: r⟩, h.value, h.after⟩ ::
        matchesFrom s (h.after.offset - done.length - 1) (c :: done) r

/-- The matches in a text, from left to right. -/
def matchesIn (s : Shape) (text : List Char) : List Match :=
  matchesFrom s 0 [] text

end Shape

end RouteAudit
