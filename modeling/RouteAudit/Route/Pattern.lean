import RouteAudit.Route.Segment
import RouteAudit.Text.Split

/-!
# Route patterns

A declared route is compiled into the list of its pieces. A pattern accepts a path that has one
name for each piece: the same text where the piece is fixed, any name where it is a wildcard. The
route without segments accepts `/` alone.
-/

namespace RouteAudit

/-- A declared route with a segment that has stray brackets. This is all that keeps a route from being
compiled; a limit on the size of a compiled route is left out. -/
structure MalformedPattern where
  pattern : String
  segment : String
  deriving DecidableEq, Repr

namespace MalformedPattern

/-- What is wrong with the route. -/
def reason (e : MalformedPattern) : String :=
  "unbalanced placeholder segment '" ++ e.segment ++ "'"

/-- The route and what is wrong with it. -/
def message (e : MalformedPattern) : String :=
  "malformed route pattern '" ++ e.pattern ++ "': " ++ e.reason

end MalformedPattern

/-- What a pattern asks of one name of a path. -/
inductive Piece where
  | literal (text : List Char)
  | wildcard
  deriving DecidableEq, Repr

/-- A compiled route. -/
structure RoutePattern where
  pieces : List Piece
  deriving DecidableEq, Repr

namespace RoutePattern

/-- The names of a declared route; empty ones do not count. -/
def names (declared : String) : List (List Char) :=
  (Text.split '/' declared.toList).filter (· ≠ [])

/-- The piece for a name, or the name itself if its brackets are stray. -/
def pieceOf (name : List Char) : Except String Piece :=
  match Segment.ofText (String.ofList name) with
  | .fixed text => .ok (.literal text.toList)
  | .placeholder _ => .ok .wildcard
  | .malformed text => .error text

/-- The pieces for all names, or the first name whose brackets are stray. -/
def piecesOf : List (List Char) → Except String (List Piece)
  | [] => .ok []
  | name :: rest =>
    match pieceOf name with
    | .error text => .error text
    | .ok piece => (piecesOf rest).map (piece :: ·)

/-- The pattern of a declared route, however large it is. -/
def ofDeclared (declared : String) : Except MalformedPattern RoutePattern :=
  match piecesOf (names declared) with
  | .ok pieces => .ok ⟨pieces⟩
  | .error segment => .error ⟨declared, segment⟩

/-- What is left of a text after the given literal, if it starts with it. -/
def afterLiteral? : (literal text : List Char) → Option (List Char)
  | [], text => some text
  | _ :: _, [] => none
  | l :: ls, c :: cs => if l = c then afterLiteral? ls cs else none

/-- Whether the text is a slash and a matching name for each piece, and nothing else. -/
def matchPieces : List Piece → List Char → Bool
  | [], text => text.isEmpty
  | .literal l :: ps, '/' :: text =>
    match afterLiteral? l text with
    | some rest => matchPieces ps rest
    | none => false
  | .wildcard :: ps, '/' :: text =>
    !(text.takeWhile (· ≠ '/')).isEmpty && matchPieces ps (text.dropWhile (· ≠ '/'))
  | _ :: _, _ => false

/-- Whether the pattern accepts a path. -/
def accepts (p : RoutePattern) (path : List Char) : Bool :=
  if p.pieces = [] then path = ['/'] else matchPieces p.pieces path

end RoutePattern

end RouteAudit
