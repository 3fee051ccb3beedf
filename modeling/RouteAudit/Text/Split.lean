/-!
# Splitting and joining

`split sep s` cuts a text at every `sep`; the pieces hold no `sep` and joining them gives the text
back. A text without `sep` is its own only piece, so there is always at least one.
-/

namespace RouteAudit.Text

/-- Puts a character in front of the first piece. -/
def consFirst (c : Char) : List (List Char) → List (List Char)
  | [] => [[c]]
  | p :: ps => (c :: p) :: ps

/-- The pieces between the separators, empty ones included. -/
def split (sep : Char) : List Char → List (List Char)
  | [] => [[]]
  | c :: r => if c = sep then [] :: split sep r else consFirst c (split sep r)

/-- The text up to the last `sep` and the text after it, if there is a `sep`. -/
def splitLast? (sep : Char) : List Char → Option (List Char × List Char)
  | [] => none
  | c :: r =>
    match splitLast? sep r with
    | some (a, b) => some (c :: a, b)
    | none => if c = sep then some ([], r) else none

/-- One trailing slash less, if there is one. -/
def dropTrailingSlash (s : List Char) : List Char :=
  if s.getLast? = some '/' then s.dropLast else s

/-- Whether `needle` stands somewhere in the text. -/
def occurs (needle : List Char) : List Char → Bool
  | [] => needle.isEmpty
  | c :: r => needle.isPrefixOf (c :: r) || occurs needle r

/-! ## Splitting loses nothing -/

theorem split_ne_nil (sep : Char) (s : List Char) : split sep s ≠ [] := by
  cases s with
  | nil => simp [split]
  | cons c r =>
    rw [split]
    split
    · simp
    · cases split sep r <;> simp [consFirst]

end RouteAudit.Text
