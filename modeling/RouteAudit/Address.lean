import RouteAudit.Text.Split

/-!
# Addresses

An address is the text of a reference to a route, such as `/courses/${id}?tab=1`. It may hold
interpolations `${…}`, whose braces nest; an interpolation that is never closed reaches to the end.
Nothing inside an interpolation counts as path syntax.

The functions scan the text once from the left. Their counter is the number of braces that are
open: zero outside every interpolation.
-/

namespace RouteAudit.Address

/-- The number of open braces after a character inside an interpolation. -/
def braces (depth : Nat) (c : Char) : Nat :=
  if c = '{' then depth + 1 else if c = '}' then depth - 1 else depth

/-- The text before the first `?` or `#` outside every interpolation. -/
def pathPartFrom : Nat → List Char → List Char
  | _, [] => []
  | 0, '$' :: '{' :: r => '$' :: '{' :: pathPartFrom 1 r
  | 0, c :: r => if c = '?' ∨ c = '#' then [] else c :: pathPartFrom 0 r
  | n + 1, c :: r => c :: pathPartFrom (braces (n + 1) c) r

/-- The address without its query and fragment. -/
def pathPart (s : List Char) : List Char :=
  pathPartFrom 0 s

/-- The text with `*` for each interpolation, from inside the given number of braces. -/
def wildcardFrom : Nat → List Char → List Char
  | _, [] => []
  | 0, '$' :: '{' :: r => '*' :: wildcardFrom 1 r
  | 0, c :: r => c :: wildcardFrom 0 r
  | n + 1, c :: r => wildcardFrom (braces (n + 1) c) r

/-- The address with `*` for each interpolation. -/
def wildcard (s : List Char) : List Char :=
  wildcardFrom 0 s

/-- The form that is matched: no query or fragment, no trailing slash, and `/` for nothing. -/
def clean (s : List Char) : List Char :=
  let path := pathPart s
  if path = [] then ['/']
  else
    let shorter := Text.dropTrailingSlash path
    if shorter = [] then path else shorter

/-- The text before the first interpolation, if there is one. -/
def beforeInterpolation? : List Char → Option (List Char)
  | [] => none
  | '$' :: '{' :: _ => some []
  | c :: r => (beforeInterpolation? r).map (c :: ·)

/-- Whether the address has an interpolation. -/
def hasInterpolation (s : List Char) : Bool :=
  (beforeInterpolation? s).isSome

/-- The text before the first interpolation, less one trailing slash. -/
def literalPart? (s : List Char) : Option (List Char) :=
  (beforeInterpolation? s).map Text.dropTrailingSlash

end RouteAudit.Address
