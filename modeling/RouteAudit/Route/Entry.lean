import RouteAudit.Address
import RouteAudit.Path
import RouteAudit.Route.Pattern

/-!
# Declared routes

An entry is a route that a page or layout file declares. It accepts an address in one of three
ways: the cleaned address is the declared path, it fits the compiled pattern, or the literal part
of an interpolated address is the literal part of the declared path.
-/

namespace RouteAudit

/-- The two kinds of files that declare a route. -/
inductive LeafKind where
  | page
  | layout
  deriving DecidableEq, Repr

/-- A declared route. -/
structure RouteEntry where
  declaredPath : String
  /-- The file that declares the route. -/
  file : String
  kind : LeafKind
  /-- Whether the route is compiled into a pattern. -/
  hasParameters : Bool
  deriving DecidableEq, Repr

/-- How an address reaches a route. -/
inductive MatchKind where
  | direct
  | dynamic
  | structuralPrefix
  deriving DecidableEq, Repr

/-- The steps in the order in which they are tried. -/
def MatchKind.precedence : List MatchKind :=
  [.direct, .dynamic, .structuralPrefix]

/-- What a route offers beyond its declared path. -/
inductive Matcher where
  | exact
  | wildcard (pattern : RoutePattern)
  | malformed (error : MalformedPattern)
  deriving DecidableEq, Repr

namespace RouteEntry

/-- The entry for a declared path; an opening bracket anywhere makes it a route with parameters. -/
def ofPath (declaredPath file : String) (kind : LeafKind) : RouteEntry :=
  { declaredPath, file, kind, hasParameters := declaredPath.toList.contains '[' }

/-- Whether the entry is a page. -/
def isPage (e : RouteEntry) : Bool :=
  e.kind = .page

/-- Whether the entry is declared at `/`. -/
def isRoot (e : RouteEntry) : Bool :=
  e.declaredPath = "/"

/-- The text before the first opening bracket, if there is one. -/
def beforeBracket? : List Char → Option (List Char)
  | [] => none
  | c :: r => if c = '[' then some [] else (beforeBracket? r).map (c :: ·)

/-- The declared path before its first placeholder, less one trailing slash. -/
def placeholderPrefix? (declared : List Char) : Option (List Char) :=
  (beforeBracket? declared).map Text.dropTrailingSlash

/-- The literal part of the declared path, if it has a placeholder. -/
def literalPart? (e : RouteEntry) : Option String :=
  (placeholderPrefix? e.declaredPath.toList).map String.ofList

def placeholderCount (e : RouteEntry) : Nat :=
  (Text.split '/' e.declaredPath.toList).countP fun s =>
    (Segment.ofText (String.ofList s)).isPlaceholder

/-- Whether the file lies in a directory of the given name below the root. A file that is not
below the root is looked at whole. -/
def isUnder (e : RouteEntry) (root dir : String) : Bool :=
  let file := Path.components e.file
  let inside := (Path.below? (Path.components root) file).getD file
  inside.dropLast.any (·.text = dir)

/-! ## Matching -/

/-- The compiled form of the declared path. -/
def matcher (e : RouteEntry) : Matcher :=
  if e.hasParameters then
    match RoutePattern.ofDeclared e.declaredPath with
    | .ok pattern => .wildcard pattern
    | .error error => .malformed error
  else .exact

/-- The cleaned address is the declared path. -/
def hitsDirect (e : RouteEntry) (address : List Char) : Bool :=
  Address.clean address = e.declaredPath.toList

/-- The cleaned address fits the pattern. -/
def hitsDynamic (e : RouteEntry) (address : List Char) : Bool :=
  match e.matcher with
  | .wildcard pattern => pattern.accepts (Address.clean address)
  | _ => false

/-- The address is interpolated, and its literal part is that of the declared path. -/
def hitsStructural (e : RouteEntry) (address : List Char) : Bool :=
  match e.matcher with
  | .wildcard _ =>
    match Address.literalPart? address, placeholderPrefix? e.declaredPath.toList with
    | some literal, some declared => literal = declared
    | _, _ => false
  | _ => false

/-- Whether the entry accepts the address by the given step. -/
def hits (e : RouteEntry) (kind : MatchKind) (address : String) : Bool :=
  match kind with
  | .direct => e.hitsDirect address.toList
  | .dynamic => e.hitsDynamic address.toList
  | .structuralPrefix => e.hitsStructural address.toList

/-- The first step by which the entry accepts the address. -/
def accepts? (e : RouteEntry) (address : String) : Option MatchKind :=
  MatchKind.precedence.find? fun kind => e.hits kind address

end RouteEntry

end RouteAudit
