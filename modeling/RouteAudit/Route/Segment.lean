/-!
# Segments and directory names

A declared route is a path whose segments are fixed text or placeholders `[token]`. The name of a
directory decides what the directory adds to the routes below it.
-/

namespace RouteAudit

/-- One segment of a declared route. -/
inductive Segment where
  | fixed (text : String)
  | placeholder (token : String)
  | malformed (text : String)
  deriving DecidableEq, Repr

namespace Segment

/-- The text between an opening bracket at the start and a closing one at the end. -/
def bracketed? : List Char → Option (List Char)
  | '[' :: r => if r.getLast? = some ']' then some r.dropLast else none
  | _ => none

def isBracket (c : Char) : Bool :=
  c = '[' || c = ']'

/-- What stands between the brackets of a placeholder: some text without brackets or slashes. -/
def isToken (s : List Char) : Bool :=
  s ≠ [] && s.all fun c => !isBracket c && c ≠ '/'

/-- Reads a segment; brackets that do not form one placeholder make it malformed. -/
def ofText (text : String) : Segment :=
  match bracketed? text.toList with
  | some token => if isToken token then placeholder (String.ofList token) else malformed text
  | none => if text.toList.any isBracket then malformed text else fixed text

/-- Whether the segment stands for any one name. -/
def isPlaceholder : Segment → Bool
  | placeholder _ => true
  | _ => false

end Segment

/-- What a directory is for the routes below it. -/
inductive DirectoryKind where
  /-- `(name)` groups files and adds nothing to the path. -/
  | group
  /-- `_not-found` adds nothing to the path. -/
  | notFound
  /-- `_name` keeps its files out of the routes. -/
  | hidden
  | dynamic (name : String)
  | fixed (name : String)
  deriving DecidableEq, Repr

namespace DirectoryKind

/-- The name of the directory for pages that are not found. -/
def notFoundName : String := "_not-found"

/-- A name in parentheses with something between them. -/
def isGroupName : List Char → Bool
  | '(' :: c :: r => (c :: r).getLast? = some ')' && r ≠ []
  | _ => false

/-- The kind of a directory, read off its name. -/
def ofName (name : String) : DirectoryKind :=
  if isGroupName name.toList then group
  else if name = notFoundName then notFound
  else if name.toList.head? = some '_' then hidden
  else if (Segment.ofText name).isPlaceholder then dynamic name
  else fixed name

/-- The segment that the directory adds, if any. -/
def segment? : DirectoryKind → Option String
  | dynamic name | fixed name => some name
  | group | notFound | hidden => none

/-- Whether routes are looked for inside the directory. -/
def isTraversed (d : DirectoryKind) : Bool :=
  d ≠ hidden

end DirectoryKind

end RouteAudit
