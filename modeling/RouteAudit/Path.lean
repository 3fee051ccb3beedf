import RouteAudit.Text.Split

/-!
# File paths

A file path is text whose names are separated by `/`. Two spellings of one path have the same
components: repeated slashes, a trailing slash and every `.` but a leading one add nothing, while
`..` stays. Paths are compared by their components, the root before `.`, `.` before `..`, and `..`
before every name.
-/

namespace RouteAudit

namespace Path

/-- One step of a path. -/
inductive Component where
  | root
  | here
  | up
  | name (text : String)
  deriving DecidableEq, Repr

namespace Component

/-- The component as it is written. -/
def text : Component → String
  | root => "/"
  | here => "."
  | up => ".."
  | name t => t

/-- The place of the kind of component in the order of paths. -/
def rank : Component → Nat
  | root => 0
  | here => 1
  | up => 2
  | name _ => 3

def less : Component → Component → Bool
  | name a, name b => a < b
  | a, b => a.rank < b.rank

end Component

/-- The component that a piece between slashes stands for, when it is not the first one. -/
def Component.ofPiece? (piece : List Char) : Option Component :=
  if piece = [] ∨ piece = ['.'] then none
  else if piece = ['.', '.'] then some .up
  else some (.name (String.ofList piece))

def components (path : String) : List Component :=
  match Text.split '/' path.toList with
  | [] => []
  | first :: rest =>
    let below := rest.filterMap Component.ofPiece?
    if first = [] then (if rest = [] then [] else .root :: below)
    else if first = ['.'] then .here :: below
    else (Component.ofPiece? first).toList ++ below

/-- The lexicographic strict order of component lists. -/
def componentsLess : List Component → List Component → Bool
  | _, [] => false
  | [], _ :: _ => true
  | a :: as, b :: bs => a.less b || (a == b && componentsLess as bs)

/-- Whether the first path comes before the second. -/
def less (a b : String) : Bool :=
  componentsLess (components a) (components b)

/-- The components that remain below a leading directory, if the path lies below it. -/
def below? : (dir path : List Component) → Option (List Component)
  | [], path => some path
  | _ :: _, [] => none
  | d :: ds, c :: cs => if d = c then below? ds cs else none

/-- A path of components as text. -/
def ofComponents : List Component → String
  | [] => ""
  | [c] => c.text
  | .root :: cs => "/" ++ ofComponents cs
  | c :: cs => c.text ++ "/" ++ ofComponents cs

/-- The directory that holds the path, unless the path is empty or the root. -/
def parent? (path : String) : Option String :=
  match (components path).reverse with
  | [] | [.root] => none
  | _ :: rest => some (ofComponents rest.reverse)

/-- The path of a name inside a directory. -/
def child (dir name : String) : String :=
  if dir.isEmpty || dir.toList.getLast? = some '/' then dir ++ name else dir ++ "/" ++ name

/-! ## File names -/

/-- The name and its ending, cut at the last dot; a dot in front does not start an ending. -/
def nameParts (name : String) : String × Option String :=
  match Text.splitLast? '.' name.toList with
  | some ([], _) | none => (name, none)
  | some (stem, ending) => (String.ofList stem, some (String.ofList ending))

def stem (name : String) : String :=
  (nameParts name).1

/-- The ending of a name: what follows its last dot. -/
def ending? (name : String) : Option String :=
  (nameParts name).2

/-- Two texts that differ in the case of ASCII letters only. -/
def sameLetters (a b : String) : Bool :=
  a.toList.map Char.toLower == b.toList.map Char.toLower

/-- Whether the ending of a file name is one of the allowed ones, whatever its case. -/
def hasEnding (allowed : List String) (name : String) : Bool :=
  (ending? name).any fun e => allowed.any (sameLetters e)

end Path

end RouteAudit
