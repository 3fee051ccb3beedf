import RouteAudit.Address

/-!
# References

A reference is one place in the source text where a route is written.
-/

namespace RouteAudit

/-- The form in which a reference is written. -/
inductive ReferenceKind where
  /-- The target attribute of a markup element. -/
  | link
  /-- The argument of a navigation call. -/
  | navigation
  | template
  /-- The value of an object key. -/
  | property
  deriving DecidableEq, Repr

namespace ReferenceKind

/-- The place of the kind in the order of references. -/
def rank : ReferenceKind → Nat
  | link => 0
  | navigation => 1
  | template => 2
  | property => 3

/-- The word for the kind in data. -/
def word : ReferenceKind → String
  | link => "link"
  | navigation => "navigation"
  | template => "template"
  | property => "property"

/-- The word for the kind on the console. -/
def title : ReferenceKind → String
  | link => "Link"
  | navigation => "Navigation"
  | template => "Template"
  | property => "Property"

def all : List ReferenceKind :=
  [link, navigation, template, property]

/-- The kind that a word stands for. -/
def ofWord? (w : String) : Option ReferenceKind :=
  all.find? (·.word = w)

theorem ofWord?_word (k : ReferenceKind) : ofWord? k.word = some k := by
  cases k <;> rfl

end ReferenceKind

/-- A reference to a route. -/
structure Reference where
  /-- The address as it is written. -/
  raw : String
  /-- The address without query and fragment. -/
  path : String
  kind : ReferenceKind
  file : String
  /-- The number of the line, from one. -/
  line : Nat
  /-- The line of the file, trimmed. -/
  context : String
  isDynamic : Bool
  /-- The path with `*` for each interpolation, if it has one. -/
  wildcardPath : Option String
  deriving DecidableEq, Repr

/-- The reference for an address found in a file. -/
def Reference.ofRaw (raw : String) (kind : ReferenceKind) (file : String) (line : Nat)
    (context : String) : Reference :=
  let path := Address.pathPart raw.toList
  let isDynamic := Address.hasInterpolation path
  { raw, kind, file, line, context, isDynamic
    path := String.ofList path
    wildcardPath := if isDynamic then some (String.ofList (Address.wildcard path)) else none }

end RouteAudit
