import RouteAudit.Reference
import RouteAudit.Text.Sorted

/-!
# Usage groups

References with the same path form a group. The groups of a list of references stand in ascending
order of their paths, and each keeps its references in the order of the list.
-/

namespace RouteAudit

/-- The references that share a path. -/
structure UsageGroup where
  path : String
  /-- The path with `*` for each interpolation, if it is interpolated. -/
  cleanPath : Option String
  isDynamic : Bool
  occurrences : List Reference
  deriving DecidableEq, Repr

namespace UsageGroup

/-- The number of references in the group. -/
def usageCount (g : UsageGroup) : Nat :=
  g.occurrences.length

/-- The files of the references, each once, in ascending order. -/
def files (g : UsageGroup) : List String :=
  Text.sortedDistinct (g.occurrences.map (·.file))

/-- The group of the references with the given path. -/
def gather (references : List Reference) (path : String) : UsageGroup :=
  let occurrences := references.filter (·.path = path)
  { path, occurrences
    isDynamic := occurrences.any (·.isDynamic)
    cleanPath := (occurrences.filter (·.isDynamic)).findSome? (·.wildcardPath) }

/-- The groups of a list of references. -/
def ofReferences (references : List Reference) : List UsageGroup :=
  (Text.sortedDistinct (references.map (·.path))).map (gather references)

end UsageGroup

end RouteAudit
