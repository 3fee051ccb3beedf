import RouteAudit.Route.Table
import RouteAudit.Usage

/-!
# Verdicts

Every usage group gets one verdict against the table of the declared pages. An address that leaves
the application or that names a place on the same page is not looked up; `/` needs a page at the
root; every other address is valid if it resolves, and an interpolated one that does not is still
accepted if its literal part is a declared path.
-/

namespace RouteAudit

/-- What is known about a used path. -/
inductive Verdict where
  | valid
  | broken
  | external
  | special
  /-- An interpolated path whose literal part is declared. -/
  | dynamicValid
  deriving DecidableEq, Repr

namespace Verdict

/-- The word for the verdict in data. -/
def word : Verdict → String
  | valid => "valid"
  | broken => "broken"
  | external => "external"
  | special => "special"
  | dynamicValid => "dynamicValid"

/-- Whether the verdict counts as valid in the summary. -/
def isValid : Verdict → Bool
  | valid | dynamicValid => true
  | broken | external | special => false

/-- Whether the path points into the application. -/
def isInternal : Verdict → Bool
  | external | special => false
  | valid | broken | dynamicValid => true

end Verdict

/-- The beginnings of addresses that leave the application. -/
def externalStarts : List String :=
  ["http://", "https://", "//", "mailto:", "tel:"]

/-- Whether an address leaves the application. -/
def isExternal (path : String) : Bool :=
  externalStarts.any fun s => s.toList.isPrefixOf path.toList

/-- Whether an address names no route: it is empty or a place on the same page. -/
def isSpecial (path : String) : Bool :=
  path.isEmpty || path.toList.head? = some '#'

/-- Whether the literal part of an interpolated address is declared. -/
def hasBaseRoute (path : String) (pages : RouteTable) : Bool :=
  match Address.literalPart? path.toList with
  | none => false
  | some [] => pages.hasRootPage
  | some base => pages.declares (String.ofList base)

def verdictOn (path : String) (isDynamic : Bool) (pages : RouteTable) : Verdict :=
  if isExternal path then .external
  else if isSpecial path then .special
  else if path = "/" then (if pages.hasRootPage then .valid else .broken)
  else if pages.resolves path then .valid
  else if isDynamic && hasBaseRoute path pages then .dynamicValid
  else .broken

def UsageGroup.verdict (g : UsageGroup) (pages : RouteTable) : Verdict :=
  verdictOn g.path g.isDynamic pages

/-- A group with its verdict. -/
structure ClassifiedGroup where
  group : UsageGroup
  verdict : Verdict
  deriving DecidableEq, Repr

/-- All groups of an analysis with their verdicts, in the order of the groups. -/
structure Classification where
  groups : List ClassifiedGroup := []
  deriving DecidableEq, Repr

namespace Classification

def ofGroups (groups : List UsageGroup) (pages : RouteTable) : Classification :=
  ⟨groups.map fun g => ⟨g, g.verdict pages⟩⟩

def size (c : Classification) : Nat :=
  c.groups.length

/-- The groups with a verdict, in order. -/
def withVerdict (c : Classification) (v : Verdict) : List ClassifiedGroup :=
  c.groups.filter (·.verdict = v)

/-- The number of groups with a verdict. -/
def count (c : Classification) (v : Verdict) : Nat :=
  (c.withVerdict v).length

/-- The number of groups that count as valid. -/
def validCount (c : Classification) : Nat :=
  c.groups.countP (·.verdict.isValid)

/-- The groups that are interpolated, in order. -/
def dynamic (c : Classification) : List ClassifiedGroup :=
  c.groups.filter (·.group.isDynamic)

def dynamicCount (c : Classification) : Nat :=
  c.dynamic.length

/-- The paths that point into the application. -/
def internalPaths (groups : List ClassifiedGroup) : List String :=
  (groups.filter (·.verdict.isInternal)).map (·.group.path)

end Classification

end RouteAudit
