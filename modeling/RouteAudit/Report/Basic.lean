import RouteAudit.Issue
import RouteAudit.Timestamp
import RouteAudit.Unused

/-!
# Reports

A report lists what an analysis found: totals, broken references, unused pages, interpolated paths,
all declared and all used routes, and the issues. `Report.build` assembles it; all lists have a
fixed order, so two reports of one project differ in their time only.
-/

namespace RouteAudit

/-- The totals of a report. -/
structure Summary where
  totalAppRoutes : Nat
  totalPageRoutes : Nat
  totalUsedRoutes : Nat
  validRoutes : Nat
  brokenRoutes : Nat
  unusedRoutes : Nat
  externalRoutes : Nat
  dynamicRoutes : Nat
  specialRoutes : Nat
  deriving DecidableEq, Repr

/-- One place that refers to a broken path. -/
structure UsageSite where
  file : String
  kind : ReferenceKind
  line : Nat
  context : String
  deriving DecidableEq, Repr

/-- A used path that no page declares. -/
structure BrokenRoute where
  path : String
  cleanPath : Option String
  isDynamic : Bool
  usages : List UsageSite
  issue : String
  deriving DecidableEq, Repr

/-- A page that nothing refers to. -/
structure UnusedRoute where
  path : String
  file : String
  hasParams : Bool
  issue : String
  deriving DecidableEq, Repr

/-- A used path with interpolations. -/
structure DynamicRoute where
  path : String
  cleanPath : Option String
  usages : Nat
  deriving DecidableEq, Repr

/-- A declared route. -/
structure AppRoute where
  path : String
  file : String
  hasParams : Bool
  deriving DecidableEq, Repr

/-- A used path. -/
structure UsedRoute where
  path : String
  cleanPath : Option String
  isDynamic : Bool
  usageCount : Nat
  files : List String
  deriving DecidableEq, Repr

/-- What an analysis found. -/
structure Report where
  generatedAt : String
  summary : Summary
  brokenRoutes : List BrokenRoute
  unusedRoutes : List UnusedRoute
  dynamicRoutes : List DynamicRoute
  allAppRoutes : List AppRoute
  allUsedRoutes : List UsedRoute
  errors : List Issue
  deriving DecidableEq, Repr

/-! ## Entries of the lists -/

def BrokenRoute.note : String := "Route not found in app directory"

def UnusedRoute.note : String := "Page exists but no references found"

def UsageSite.ofReference (r : Reference) : UsageSite :=
  { file := r.file, kind := r.kind, line := r.line, context := r.context }

def BrokenRoute.ofGroup (g : UsageGroup) : BrokenRoute :=
  { path := g.path, cleanPath := g.cleanPath, isDynamic := g.isDynamic
    usages := g.occurrences.map .ofReference, issue := note }

def UnusedRoute.ofEntry (e : RouteEntry) : UnusedRoute :=
  { path := e.declaredPath, file := e.file, hasParams := e.hasParameters, issue := note }

/-- Whether the first page does not come after the second: by path, then file. -/
def UnusedRoute.le (a b : UnusedRoute) : Bool :=
  if a.path ≠ b.path then a.path < b.path else a.file ≤ b.file

def DynamicRoute.ofGroup (g : UsageGroup) : DynamicRoute :=
  { path := g.path, cleanPath := g.cleanPath, usages := g.usageCount }

def AppRoute.ofEntry (e : RouteEntry) : AppRoute :=
  { path := e.declaredPath, file := e.file, hasParams := e.hasParameters }

def UsedRoute.ofGroup (g : UsageGroup) : UsedRoute :=
  { path := g.path, cleanPath := g.cleanPath, isDynamic := g.isDynamic
    usageCount := g.usageCount, files := g.files }

def Summary.of (table : RouteTable) (classification : Classification)
    (unused : List RouteEntry) : Summary :=
  { totalAppRoutes := table.size
    totalPageRoutes := table.pageCount
    totalUsedRoutes := classification.size
    validRoutes := classification.validCount
    brokenRoutes := classification.count .broken
    unusedRoutes := unused.length
    externalRoutes := classification.count .external
    dynamicRoutes := classification.dynamicCount
    specialRoutes := classification.count .special }

def Report.build (generatedAt : Timestamp) (table : RouteTable) (classification : Classification)
    (unused : List RouteEntry) (errors : List Issue) : Report :=
  { generatedAt := generatedAt.text
    summary := Summary.of table classification unused
    brokenRoutes := (classification.withVerdict .broken).map fun c => .ofGroup c.group
    unusedRoutes := (unused.map UnusedRoute.ofEntry).mergeSort UnusedRoute.le
    dynamicRoutes := classification.dynamic.map fun c => .ofGroup c.group
    allAppRoutes := table.entries.map .ofEntry
    allUsedRoutes := classification.groups.map fun c => .ofGroup c.group
    errors := Issue.sorted errors }

end RouteAudit
