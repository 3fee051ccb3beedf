import RouteAudit.Verdict

/-!
# Unused pages

A page is unused if no path that points into the application is accepted by it. Pages of an
excluded name are never reported.
-/

namespace RouteAudit

/-- Whether the page has a segment of the given name or its file lies in a directory of that name
below the routing root. -/
def RouteEntry.isCalled (e : RouteEntry) (appRoot name : String) : Bool :=
  (Text.split '/' e.declaredPath.toList).any (· = name.toList) || e.isUnder appRoot name

/-- Whether the page is left out of the search for unused pages. -/
def RouteEntry.isExcluded (e : RouteEntry) (exclusions : List String) (appRoot : String) : Bool :=
  exclusions.any fun name => e.isCalled appRoot name

/-- The pages, in order, that are not excluded and that no internal path reaches. -/
def unusedRoutes (pages : RouteTable) (groups : List ClassifiedGroup) (exclusions : List String)
    (appRoot : String) : List RouteEntry :=
  let used := Classification.internalPaths groups
  pages.entries.filter fun e =>
    e.isPage && !e.isExcluded exclusions appRoot && !used.any fun path => (e.accepts? path).isSome

end RouteAudit
