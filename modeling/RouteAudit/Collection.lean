import RouteAudit.FileSystem.Walk
import RouteAudit.Config.Basic
import RouteAudit.Route.Table

/-!
# Collecting the declared routes

Below the routing root, every page and layout file declares the route that the names of its
directories spell.
-/

namespace RouteAudit

/-- The routes that a routing root declares, and the issues met on the way. -/
structure Collection where
  table : RouteTable := {}
  issues : List Issue := []
  deriving DecidableEq, Repr

namespace Collection

/-- The path that directories spell: a slash and a segment for each that adds one. -/
def declaredPath (dirs : List String) : String :=
  match dirs.filterMap fun name => (DirectoryKind.ofName name).segment? with
  | [] => "/"
  | segments => String.join (segments.map ("/" ++ ·))

/-- What a file of the given name declares. -/
def leafKind? (config : CollectorConfig) (name : String) : Option LeafKind :=
  if Path.hasEnding config.routeExtensions name then
    if Path.stem name = "page" then some .page
    else if Path.stem name = "layout" then some .layout
    else none
  else none

/-- Whether routes are looked for in directories of the given name. -/
def enters (config : CollectorConfig) (name : String) : Bool :=
  !isSkippedDir config.skipDirs name && (DirectoryKind.ofName name).isTraversed

/-- The route that a file declares. -/
def entryOf? (config : CollectorConfig) (f : FoundFile) : Option RouteEntry :=
  (leafKind? config f.name).map fun kind => .ofPath (declaredPath f.dirs) f.path kind

/-- The routes and issues of a walk. -/
def ofVisits (config : CollectorConfig) (visits : List Visit) : Collection :=
  let table : RouteTable := ⟨(visits.filterMap Visit.file?).filterMap (entryOf? config)⟩
  { table
    issues := visits.filterMap Visit.issue? ++
      table.malformed.map fun (e, error) => .malformedPattern e.file error.message }

def pageCount (c : Collection) : Nat :=
  c.table.pageCount

end Collection

/-- Collects the routes below a routing root. -/
def FileSystem.collect (fs : FileSystem) (config : CollectorConfig) (strict : Bool)
    (root : String) : Except AuditError Collection :=
  match fs.openRoot .app strict root with
  | .error e => .error e
  | .ok (.missing issue) => .ok { issues := [issue] }
  | .ok (.present children) =>
    .ok (.ofVisits config (walk root children (Collection.enters config)))

end RouteAudit
