/-!
# Configuration

What an analysis is told: where to look, which files declare routes, how references are written,
and how the result is reported. Every field has a default.
-/

namespace RouteAudit

def defaultEndings : List String :=
  ["tsx", "ts", "jsx", "js"]

/-- Names of directories that hold no sources. -/
def defaultSkipDirs : List String :=
  ["node_modules", ".next", ".git", "dist", "build", "out", "coverage", "target"]

/-- The texts of which a searched file holds one. -/
def defaultMarkers : List String :=
  ["href", "router", "redirect", "navigate"]

def defaultHandle : String := "router"

/-- The methods of the handle that navigate. -/
def defaultVerbs : List String :=
  ["push", "replace", "prefetch"]

/-- The functions that navigate. -/
def defaultFunctions : List String :=
  ["redirect", "permanentRedirect", "navigate"]

def defaultElements : List String :=
  ["Link", "a"]

def defaultKeys : List String :=
  ["href"]

/-- Where to look. -/
structure RootsConfig where
  /-- The routing root, which holds the page and layout files. -/
  appDir : String := "src/app"
  /-- The root of the sources that are searched for references. -/
  sourceDir : String := "src"
  /-- Whether a missing root is an error. -/
  strict : Bool := false
  deriving DecidableEq, Repr

/-- Which files declare routes. -/
structure CollectorConfig where
  routeExtensions : List String := defaultEndings
  /-- Names of directories that are not entered; nor are those that begin with a dot. -/
  skipDirs : List String := defaultSkipDirs
  deriving DecidableEq, Repr

/-- How references are found. -/
structure ScannerConfig where
  extensions : List String := defaultEndings
  /-- Names of directories that are not entered; nor are those that begin with a dot. -/
  skipDirs : List String := defaultSkipDirs
  /-- A file without any of these texts is not searched. -/
  markers : List String := defaultMarkers
  navigationHandle : String := defaultHandle
  navigationVerbs : List String := defaultVerbs
  navigationFunctions : List String := defaultFunctions
  /-- The markup elements whose `href` is a route. -/
  linkElements : List String := defaultElements
  /-- The object keys whose value is a route. -/
  linkKeys : List String := defaultKeys
  /-- Whether files may be searched at the same time; the result is the same. -/
  parallel : Bool := true
  deriving DecidableEq, Repr

/-- How the result is reported. -/
structure ReportConfig where
  output : String := "route-report.json"
  /-- The number of broken and of unused routes that the console lists. -/
  maxListed : Nat := 20
  /-- The number of places that the console lists for a broken route. -/
  maxSites : Nat := 2
  /-- Names of segments and directories whose pages never count as unused. -/
  unusedExclusions : List String := ["not-found", "_not-found", "error", "global-error"]
  deriving DecidableEq, Repr

/-- The configuration of an analysis. -/
structure Config where
  roots : RootsConfig := {}
  collector : CollectorConfig := {}
  scanner : ScannerConfig := {}
  report : ReportConfig := {}
  deriving DecidableEq, Repr

/-- The file that is read when no other is named. -/
def Config.fileName : String := "routegraph.toml"

end RouteAudit
