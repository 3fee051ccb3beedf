import RouteAudit.Collection
import RouteAudit.Config.Toml
import RouteAudit.FileSystem.Write
import RouteAudit.Report.Json
import RouteAudit.Scan

/-!
# Analyses

An analysis collects the declared routes, scans the sources for references, and compares the two
in a report. Writing the report is a step of its own.
-/

namespace RouteAudit

/-! ## The configuration file -/

/-- Why a configuration cannot be had or kept. -/
inductive ConfigError where
  | unreadable (path : String) (fault : FileFault)
  | malformed (path : String)
  | unwritable
  deriving DecidableEq, Repr

namespace ConfigError

def message : ConfigError → String
  | unreadable path _ => "Failed to read config file: " ++ Text.quoted path
  | malformed path => "Failed to parse config file: " ++ Text.quoted path
  | unwritable => "Failed to serialize configuration"

/-- The error and its cause, from the outside in. -/
def chain (e : ConfigError) : List String :=
  match e with
  | unreadable _ fault => [e.message, fault.message]
  | malformed _ => [e.message, "TOML parse error"]
  | unwritable => [e.message]

end ConfigError

/-- The configuration in a file; the defaults if there is no such file. -/
def FileSystem.loadConfig (fs : FileSystem) (path : String) : Except ConfigError Config :=
  if fs.isThere path then
    match fs.readText path with
    | .error fault => .error (.unreadable path fault)
    | .ok text =>
      match Config.ofText? text with
      | some config => .ok config
      | none => .error (.malformed path)
  else .ok {}

/-- The configuration as the text of a file. -/
def Config.toText (c : Config) : Except ConfigError String :=
  match c.toText? with
  | some text => .ok text
  | none => .error .unwritable

/-! ## The steps of an analysis -/

namespace Config

/-- Collects the routes below the configured routing root. -/
def collect (c : Config) (fs : FileSystem) : Except AuditError Collection :=
  fs.collect c.collector c.roots.strict c.roots.appDir

/-- Scans the files below the configured source root. -/
def scan (c : Config) (fs : FileSystem) : Except AuditError Scan :=
  fs.scan c.scanner c.roots.strict c.roots.sourceDir

/-- The report on a collection and a scan. -/
def analyze (c : Config) (collection : Collection) (scan : Scan) (time : Timestamp) : Report :=
  let pages := collection.table.pages
  let classification := Classification.ofGroups (UsageGroup.ofReferences scan.references) pages
  let unused := unusedRoutes pages classification.groups c.report.unusedExclusions c.roots.appDir
  Report.build time collection.table classification unused (collection.issues ++ scan.issues)

def run (c : Config) (fs : FileSystem) (time : Timestamp) : Except AuditError Report :=
  match c.collect fs with
  | .error e => .error e
  | .ok collection =>
    match c.scan fs with
    | .error e => .error e
    | .ok scan => .ok (c.analyze collection scan time)

end Config

/-- The file system after a report was written, and the error that kept it from being written. -/
structure WrittenReport where
  files : FileSystem
  error : Option AuditError

/-- Writes a report to the configured file. -/
def Config.writeReport (c : Config) (fs : FileSystem) (r : Report) : WrittenReport :=
  let written := fs.writeWithParents c.report.output r.toText
  ⟨written.files, written.fault.map (.report c.report.output)⟩

end RouteAudit
