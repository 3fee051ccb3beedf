import RouteAudit.Config.Basic
import RouteAudit.Toml.Parser
import RouteAudit.Toml.Printer

/-!
# The configuration as TOML

A configuration is a document with four tables. In reading, a field or table that is missing has
its default, other keys are passed over, and a table may also be given as the array of its first
fields. Writing names every field.
-/

namespace RouteAudit

namespace Toml

/-- The value of a field of a table whose fields are named in order, if it is given. A date counts
as a table without fields. The outer `none` means that the value is no table. -/
def field? (fields : List String) (name : String) : Toml → Option (Option Toml)
  | table entries => some (entries.lookup name)
  | array items => some ((fields.zip items).lookup name)
  | moment _ => some none
  | string _ | integer _ | float _ | boolean _ => none

/-- The value of a field, or its default if it is not given. -/
def fieldOr {α : Type} (fields : List String) (name : String) (default : α) (read : Toml → Option α)
    (t : Toml) : Option α :=
  match field? fields name t with
  | none => none
  | some none => some default
  | some (some v) => read v

end Toml

namespace RootsConfig

def fieldNames : List String := ["app_dir", "source_dir", "strict"]

def ofToml? (t : Toml) : Option RootsConfig := do
  let d : RootsConfig := {}
  return {
    appDir := ← t.fieldOr fieldNames "app_dir" d.appDir Toml.string?
    sourceDir := ← t.fieldOr fieldNames "source_dir" d.sourceDir Toml.string?
    strict := ← t.fieldOr fieldNames "strict" d.strict Toml.boolean? }

def toSection (c : RootsConfig) : Toml.Section :=
  { name := "roots"
    fields := [("app_dir", .string c.appDir), ("source_dir", .string c.sourceDir),
      ("strict", .flag c.strict)] }

end RootsConfig

namespace CollectorConfig

def fieldNames : List String := ["route_extensions", "skip_dirs"]

/-- The rules for route files that a table gives. -/
def ofToml? (t : Toml) : Option CollectorConfig := do
  let d : CollectorConfig := {}
  return {
    routeExtensions := ← t.fieldOr fieldNames "route_extensions" d.routeExtensions Toml.strings?
    skipDirs := ← t.fieldOr fieldNames "skip_dirs" d.skipDirs Toml.strings? }

/-- The table of the rules for route files. -/
def toSection (c : CollectorConfig) : Toml.Section :=
  { name := "collector"
    fields := [("route_extensions", .strings c.routeExtensions),
      ("skip_dirs", .strings c.skipDirs)] }

end CollectorConfig

namespace ScannerConfig

def fieldNames : List String :=
  ["extensions", "skip_dirs", "markers", "navigation_handle", "navigation_verbs",
    "navigation_functions", "link_elements", "link_keys", "parallel"]

/-- The rules for references that a table gives. -/
def ofToml? (t : Toml) : Option ScannerConfig := do
  let d : ScannerConfig := {}
  let words name default := t.fieldOr fieldNames name default Toml.strings?
  return {
    extensions := ← words "extensions" d.extensions
    skipDirs := ← words "skip_dirs" d.skipDirs
    markers := ← words "markers" d.markers
    navigationHandle := ← t.fieldOr fieldNames "navigation_handle" d.navigationHandle Toml.string?
    navigationVerbs := ← words "navigation_verbs" d.navigationVerbs
    navigationFunctions := ← words "navigation_functions" d.navigationFunctions
    linkElements := ← words "link_elements" d.linkElements
    linkKeys := ← words "link_keys" d.linkKeys
    parallel := ← t.fieldOr fieldNames "parallel" d.parallel Toml.boolean? }

def toSection (c : ScannerConfig) : Toml.Section :=
  { name := "scanner"
    fields := [("extensions", .strings c.extensions), ("skip_dirs", .strings c.skipDirs),
      ("markers", .strings c.markers), ("navigation_handle", .string c.navigationHandle),
      ("navigation_verbs", .strings c.navigationVerbs),
      ("navigation_functions", .strings c.navigationFunctions),
      ("link_elements", .strings c.linkElements), ("link_keys", .strings c.linkKeys),
      ("parallel", .flag c.parallel)] }

end ScannerConfig

namespace ReportConfig

def fieldNames : List String := ["output", "max_listed", "max_sites", "unused_exclusions"]

/-- The rules for the report that a table gives. -/
def ofToml? (t : Toml) : Option ReportConfig := do
  let d : ReportConfig := {}
  return {
    output := ← t.fieldOr fieldNames "output" d.output Toml.string?
    maxListed := ← t.fieldOr fieldNames "max_listed" d.maxListed Toml.count?
    maxSites := ← t.fieldOr fieldNames "max_sites" d.maxSites Toml.count?
    unusedExclusions :=
      ← t.fieldOr fieldNames "unused_exclusions" d.unusedExclusions Toml.strings? }

/-- The table of the rules for the report. -/
def toSection (c : ReportConfig) : Toml.Section :=
  { name := "report"
    fields := [("output", .string c.output), ("max_listed", .count c.maxListed),
      ("max_sites", .count c.maxSites), ("unused_exclusions", .strings c.unusedExclusions)] }

end ReportConfig

namespace Config

def tableNames : List String := ["roots", "collector", "scanner", "report"]

def ofToml? (t : Toml) : Option Config := do
  return {
    roots := ← t.fieldOr tableNames "roots" {} RootsConfig.ofToml?
    collector := ← t.fieldOr tableNames "collector" {} CollectorConfig.ofToml?
    scanner := ← t.fieldOr tableNames "scanner" {} ScannerConfig.ofToml?
    report := ← t.fieldOr tableNames "report" {} ReportConfig.ofToml? }

/-- The configuration that the text of a file gives; a blank text gives the defaults. -/
def ofText? (text : String) : Option Config :=
  if Text.trim text.toList = [] then some {} else (Toml.parse? text).bind ofToml?

def toSections (c : Config) : List Toml.Section :=
  [c.roots.toSection, c.collector.toSection, c.scanner.toSection, c.report.toSection]

/-- The configuration as the text of a file, if its numbers can be written. -/
def toText? (c : Config) : Option String :=
  Toml.render? c.toSections

end Config

end RouteAudit
