import RouteAudit.Analysis
import RouteAudit.CommandLine.Arguments
import RouteAudit.Console.Summary

/-!
# Running commands

A command reads and changes a file system and prints. `check` analyses the project, writes the
report and prints a summary; `init` writes a configuration with all defaults.
-/

namespace RouteAudit

/-- What a run of the program leaves behind. -/
structure Outcome where
  files : FileSystem
  exitCode : UInt8
  stdout : String
  stderr : String

namespace Outcome

/-- The numbered causes of an error; a single one has no number. -/
def causeLines : List String → List String
  | [] => []
  | [cause] => ["", "Caused by:", "    " ++ cause]
  | causes => "" :: "Caused by:" ::
      causes.zipIdx.map fun (cause, i) => "    " ++ toString i ++ ": " ++ cause

/-- The text of an error: the outermost message and then its causes. -/
def errorText : List String → String
  | [] => ""
  | message :: causes => "\n".intercalate (("Error: " ++ message) :: causeLines causes) ++ "\n"

/-- The end of a run with an error, given as the messages from the outside in. -/
def failed (files : FileSystem) (stdout : String) (chain : List String) : Outcome :=
  ⟨files, 1, stdout, errorText chain⟩

end Outcome

namespace CheckOptions

/-- The configuration with the values that the options replace. -/
def override (o : CheckOptions) (c : Config) : Config :=
  { c with
    roots := { c.roots with
      appDir := o.appDir.getD c.roots.appDir
      sourceDir := o.sourceDir.getD c.roots.sourceDir }
    report := { c.report with output := o.output.getD c.report.output } }

def loadConfig (o : CheckOptions) (fs : FileSystem) : Except ConfigError Config :=
  (fs.loadConfig (o.config.getD Config.fileName)).map o.override

end CheckOptions

namespace Command

/-- The check mark of a step that is done. -/
def tick (colours : Bool) : String :=
  Style.apply { colour := some .green } colours "✓"

/-- The line for a step that is done. -/
def stepLine (colours : Bool) (text : String) : String :=
  "  " ++ tick colours ++ " " ++ text ++ "\n"

def checkHeading (colours : Bool) : String :=
  Style.apply { colour := some .green, bold := true } colours "Checking routes..." ++ "\n\n"

def collectedLine (colours : Bool) (c : Config) (collection : Collection) : String :=
  stepLine colours (toString collection.table.size ++ " routes (" ++
    toString collection.pageCount ++ " pages) in " ++ c.roots.appDir)

def scannedLine (colours : Bool) (c : Config) (scan : Scan) : String :=
  stepLine colours (toString scan.references.length ++ " references in " ++
    toString scan.filesScanned ++ " of " ++ toString scan.candidates ++ " files under " ++
    c.roots.sourceDir)

def classifiedLine (colours : Bool) (r : Report) : String :=
  stepLine colours (toString r.summary.totalUsedRoutes ++ " distinct paths classified")

def writtenLine (colours : Bool) (output : String) : String :=
  stepLine colours ("Report written to " ++ Style.apply { colour := some .cyan } colours output)

/-- Analyses a project with a configuration, writes the report and prints a summary. -/
def runCheck (fs : FileSystem) (time : Timestamp) (colours : Bool) (c : Config) : Outcome :=
  let out := checkHeading colours
  match c.collect fs with
  | .error e => .failed fs out ("Failed to collect routes" :: e.chain)
  | .ok collection =>
    let out := out ++ collectedLine colours c collection
    match c.scan fs with
    | .error e => .failed fs out ("Failed to scan sources" :: e.chain)
    | .ok scan =>
      let report := c.analyze collection scan time
      let out := out ++ scannedLine colours c scan ++ classifiedLine colours report
      let written := c.writeReport fs report
      match written.error with
      | some e => .failed written.files out ("Failed to write report" :: e.chain)
      | none =>
        { files := written.files, exitCode := 0, stderr := ""
          stdout := out ++ writtenLine colours c.report.output ++ "\n" ++
            report.console c.report colours }

def initText (colours : Bool) : String :=
  stepLine colours Config.fileName ++
    "\nNext steps:\n  edit [roots] to point at your routing and source roots\n" ++
    "  routegraph check\n\n"

/-- Writes a configuration with all defaults, over one that is there only if `force` holds. -/
def runInit (fs : FileSystem) (colours force : Bool) : Outcome :=
  let path := Config.fileName
  if fs.isThere path && !force then
    .failed fs "" [path ++ " already exists (use --force to overwrite)"]
  else
    match Config.toText {} with
    | .error e => .failed fs "" e.chain
    | .ok text =>
      let written := fs.writeText path text
      match written.fault with
      | some fault => .failed written.files "" ["Failed to write " ++ path, fault.message]
      | none => ⟨written.files, 0, initText colours, ""⟩

/-- The name and the version of the program. -/
def versionText : String := "routegraph 0.1.0\n"

def usageText : String :=
  "Usage: routegraph <COMMAND>\n\nCommands:\n" ++
  "  check  Collect routes, scan sources, write the JSON report and print a summary\n" ++
  "  init   Write a default routegraph.toml\n\nOptions of check:\n" ++
  "  -c, --config <CONFIG>          Configuration file\n" ++
  "      --app-dir <APP_DIR>        Override the routing root\n" ++
  "      --source-dir <SOURCE_DIR>  Override the source root\n" ++
  "  -o, --output <OUTPUT>          Override the report path\n" ++
  "  -v, --verbose                  Log skipped items and verdicts\n\nOptions of init:\n" ++
  "  -f, --force                    Overwrite an existing file\n"

def run (fs : FileSystem) (time : Timestamp) (colours : Bool) : Command → Outcome
  | check options =>
    match options.loadConfig fs with
    | .error e => .failed fs "" e.chain
    | .ok c => runCheck fs time colours c
  | init force => runInit fs colours force
  | help => ⟨fs, 0, usageText, ""⟩
  | version => ⟨fs, 0, versionText, ""⟩

def runArguments (fs : FileSystem) (time : Timestamp) (colours : Bool) (args : List String) :
    Outcome :=
  match ofArguments? args with
  | some command => command.run fs time colours
  | none => ⟨fs, 2, "", usageText⟩

end Command

end RouteAudit
