import RouteAudit.CommandLine.Execute
import Std.Time.DateTime.Timestamp

/-!
# The program

The parts of the disk that a command looks at are read into a file system, the command runs on it,
and the file that it writes is put back on the disk.
-/

namespace RouteAudit.Program

/-- The tree at an entry of a directory. Links are kept apart from what they point to. -/
partial def readEntry (entry : IO.FS.DirEntry) : IO Node := do
  match (← entry.path.symlinkMetadata).type with
  | .file => return .file (← IO.FS.readBinFile entry.path)
  | .dir =>
    let entries ← entry.path.readDir
    let children ← entries.mapM fun e => return (e.fileName, ← readEntry e)
    return .dir (children.foldl (fun cs (name, node) => Node.putChild name node cs) [])
  | .symlink | .other => return .link ""

/-- The tree at a path, if there is one; a link at the path itself is followed. -/
def readPath (path : String) : IO (Option Node) := do
  try
    let real ← IO.FS.realPath path
    match (← real.metadata).type with
    | .file => return some (.file (← IO.FS.readBinFile real))
    | _ =>
      let children ← (← real.readDir).mapM fun e => return (e.fileName, ← readEntry e)
      return some (.dir (children.foldl (fun cs (name, node) => Node.putChild name node cs) []))
  catch _ => return none

/-- The place that a path names in a tree without links. -/
def placeOf (fs : FileSystem) (path : String) : List String :=
  (Path.steps path).foldl
    (fun place step =>
      if step = "." then place else if step = ".." then place.dropLast else place ++ [step])
    (fs.start path)

/-- Reads what is at a path, if anything is. -/
def load (fs : FileSystem) (path : String) : IO FileSystem := do
  match ← readPath path with
  | some node => return fs.put (placeOf fs path) node
  | none => return fs

/-- Reads what is at a path, but of a directory only that it is there. -/
def loadBare (fs : FileSystem) (path : String) : IO FileSystem := do
  if fs.isThere path then return fs
  try
    let real ← IO.FS.realPath path
    match (← real.metadata).type with
    | .dir => return fs.put (placeOf fs path) (.dir [])
    | _ => return fs.put (placeOf fs path) (.file (← IO.FS.readBinFile real))
  catch _ => return fs

/-- Reads what stands on the way to a path: files and the bare directories. -/
def loadWay (fs : FileSystem) (path : String) : IO FileSystem := do
  let components := Path.components path
  let ways := (List.range components.length).map fun i => components.take (i + 1)
  ways.foldlM (fun fs way => loadBare fs (Path.ofComponents way)) fs

/-- Reads what a command looks at. -/
def loadFor (fs : FileSystem) : Command → IO FileSystem
  | .check options => do
    let fs ← load fs (options.config.getD Config.fileName)
    match options.loadConfig fs with
    | .error _ => return fs
    | .ok c =>
      let fs ← load fs c.roots.sourceDir
      let fs ← if fs.isThere c.roots.appDir then pure fs else load fs c.roots.appDir
      loadWay fs c.report.output
  | .init _ => load fs Config.fileName
  | .help | .version => return fs

/-- The file that a command writes. -/
def writtenPath? (fs : FileSystem) : Command → Option String
  | .check options => (options.loadConfig fs).toOption.map (·.report.output)
  | .init _ => some Config.fileName
  | .help | .version => none

/-- Puts the file that a command wrote on the disk. -/
def store (files : FileSystem) (path : String) : IO Unit := do
  match files.readText path with
  | .error _ => return
  | .ok text =>
    if let some parent := Path.parent? path then
      unless parent.isEmpty do IO.FS.createDirAll parent
    IO.FS.writeFile path text

def now : IO Timestamp := do
  let nanos := (← Std.Time.Timestamp.now).toNanosecondsSinceUnixEpoch.toInt
  return ⟨nanos / 1000000000, (nanos % 1000000000).toNat⟩

def hasColours : IO Bool := do
  return (← (← IO.getStdout).isTty) && (← IO.getEnv "NO_COLOR").isNone

/-- The working directory as names from the top. -/
def workDir : IO (List String) := do
  return Path.steps (← IO.FS.realPath ".").toString

/-- Runs the program and gives its exit code. -/
def run (args : List String) : IO UInt32 := do
  let fs := FileSystem.empty (← workDir)
  let command := Command.ofArguments? args
  let fs ← match command with
    | some c => loadFor fs c
    | none => pure fs
  let outcome := Command.runArguments fs (← now) (← hasColours) args
  IO.print outcome.stdout
  IO.eprint outcome.stderr
  if outcome.exitCode = 0 then
    if let some path := command.bind (writtenPath? fs) then store outcome.files path
  return outcome.exitCode.toUInt32

end RouteAudit.Program

def main (args : List String) : IO UInt32 :=
  RouteAudit.Program.run args
