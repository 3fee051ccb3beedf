import RouteAudit.FileSystem.Walk
import RouteAudit.Grammar.Forms

/-!
# Scanning the sources

Below the source root, every file with an allowed ending is read. Its references are extracted if
one of the markers occurs in it; a file that cannot be read is an issue.
-/

namespace RouteAudit

/-- The references that a source root holds, and the issues met on the way. -/
structure Scan where
  references : List Reference := []
  issues : List Issue := []
  /-- The number of files with an allowed ending. -/
  candidates : Nat := 0
  /-- The number of files whose references were extracted. -/
  filesScanned : Nat := 0
  deriving DecidableEq, Repr

/-- What one file gives. -/
inductive FileScan where
  | noMarker
  | extracted (references : List Reference)
  | unreadable (issue : Issue)
  deriving DecidableEq, Repr

namespace FileScan

def references : FileScan → List Reference
  | extracted references => references
  | noMarker | unreadable _ => []

def issue? : FileScan → Option Issue
  | unreadable issue => some issue
  | noMarker | extracted _ => none

def isExtracted : FileScan → Bool
  | extracted _ => true
  | noMarker | unreadable _ => false

end FileScan

namespace Scan

/-- Whether one of the markers occurs in a text. -/
def hasMarker (markers : List String) (content : String) : Bool :=
  markers.any fun m => Text.occurs m.toList content.toList

/-- The text of a file, unless its path is too long or its bytes are no text. -/
def contentOf (f : FoundFile) : Except FileFault String :=
  if Path.maxBytes < f.path.utf8ByteSize then .error .nameTooLong
  else FileSystem.textOf f.bytes

def scanFile (config : ScannerConfig) (forms : List Form) (f : FoundFile) : FileScan :=
  match contentOf f with
  | .error fault => .unreadable (.unreadableFile f.path fault)
  | .ok content =>
    if hasMarker config.markers content then .extracted (extractReferences forms content f.path)
    else .noMarker

/-- Whether the first reference does not come after the second: by file, then line, then kind. -/
def referenceLe (a b : Reference) : Bool :=
  if Path.less a.file b.file then true
  else if Path.less b.file a.file then false
  else if a.line ≠ b.line then a.line < b.line
  else a.kind.rank ≤ b.kind.rank

/-- The files of a walk that are scanned. -/
def candidateFiles (config : ScannerConfig) (visits : List Visit) : List FoundFile :=
  (visits.filterMap Visit.file?).filter fun f => Path.hasEnding config.extensions f.name

/-- The references and issues of a walk. -/
def ofVisits (config : ScannerConfig) (visits : List Visit) : Scan :=
  let files := candidateFiles config visits
  let scans := files.map (scanFile config (Form.ofConfig config))
  { references := (scans.flatMap FileScan.references).mergeSort referenceLe
    issues := visits.filterMap Visit.issue? ++ scans.filterMap FileScan.issue?
    candidates := files.length
    filesScanned := scans.countP FileScan.isExtracted }

end Scan

/-- Scans the files below a source root. Whether the files are searched at the same time or one after the
other, what they give is put together in the order of the walk; so `ScannerConfig.parallel` is not read. -/
def FileSystem.scan (fs : FileSystem) (config : ScannerConfig) (strict : Bool) (root : String) :
    Except AuditError Scan :=
  match fs.openRoot .source strict root with
  | .error e => .error e
  | .ok (.missing issue) => .ok { issues := [issue] }
  | .ok (.present children) =>
    .ok (.ofVisits config (walk root children fun name => !isSkippedDir config.skipDirs name))

end RouteAudit
