import RouteAudit.Text.Quoted

/-!
# Errors and issues

An error says what could not be done and, for files, why. Errors about one item of an analysis are
kept as issues of the report, and the analysis goes on without the item.
-/

namespace RouteAudit

/-- Why the file system refused something. -/
inductive FileFault where
  | notFound
  | alreadyExists
  | notDirectory
  | isDirectory
  | nameTooLong
  | tooManyLinks
  | nulByte
  | notUtf8
  /-- A fault that has only its words. -/
  | other (text : String)
  deriving DecidableEq, Repr

/-- The fault in words; those of the system carry its number. -/
def FileFault.message : FileFault → String
  | notFound => "No such file or directory (os error 2)"
  | alreadyExists => "File exists (os error 17)"
  | notDirectory => "Not a directory (os error 20)"
  | isDirectory => "Is a directory (os error 21)"
  | nameTooLong => "File name too long (os error 36)"
  | tooManyLinks => "Too many levels of symbolic links (os error 40)"
  | nulByte => "file name contained an unexpected NUL byte"
  | notUtf8 => "stream did not contain valid UTF-8"
  | other text => text

/-- The two configured roots. -/
inductive RootRole where
  | app
  | source
  deriving DecidableEq, Repr

/-- The name of the root in messages. -/
def RootRole.title : RootRole → String
  | app => "routing root"
  | source => "source root"

/-- What can go wrong in an analysis. A form of references that is refused for its size and a report that
cannot be printed are left out. -/
inductive AuditError where
  | missingRoot (role : RootRole) (path : String)
  | rootUnreachable (role : RootRole) (path : String) (cause : FileFault)
  | unreadableFile (path : String) (cause : FileFault)
  | malformedPattern (path : String) (reason : String)
  | report (path : String) (cause : FileFault)
  deriving DecidableEq, Repr

namespace AuditError

def message : AuditError → String
  | missingRoot role path => role.title ++ " does not exist: " ++ Text.quoted path
  | rootUnreachable role path _ => role.title ++ " is not readable: " ++ Text.quoted path
  | unreadableFile path _ => "failed to read " ++ Text.quoted path
  | malformedPattern path reason =>
    "malformed route pattern in " ++ Text.quoted path ++ ": " ++ reason
  | report path _ => "failed to write report to " ++ Text.quoted path

/-- The cause of the error in words, if it has one. -/
def cause? : AuditError → Option String
  | rootUnreachable _ _ cause | unreadableFile _ cause | report _ cause => some cause.message
  | missingRoot _ _ | malformedPattern _ _ => none

/-- The error and its cause, from the outside in. -/
def chain (e : AuditError) : List String :=
  e.message :: e.cause?.toList

/-- The error and its cause in one line. -/
def fullMessage (e : AuditError) : String :=
  ": ".intercalate e.chain

end AuditError

/-- The kinds of issues. -/
inductive IssueKind where
  | missingRoot
  | unreadableFile
  | malformedPattern
  | walkError
  deriving DecidableEq, Repr

namespace IssueKind

/-- The place of the kind in the order of issues. -/
def rank : IssueKind → Nat
  | missingRoot => 0
  | unreadableFile => 1
  | malformedPattern => 2
  | walkError => 3

/-- The word for the kind in data. -/
def word : IssueKind → String
  | missingRoot => "missingRoot"
  | unreadableFile => "unreadableFile"
  | malformedPattern => "malformedPattern"
  | walkError => "walkError"

def all : List IssueKind :=
  [missingRoot, unreadableFile, malformedPattern, walkError]

/-- The kind that a word stands for. -/
def ofWord? (w : String) : Option IssueKind :=
  all.find? (·.word = w)

theorem ofWord?_word (k : IssueKind) : ofWord? k.word = some k := by
  cases k <;> rfl

end IssueKind

/-- An item that was left out of an analysis, and why. -/
structure Issue where
  kind : IssueKind
  path : String
  message : String
  deriving DecidableEq, Repr

namespace Issue

/-- The issue for a root that does not exist. -/
def missingRoot (role : RootRole) (path : String) : Issue :=
  ⟨.missingRoot, path, (AuditError.missingRoot role path).fullMessage⟩

/-- The issue for a file that cannot be read. -/
def unreadableFile (path : String) (cause : FileFault) : Issue :=
  ⟨.unreadableFile, path, (AuditError.unreadableFile path cause).fullMessage⟩

/-- The issue for a route whose pattern does not compile. -/
def malformedPattern (path reason : String) : Issue :=
  ⟨.malformedPattern, path, (AuditError.malformedPattern path reason).fullMessage⟩

/-- The issue for a directory that cannot be opened. -/
def walkError (path : String) (cause : FileFault) : Issue :=
  ⟨.walkError, path, "IO error for operation on " ++ path ++ ": " ++ cause.message⟩

/-- The issue for an error about one item; other errors end the analysis. -/
def ofError? : AuditError → Option Issue
  | .missingRoot role path => some (missingRoot role path)
  | .unreadableFile path cause => some (unreadableFile path cause)
  | .malformedPattern path reason => some (malformedPattern path reason)
  | .rootUnreachable .. | .report .. => none

/-- Whether the first issue does not come after the second: by kind, then path, then message. -/
def le (a b : Issue) : Bool :=
  if a.kind ≠ b.kind then a.kind.rank < b.kind.rank
  else if a.path ≠ b.path then a.path < b.path
  else a.message ≤ b.message

def sorted (issues : List Issue) : List Issue :=
  issues.mergeSort le

end Issue

end RouteAudit
