import RouteAudit.FileSystem.Locate

/-!
# Walking a directory tree

A walk lists the files below a root directory in the order of their names, a directory at the place
of its name. Directories whose name is turned down are not entered, and symbolic links are passed
over. A directory whose path is too long cannot be opened and gives a fault. There is no other fault
of a walk, as directory trees have no permissions and no faults of the disk.
-/

namespace RouteAudit

/-- A file that a walk comes to: its path, the names of the directories between the root and it, its
own name, and its bytes. -/
structure FoundFile where
  path : String
  dirs : List String
  name : String
  bytes : ByteArray

/-- What a walk comes to: a file, or a directory that cannot be opened because its path is too long. -/
inductive Visit where
  | file (f : FoundFile)
  | fault (path : String)

namespace Visit

def file? : Visit → Option FoundFile
  | file f => some f
  | fault _ => none

/-- The issue for a directory that cannot be opened. -/
def issue? : Visit → Option Issue
  | file _ => none
  | fault path => some (.walkError path .nameTooLong)

end Visit

namespace Node

mutual

/-- What a walk comes to at a node with the given path, the names of the directories above it and
its own name. -/
def visits (enter : String → Bool) (path : String) (dirs : List String) (name : String) :
    Node → List Visit
  | file bytes => [.file ⟨path, dirs, name, bytes⟩]
  | link _ => []
  | dir children =>
    if !enter name then []
    else if Path.maxBytes < path.utf8ByteSize then [.fault path]
    else visitsBelow enter path (dirs ++ [name]) children

/-- What a walk comes to in a directory with the given path, where `dirs` are the names of the
directories from the root down to it. -/
def visitsBelow (enter : String → Bool) (path : String) (dirs : List String) :
    List (String × Node) → List Visit
  | [] => []
  | (name, node) :: rest =>
    visits enter (Path.child path name) dirs name node ++ visitsBelow enter path dirs rest

end

end Node

/-- What a walk from a root with the given children comes to. -/
def walk (root : String) (children : List (String × Node)) (enter : String → Bool) : List Visit :=
  Node.visitsBelow enter root [] children

/-- Whether a directory is never entered: its name begins with a dot or is to be skipped. -/
def isSkippedDir (skipDirs : List String) (name : String) : Bool :=
  (name.toList.head? = some '.' && name ≠ ".") || skipDirs.contains name

/-! ## Roots -/

/-- A root of a walk: its children, or the issue that it does not exist. -/
inductive RootState where
  | present (children : List (String × Node))
  | missing (issue : Issue)

/-- Looks at a configured root. One that does not exist is an issue, or an error if `strict` holds;
one that is no directory or cannot be reached is an error. -/
def FileSystem.openRoot (fs : FileSystem) (role : RootRole) (strict : Bool) (path : String) :
    Except AuditError RootState :=
  match fs.stat path with
  | .ok (.dir children) => .ok (.present children)
  | .ok _ => .error (.rootUnreachable role path (.other "not a directory"))
  | .error .notFound =>
    if strict then .error (.missingRoot role path) else .ok (.missing (.missingRoot role path))
  | .error fault => .error (.rootUnreachable role path fault)

end RouteAudit
