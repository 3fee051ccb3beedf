import RouteAudit.FileSystem.Basic

/-!
# Finding what a path names

A path is followed name by name. A symbolic link on the way is replaced by its target, at most 40
times; one at the end is followed or taken as it is. A path may have at most 4095 bytes, and a
name at most 255.
-/

namespace RouteAudit

namespace Path

/-- The greatest number of bytes of a path. -/
def maxBytes : Nat := 4095

/-- The greatest number of bytes of a name. -/
def maxNameBytes : Nat := 255

def isAbsolute (path : String) : Bool :=
  path.toList.head? = some '/'

def hasTrailingSlash (path : String) : Bool :=
  path.toList.getLast? = some '/'

def steps (path : String) : List String :=
  ((Text.split '/' path.toList).filter (· ≠ [])).map String.ofList

/-- The names to follow; a trailing slash is an empty name at the end. -/
def route (path : String) : List String :=
  if hasTrailingSlash path then steps path ++ [""] else steps path

end Path

namespace FileSystem

/-- What a path is followed for. -/
inductive Aim where
  /-- What stands at the path itself, be it a link. -/
  | itself
  | target
  /-- A file to be put where the path leads; a trailing slash can only mean a directory. -/
  | newFile
  deriving DecidableEq

/-- What a path names: a place, and the node there unless only its directory exists. -/
structure Found where
  place : List String
  node : Option Node

def start (fs : FileSystem) (path : String) : List String :=
  if Path.isAbsolute path then [] else fs.workDir

/-- Follows names from a directory. `jump` goes on with a link: from the directory of the link, with
the names of its target and those that are left. -/
def follow (fs : FileSystem) (aim : Aim)
    (jump : List String → List String → Except FileFault Found) (here : List String) :
    List String → Except FileFault Found
  | [] => .ok ⟨here, fs.at? here⟩
  | name :: rest =>
    if name = "." ∨ name = "" then follow fs aim jump here rest
    else if aim = .newFile ∧ rest = [""] then .error .isDirectory
    else if name = ".." then follow fs aim jump here.dropLast rest
    else if Path.maxNameBytes < name.utf8ByteSize then .error .nameTooLong
    else
      match fs.at? (here ++ [name]) with
      | none => if rest = [] then .ok ⟨here ++ [name], none⟩ else .error .notFound
      | some (.dir _) => follow fs aim jump (here ++ [name]) rest
      | some (.file bytes) =>
        if rest = [] then .ok ⟨here ++ [name], some (.file bytes)⟩ else .error .notDirectory
      | some (.link target) =>
        if rest = [] ∧ aim = .itself then .ok ⟨here ++ [name], some (.link target)⟩
        else jump (if Path.isAbsolute target then [] else here) (Path.route target ++ rest)

/-- The greatest number of links that are followed on one path. -/
def maxLinks : Nat := 40

/-- Follows names from a directory, with at most so many links. -/
def walkLinks (fs : FileSystem) (aim : Aim) :
    Nat → List String → List String → Except FileFault Found
  | 0 => follow fs aim fun _ _ => .error .tooManyLinks
  | n + 1 => follow fs aim (walkLinks fs aim n)

/-- What a path may be refused for before it is followed. -/
def pathFault? (path : String) : Option FileFault :=
  if path.toList.contains '\x00' then some .nulByte
  else if path.isEmpty then some .notFound
  else if Path.maxBytes < path.utf8ByteSize then some .nameTooLong
  else none

def locate (fs : FileSystem) (aim : Aim) (path : String) : Except FileFault Found :=
  match pathFault? path with
  | some fault => .error fault
  | none => walkLinks fs aim maxLinks (fs.start path) (Path.route path)

/-- The node that a path names, with links followed. -/
def stat (fs : FileSystem) (path : String) : Except FileFault Node :=
  match fs.locate .target path with
  | .error fault => .error fault
  | .ok ⟨_, none⟩ => .error .notFound
  | .ok ⟨_, some node⟩ => .ok node

def isThere (fs : FileSystem) (path : String) : Bool :=
  (fs.stat path).isOk

def isDir (fs : FileSystem) (path : String) : Bool :=
  match fs.stat path with
  | .ok node => node.isDir
  | .error _ => false

def textOf (bytes : ByteArray) : Except FileFault String :=
  match String.fromUTF8? bytes with
  | some text => .ok text
  | none => .error .notUtf8

/-- The text of the file that a path names. -/
def readText (fs : FileSystem) (path : String) : Except FileFault String :=
  match fs.stat path with
  | .error fault => .error fault
  | .ok (.file bytes) => textOf bytes
  | .ok (.dir _) => .error .isDirectory
  | .ok (.link _) => .error .notFound

end FileSystem

end RouteAudit
