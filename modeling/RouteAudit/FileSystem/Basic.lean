import RouteAudit.Issue
import RouteAudit.Path

/-!
# Directory trees

A file system is a tree of directories with files and symbolic links, and a working directory at
which relative paths begin. The names in a directory are kept in ascending order. A place in the
tree is given by the names on the way from the top.

A name is a text; names whose bytes are no UTF-8 are left out. So are permissions and faults of the
disk: an operation fails only by its path or, where it reads a text, by the bytes.
-/

namespace RouteAudit

/-- A file, a directory with its children by their names, or a symbolic link with the path it leads to. -/
inductive Node where
  | file (bytes : ByteArray)
  | dir (children : List (String × Node))
  | link (target : String)

namespace Node

def ofText (text : String) : Node :=
  file text.toUTF8

def isDir : Node → Bool
  | dir _ => true
  | file _ | link _ => false

/-- What a directory holds; nothing for other nodes. -/
def children : Node → List (String × Node)
  | dir children => children
  | file _ | link _ => []

/-- The children with a node put at its place under a name. -/
def putChild (name : String) (node : Node) : List (String × Node) → List (String × Node)
  | [] => [(name, node)]
  | (n, child) :: rest =>
    if name < n then (name, node) :: (n, child) :: rest
    else if name = n then (name, node) :: rest
    else (n, child) :: putChild name node rest

/-- The children without the one under a name. -/
def dropChild (name : String) (children : List (String × Node)) : List (String × Node) :=
  children.filter (·.1 ≠ name)

def at? : List String → Node → Option Node
  | [], node => some node
  | name :: names, node => (node.children.lookup name).bind (at? names)

/-- The tree with a node put at a place; directories that are missing on the way are made. -/
def putAt (new : Node) : List String → Node → Node
  | [], _ => new
  | name :: names, node =>
    let child := (node.children.lookup name).getD (dir [])
    dir (putChild name (putAt new names child) node.children)

/-- The tree without the node at a place. -/
def dropAt : List String → Node → Node
  | [], _ => dir []
  | [name], node => dir (dropChild name node.children)
  | name :: names, node =>
    match node.children.lookup name with
    | some child => dir (putChild name (dropAt names child) node.children)
    | none => node

end Node

/-- A tree of files and the place where relative paths begin. -/
structure FileSystem where
  top : Node
  workDir : List String

namespace FileSystem

/-- A file system with an empty working directory. -/
def empty (workDir : List String) : FileSystem :=
  ⟨Node.putAt (.dir []) workDir (.dir []), workDir⟩

def at? (fs : FileSystem) (place : List String) : Option Node :=
  Node.at? place fs.top

/-- The file system with a node put at a place. -/
def put (fs : FileSystem) (place : List String) (node : Node) : FileSystem :=
  { fs with top := Node.putAt node place fs.top }

/-- The file system without the node at a place. -/
def drop (fs : FileSystem) (place : List String) : FileSystem :=
  { fs with top := Node.dropAt place fs.top }

end FileSystem

end RouteAudit
