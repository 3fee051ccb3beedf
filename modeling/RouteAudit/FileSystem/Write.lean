import RouteAudit.FileSystem.Locate

/-!
# Writing

Directories and files are made one by one, so what was made before a fault stays.
-/

namespace RouteAudit

namespace FileSystem

/-- The file system after a change, and the fault that ended it, if any. -/
structure Changed where
  files : FileSystem
  fault : Option FileFault

def makeDir (fs : FileSystem) (path : String) : Changed :=
  match fs.locate .itself path with
  | .error fault => ⟨fs, some fault⟩
  | .ok ⟨_, some _⟩ => ⟨fs, some .alreadyExists⟩
  | .ok ⟨place, none⟩ => ⟨fs.put place (.dir []), none⟩

/-- No fault where the path names a directory after all. -/
def Changed.unlessDir (path : String) (c : Changed) : Changed :=
  if c.files.isDir path then { c with fault := none } else c

/-- Makes a directory and those above it, given the components of its path from the last to the
first. -/
def makeDirsUp (fs : FileSystem) : List Path.Component → Changed
  | [] => ⟨fs, none⟩
  | last :: above =>
    let path := Path.ofComponents (last :: above).reverse
    let made := fs.makeDir path
    match made.fault with
    | none => made
    | some .notFound =>
      let parents := makeDirsUp fs above
      match parents.fault with
      | some _ => parents
      | none => (parents.files.makeDir path).unlessDir path
    | some _ => made.unlessDir path

/-- Makes a directory and those above it; one that is already there is no fault. -/
def makeDirs (fs : FileSystem) (path : String) : Changed :=
  makeDirsUp fs (Path.components path).reverse

/-- Makes the directory that holds a path, if the path has one. -/
def makeParent (fs : FileSystem) (path : String) : Changed :=
  match Path.parent? path with
  | none => ⟨fs, none⟩
  | some parent => makeDirs fs parent

/-- Puts a file of the given bytes at a path whose directory exists. -/
def writeBytes (fs : FileSystem) (path : String) (bytes : ByteArray) : Changed :=
  match fs.locate .newFile path with
  | .error fault => ⟨fs, some fault⟩
  | .ok ⟨_, some (.dir _)⟩ => ⟨fs, some .isDirectory⟩
  | .ok ⟨place, _⟩ => ⟨fs.put place (.file bytes), none⟩

/-- Puts a text file at a path whose directory exists. -/
def writeText (fs : FileSystem) (path text : String) : Changed :=
  fs.writeBytes path text.toUTF8

/-- Puts a text file at a path and makes the directories above it. -/
def writeWithParents (fs : FileSystem) (path text : String) : Changed :=
  let parents := fs.makeParent path
  match parents.fault with
  | some _ => parents
  | none => parents.files.writeText path text

/-- Puts a symbolic link at a path that names nothing yet. -/
def addLink (fs : FileSystem) (path target : String) : Changed :=
  match fs.locate .itself path with
  | .error fault => ⟨fs, some fault⟩
  | .ok ⟨_, some _⟩ => ⟨fs, some .alreadyExists⟩
  | .ok ⟨place, none⟩ => ⟨fs.put place (.link target), none⟩

/-- Removes what a path names; a link itself, and a directory with all that it holds. -/
def remove (fs : FileSystem) (path : String) : Changed :=
  match fs.locate .itself path with
  | .error fault => ⟨fs, some fault⟩
  | .ok ⟨_, none⟩ => ⟨fs, some .notFound⟩
  | .ok ⟨place, some _⟩ => ⟨fs.drop place, none⟩

end FileSystem

end RouteAudit
