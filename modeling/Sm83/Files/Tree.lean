import Sm83.Files.Access

/-!
# File trees

A file system given by its content: files with their paths, and further directories.  A program
starts in the root of the tree.  What lies above the root is unknown; it is taken to hold
directories without entries.

## Main definitions

* `FileTree` — the content.
* `FileTree.walk` — the place to which a path leads.
* the instance of `FileAccess` for programs that read from a tree.
-/

namespace Sm83

/-- Files with their paths from the root, and further directories. -/
structure FileTree where
  files : List (List String × Array UInt8) := []
  directories : List (List String) := []

/-- A place in or above a tree: the number of levels above the root, and the names from there
on. -/
structure Place where
  above : Nat := 0
  names : List String := []
  deriving DecidableEq

/-- What is found at a place. -/
inductive FileNode where
  | file (bytes : Array UInt8)
  | directory

/-- The place of a name in the directory at a place. -/
def Place.child (p : Place) (name : String) : Place :=
  { p with names := p.names ++ [name] }

/-- The directory that holds a place. -/
def Place.parent (p : Place) : Place :=
  if p.names.isEmpty then { above := p.above + 1 } else { p with names := p.names.dropLast }

/-- The names that a path is made of.  A slash at the end asks for a directory, as a final full
stop does. -/
def pathNames (path : String) : List String :=
  (path.splitOn "/").filter (!·.isEmpty) ++ if path.endsWith "/" then ["."] else []

namespace FileTree

/-- The paths of everything in the tree. -/
def paths (t : FileTree) : List (List String) :=
  t.files.map Prod.fst ++ t.directories

/-- What is found at a place. -/
def node? (t : FileTree) (p : Place) : Option FileNode :=
  if p.above > 0 then (if p.names.isEmpty then some .directory else none)
  else
    match t.files.lookup p.names with
    | some bytes => some (.file bytes)
    | none =>
      if p.names.isEmpty || t.paths.any (p.names.isPrefixOf ·) then some .directory else none

/-- Follow names from a directory. -/
def walk (t : FileTree) (here : Place) : List String → Except FileFault FileNode
  | [] => .ok .directory
  | "." :: rest => walk t here rest
  | ".." :: rest => walk t here.parent rest
  | name :: rest =>
    if name.utf8ByteSize > 255 then .error .nameTooLong
    else
      match t.node? (here.child name) with
      | none => .error .notFound
      | some .directory => walk t (here.child name) rest
      | some (.file bytes) => if rest.isEmpty then .ok (.file bytes) else .error .notADirectory

/-- The directory to which names lead. -/
def destination (here : Place) : List String → Place
  | [] => here
  | "." :: rest => destination here rest
  | ".." :: rest => destination here.parent rest
  | name :: rest => destination (here.child name) rest

/-- Where the names of a path start. -/
def origin (path : String) : Place :=
  if path.startsWith "/" then { above := 1 } else {}

/-- What is found at a path. -/
def open? (t : FileTree) (path : String) : Except FileFault FileNode :=
  if path.toList.contains '\x00' then .error .nulInPath
  else if path.isEmpty then .error .notFound
  else if path.utf8ByteSize ≥ 4096 then .error .nameTooLong
  else t.walk (origin path) (pathNames path)

/-- The content of the file at a path. -/
def readBytes (t : FileTree) (path : String) : Except FileFault (Array UInt8) :=
  match t.open? path with
  | .ok (.file bytes) => .ok bytes
  | .ok .directory => .error .isADirectory
  | .error e => .error e

/-- Whether a path leads to a directory. -/
def isDirectory (t : FileTree) (path : String) : Bool :=
  match t.open? path with
  | .ok .directory => true
  | _ => false

/-- The names in the directory at a path. -/
def entries (t : FileTree) (path : String) : Except FileFault (List String) :=
  match t.open? path with
  | .ok .directory =>
    let place := destination (origin path) (pathNames path)
    .ok (t.paths.filterMap fun names =>
      if place.above = 0 && place.names.isPrefixOf names then
        (names.drop place.names.length).head?
      else none).eraseDups
  | .ok (.file _) => .error .notADirectory
  | .error e => .error e

end FileTree

/-- Programs that read from a given tree. -/
instance : FileAccess (ReaderM FileTree) where
  readBytes path := return (← read).readBytes path
  isDirectory path := return (← read).isDirectory path
  entries path := return (← read).entries path

end Sm83
