import RecordSchema.Disk
import RecordSchema.Disk.Path

/-!
# File trees

A file system as a value: directories and files by the names that lead to them from the root.
-/

set_option autoImplicit false

namespace RecordSchema

/-- The names that lead from the root to a place. -/
abbrev Location := List String

/-- What is at a location. -/
inductive DiskEntry where
  | directory
  | file (content : ByteArray)

/-- A file system with a working directory. The root is always a directory. -/
structure FileTree where
  working : Location := []
  entries : List (Location × DiskEntry) := []

namespace FileTree

def entry? (tree : FileTree) (location : Location) : Option DiskEntry :=
  if location.isEmpty then some .directory else tree.entries.lookup location

def pathOf (location : Location) : String :=
  "/" ++ "/".intercalate location

def put (tree : FileTree) (location : Location) (entry : DiskEntry) : FileTree :=
  if (tree.entries.lookup location).isSome then
    { tree with
      entries := tree.entries.map fun old => if old.1 = location then (location, entry) else old }
  else { tree with entries := tree.entries ++ [(location, entry)] }

def wayTo (location : Location) : List Location :=
  (List.range (location.length + 1)).map fun count => location.take count

/-- Puts a directory at a location, with those that lead to it, as far as nothing is there. -/
def withDirectories (tree : FileTree) (location : Location) : FileTree :=
  (wayTo location).foldl
    (fun current directory =>
      if (current.entry? directory).isSome then current else current.put directory .directory)
    tree

/-- Puts a file at a location, with the directories that lead to it. -/
def withFile (tree : FileTree) (location : Location) (content : ByteArray) : FileTree :=
  (tree.withDirectories location.dropLast).put location (.file content)

/-- How long a name may be, in bytes. -/
def nameLimit : Nat := 255

/-- How long a path may be, in bytes. -/
def pathLimit : Nat := 4095

/-- Takes one step along a path. Only from a directory there is a way on. -/
def follow (tree : FileTree) (location : Location) (segment : String) :
    Except DiskError Location :=
  match tree.entry? location with
  | none => .error .notFound
  | some (.file _) => .error .notDirectory
  | some .directory =>
    if segment = "" || segment = "." then .ok location
    else if segment = ".." then .ok location.dropLast
    else if nameLimit < segment.utf8ByteSize then .error .nameTooLong
    else .ok (location ++ [segment])

/-- Where the last part of a path is looked for. -/
def locate (tree : FileTree) (path : String) : Except DiskError Location :=
  if path.isEmpty then .error .notFound
  else if path.toList.contains '\x00' then .error .invalidPath
  else if pathLimit < path.utf8ByteSize then .error .nameTooLong
  else
    let parts := Path.parts path
    parts.segments.foldlM tree.follow (if parts.absolute then [] else tree.working)

/-- What a path leads to, and where it is. -/
def find (tree : FileTree) (path : String) : Except DiskError (Location × DiskEntry) := do
  let location ← tree.locate path
  match tree.entry? location with
  | some entry => .ok (location, entry)
  | none => .error .notFound

def canonicalize (tree : FileTree) (path : String) : Except DiskError String :=
  (tree.find path).map fun found => pathOf found.1

def readText (tree : FileTree) (path : String) : Except DiskError String := do
  match (← tree.find path).2 with
  | .directory => .error .isDirectory
  | .file content =>
    match String.fromUTF8? content with
    | some text => .ok text
    | none => .error .notText

def isDirectory (tree : FileTree) (path : String) : Bool :=
  match tree.find path with
  | .ok (_, .directory) => true
  | _ => false

def makeDirectory (tree : FileTree) (path : String) : Except DiskError FileTree := do
  let location ← tree.locate path
  match tree.entry? location with
  | some _ => .error .alreadyExists
  | none => .ok (tree.put location .directory)

/-- A path without the slashes at its end, of which there is at least one; the root has no other
name. -/
def withoutSlashes (path : String) : Option String :=
  match path.toList.reverse with
  | '/' :: rest =>
    let stripped := (rest.dropWhile (· = '/')).reverse
    some (if stripped.isEmpty then "/" else String.ofList stripped)
  | _ => none

/-- Makes a file of a text, in place of one that is there. A slash at the end asks for a directory. -/
def writeText (tree : FileTree) (path text : String) : Except DiskError FileTree := do
  match withoutSlashes path with
  | some stripped =>
    let _ ← tree.locate stripped
    .error .isDirectory
  | none =>
    let location ← tree.locate path
    match tree.entry? location with
    | some .directory => .error .isDirectory
    | _ => .ok (tree.put location (.file text.toUTF8))

def change (operation : FileTree → Except DiskError FileTree) :
    StateM FileTree (Except DiskError Unit) := do
  match operation (← get) with
  | .ok tree =>
    set tree
    pure (.ok ())
  | .error error => pure (.error error)

instance : MonadDisk (StateM FileTree) where
  canonicalize path := do pure ((← get).canonicalize path)
  readText path := do pure ((← get).readText path)
  makeDirectory path := change (makeDirectory · path)
  isDirectory path := do pure ((← get).isDirectory path)
  writeText path text := change (writeText · path text)
  fileBound := do pure (← get).entries.length

end FileTree

end RecordSchema
