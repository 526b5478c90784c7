import RecordSchema.Decoding.Yaml
import RecordSchema.Disk
import RecordSchema.Disk.Path

/-!
# Loading documents

A document is read together with what it imports. Each document is read once, however many paths lead
to it, so imports may go in circles. What a failed load has read so far stays loaded.
-/

set_option autoImplicit false

namespace RecordSchema

/-- A document with the path it was read from. -/
structure LoadedUnit extends SourceUnit where
  path : String
deriving Inhabited

inductive LoadError where
  | unreadable (path : String) (error : DiskError)
  | malformed (path : String)
  | importNotFound (file base : String)
  /-- Imports are nested more deeply than there are files. -/
  | tooDeep (path : String)
deriving DecidableEq

/-- What is said of a text that is not a schema document. -/
def malformedDetail : String := "not a schema document"

namespace LoadError

def message : LoadError → String
  | unreadable path error => s!"failed to read {path}: {error.message}"
  | malformed path => s!"failed to parse {path}: {malformedDetail}"
  | importNotFound file base =>
    s!"import '{file}' not found relative to '{base}' or in include directories"
  | tooDeep path => s!"imports are nested too deeply at {path}"

/-- The words for a failure, followed by those for what caused it. -/
def causes (error : LoadError) : List String :=
  error.message ::
    match error with
    | unreadable _ cause => [cause.message]
    | malformed _ => [malformedDetail]
    | _ => []

end LoadError

/-- The documents loaded so far, in the order in which they were read. -/
structure Loader where
  /-- The one path of each document, with its place among the units. -/
  loaded : List (String × Nat) := []
  units : Array LoadedUnit := #[]
deriving Inhabited

namespace Loader

/-- Adds a document under its one path. -/
def register (loader : Loader) (place : String) (unit : LoadedUnit) : Loader where
  loaded := (place, loader.units.size) :: loader.loaded
  units := loader.units.push unit

/-- Makes a document one that is not only imported. -/
def markPrimary (loader : Loader) (index : Nat) : Loader :=
  { loader with units := loader.units.modify index fun unit => { unit with included := false } }

/-- The units that the loaded documents make up. -/
def sources (loader : Loader) : List SourceUnit :=
  loader.units.toList.map LoadedUnit.toSourceUnit

end Loader

/-- What loading does. The loader is kept also when it fails. -/
abbrev Loading (m : Type → Type) := ExceptT LoadError (StateT Loader m)

namespace Loading

variable {m : Type → Type} [Monad m] [MonadDisk m]

def onDisk {α : Type} (path : String) (operation : m (Except DiskError α)) : Loading m α := do
  match ← operation with
  | .ok value => pure value
  | .error error => throw (.unreadable path error)

/-- Where an imported file may be: beside the document that imports it, then in the directories to be
searched. -/
def candidates (directories : List String) (base file : String) : List String :=
  ((Path.parent? base).toList ++ directories).map fun directory => Path.join directory file

/-- The one path of the first candidate that leads anywhere. -/
def firstPlace? : List String → m (Option String)
  | [] => pure none
  | candidate :: rest => do
    match ← MonadDisk.canonicalize candidate with
    | .ok place => pure (some place)
    | .error _ => firstPlace? rest

def importPlace (directories : List String) (base file : String) : Loading m String := do
  match ← (firstPlace? (candidates directories base file) : m (Option String)) with
  | some place => pure place
  | none => throw (.importNotFound file base)

/-- Loads a document and what it imports. A document is registered before its imports are followed. -/
def loadNested (directories : List String) : Nat → String → Bool → Loading m Unit
  | 0, path, _ => throw (.tooDeep path)
  | depth + 1, path, included => do
    let place ← onDisk path (MonadDisk.canonicalize path)
    match (← get).loaded.lookup place with
    | some index => if !included then modify (·.markPrimary index)
    | none =>
      let text ← onDisk path (MonadDisk.readText path)
      match Declaration.Document.ofYamlText? text with
      | none => throw (.malformed path)
      | some document =>
        modify (·.register place { document, included, path })
        document.imports.forM fun imported => do
          loadNested directories depth (← importPlace directories path imported.file) true

/-- Loads a document that is to be emitted, and what it imports. Each document that leads to a deeper
one is a file of its own, which bounds the depth. -/
def load (directories : List String) (path : String) : Loading m Unit := do
  let bound ← (MonadDisk.fileBound : m Nat)
  loadNested directories (bound + 1) path false

end Loading

end RecordSchema
