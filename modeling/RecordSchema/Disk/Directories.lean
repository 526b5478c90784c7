import RecordSchema.Disk
import RecordSchema.Disk.Path

/-!
# Making directories

A directory is made together with those it is to be in. One that is there already is as good as one
that is made.
-/

set_option autoImplicit false

namespace RecordSchema.MonadDisk

variable {m : Type → Type} [Monad m] [MonadDisk m]

/-- Makes one directory unless it is there. -/
def ensureDirectory (path : String) : m (Except DiskError Unit) := do
  match ← makeDirectory path with
  | .error .alreadyExists =>
    if ← isDirectory path then pure (.ok ()) else pure (.error .alreadyExists)
  | result => pure result

/-- Makes the first of some directories, each of which is to be in the next one. The others are made
only as far as they are missing. -/
def ensureNested : List String → m (Except DiskError Unit)
  | [] => pure (.ok ())
  | path :: outer => do
    match ← ensureDirectory path with
    | .error .notFound =>
      match ← ensureNested outer with
      | .ok () => ensureDirectory path
      | .error error => pure (.error error)
    | result => pure result

/-- Makes a directory together with those it is to be in. The root and the working directory are
always there. -/
def ensureDirectories (path : String) : m (Except DiskError Unit) :=
  ensureNested ((path :: Path.parents path).filter fun directory =>
    (Path.parent? directory).isSome)

end RecordSchema.MonadDisk
