/-!
# Disks

What the reading of documents and the writing of results need of a file system. Every operation may
fail for a reason of the file system's own.
-/

set_option autoImplicit false

namespace RecordSchema

/-- Why a file system refuses an operation. -/
inductive DiskError where
  | notFound
  | alreadyExists
  | notDirectory
  | isDirectory
  | nameTooLong
  /-- The path holds a character that no path can hold. -/
  | invalidPath
  /-- A file that should be read as text is none. -/
  | notText
  | other (message : String)
deriving DecidableEq

/-- The words for a refusal. -/
def DiskError.message : DiskError → String
  | notFound => "No such file or directory (os error 2)"
  | alreadyExists => "File exists (os error 17)"
  | notDirectory => "Not a directory (os error 20)"
  | isDirectory => "Is a directory (os error 21)"
  | nameTooLong => "File name too long (os error 36)"
  | invalidPath => "file name contained an unexpected NUL byte"
  | notText => "stream did not contain valid UTF-8"
  | other message => message

class MonadDisk (m : Type → Type) where
  /-- The one path under which a file or directory is known. -/
  canonicalize : String → m (Except DiskError String)
  readText : String → m (Except DiskError String)
  makeDirectory : String → m (Except DiskError Unit)
  isDirectory : String → m Bool
  writeText : String → String → m (Except DiskError Unit)
  /-- No more files than this can be read. -/
  fileBound : m Nat

end RecordSchema
