import RecordSchema.CommandLine.Execution

/-!
# The program

The command line over the file system of the machine.
-/

set_option autoImplicit false

namespace RecordSchema.Machine

/-- The number and the words with which the machine refuses an operation. -/
def refusal? : IO.Error → Option (UInt32 × String)
  | .alreadyExists _ code details
  | .interrupted _ code details
  | .noFileOrDirectory _ code details
  | .invalidArgument _ code details
  | .permissionDenied _ code details
  | .resourceExhausted _ code details
  | .inappropriateType _ code details
  | .noSuchThing _ code details
  | .otherError code details
  | .resourceBusy code details
  | .resourceVanished code details
  | .unsupportedOperation code details
  | .hardwareFault code details
  | .unsatisfiedConstraints code details
  | .illegalOperation code details
  | .protocolError code details
  | .timeExpired code details => some (code, details)
  | .unexpectedEof => none
  | .userError _ => none

/-- What a refusal of the machine means. -/
def diskError (error : IO.Error) : DiskError :=
  match refusal? error with
  | some (2, _) => .notFound
  | some (17, _) => .alreadyExists
  | some (20, _) => .notDirectory
  | some (21, _) => .isDirectory
  | some (36, _) => .nameTooLong
  | some (code, details) => .other s!"{details} (os error {code})"
  | none => .other (toString error)

def attempt {α : Type} (path : String) (operation : IO α) : IO (Except DiskError α) := do
  if path.isEmpty then return .error .notFound
  if path.toList.contains '\x00' then return .error .invalidPath
  try
    return .ok (← operation)
  catch error =>
    return .error (diskError error)

def textOfBytes (content : ByteArray) : Except DiskError String :=
  match String.fromUTF8? content with
  | some text => .ok text
  | none => .error .notText

instance : MonadDisk IO where
  canonicalize path := attempt path do
    return (← IO.FS.realPath ⟨path⟩).toString
  readText path := do
    return (← attempt path (IO.FS.readBinFile ⟨path⟩)).bind textOfBytes
  makeDirectory path := attempt path (IO.FS.createDir ⟨path⟩)
  isDirectory path := do
    match ← attempt path (IO.FS.realPath ⟨path⟩) with
    | .ok place => place.isDir
    | .error _ => return false
  writeText path text := attempt path (IO.FS.writeFile ⟨path⟩ text)
  fileBound := return 4294967296

end RecordSchema.Machine

/-- Runs the command line that the program is started with. -/
def main (arguments : List String) : IO UInt32 := do
  let outcome ← RecordSchema.CommandLine.run arguments
  IO.print outcome.output
  IO.eprint outcome.errors
  return outcome.code
