import RecordSchema.Text.Blank

/-!
# Paths

Paths are texts whose parts are separated by slashes. Empty parts and single dots do not count, save
a dot at the very beginning.
-/

set_option autoImplicit false

namespace RecordSchema.Path

/-- A path split at its slashes. -/
structure Parts where
  /-- Whether the path starts at the root. -/
  absolute : Bool
  segments : List String

def parts (path : String) : Parts :=
  match (Text.splitOnChar '/' path.toList).map String.ofList with
  | "" :: first :: rest => ⟨true, first :: rest⟩
  | segments => ⟨false, segments⟩

/-- The path of some parts. -/
def Parts.render (parts : Parts) : String :=
  (if parts.absolute then "/" else "") ++ "/".intercalate parts.segments

/-- Whether a segment does not count where the given segments stand before it. A dot counts where a
relative path begins. -/
def isIdle (absolute : Bool) (segment : String) (before : List String) : Bool :=
  segment = "" || (segment = "." && (absolute || !before.isEmpty))

/-- Drops segments that do not count from the end, given in reverse. -/
def dropIdle (absolute : Bool) : List String → List String
  | [] => []
  | last :: rest => if isIdle absolute last rest then dropIdle absolute rest else last :: rest

/-- What remains when more and more segments are taken from the end, given in reverse. -/
def shortened (absolute : Bool) : List String → List String
  | [] => []
  | last :: rest =>
    if isIdle absolute last rest then shortened absolute rest
    else Parts.render ⟨absolute, (dropIdle absolute rest).reverse⟩ :: shortened absolute rest

/-- The path without its last part, without its last two, and so on. -/
def parents (path : String) : List String :=
  let parts := parts path
  shortened parts.absolute parts.segments.reverse

/-- The path without its last part, if it has one. -/
def parent? (path : String) : Option String :=
  (parents path).head?

def fileName? (path : String) : Option String :=
  let parts := parts path
  match dropIdle parts.absolute parts.segments.reverse with
  | [] => none
  | last :: _ => if last = "." || last = ".." then none else some last

/-- Whether a path starts at the root. -/
def isAbsolute (path : String) : Bool :=
  path.toList.head? = some '/'

/-- A path seen from another one. -/
def join (base path : String) : String :=
  if isAbsolute path then path
  else if base.isEmpty || base.toList.getLast? = some '/' then base ++ path
  else base ++ "/" ++ path

end RecordSchema.Path
