import RecordSchema.Decoding.Declarations
import RecordSchema.Json

/-!
# Documents in JSON

How JSON values are read. An object may also be written as the array of its fields in order, from
which the last ones may be missing.
-/

set_option autoImplicit false

namespace RecordSchema

namespace Json

def readIf {α : Type} (condition : Bool) (value : α) : Decoded α :=
  if condition then pure value else Decoded.refuse

/-- The fields among the given ones, unless one of these is repeated. -/
def declaredFields (names : List String) (fields : List (String × Json)) :
    Decoded (List (String × Json)) :=
  let declared := fields.filter fun field => names.contains field.1
  let found : List String := declared.map fun field => field.1
  readIf (decide found.Nodup) declared

/-- How JSON values are read. Nesting is not limited. -/
def reader : Reader Json where
  fields _ names
    | .obj fields => declaredFields names fields
    | .arr items => readIf (items.length ≤ names.length) (names.zip items)
    | _ => Decoded.refuse
  items _
    | .arr items => pure items
    | _ => Decoded.refuse
  entries _
    | .obj fields => pure fields
    | _ => Decoded.refuse
  text
    | .str text => pure text
    | _ => Decoded.refuse
  word
    | .int value => readIf (0 ≤ value && value ≤ 4294967295) value.toNat.toUInt32
    | _ => Decoded.refuse
  present
    | .null => pure none
    | value => pure (some value)

def decode {α : Type} (read : Nat → Json → Decoded α) (value : Json) : Option α :=
  ((read (value.depth + 1) value).run 0).map (·.1)

end Json

def Declaration.Document.ofJson? (value : Json) : Option Declaration.Document :=
  value.decode (Declaration.Document.read Json.reader)

end RecordSchema
