import RecordSchema.Json.Printer
import RecordSchema.Report

/-!
# Reports as values

A report as a JSON value. What is absent or empty and need not be said is left out.
-/

set_option autoImplicit false

namespace RecordSchema.Report

def listOf {α : Type} (encode : α → Json) (items : List α) : Json :=
  .arr (items.map encode)

/-- A field that is left out if there is no value. -/
def ifSome {α : Type} (name : String) (encode : α → Json) : Option α → List (String × Json)
  | none => []
  | some value => [(name, encode value)]

/-- A field of texts that is left out if there are none. -/
def ifAny (name : String) : List String → List (String × Json)
  | [] => []
  | texts => [(name, Json.strings texts)]

/-- The value of a number below 2^32. -/
def word (value : UInt32) : Json :=
  .int value.toNat

/-- The value of a dataset's value. -/
def Entry.toJson (entry : Entry) : Json :=
  .obj ([("name", .str entry.name), ("method", .str entry.method), ("rank", word entry.rank)] ++
    ifAny "tags" entry.tags)

def Dataset.toJson (dataset : Dataset) : Json :=
  .obj (("name", .str dataset.name) :: ifAny "tags" dataset.tags ++
    [("attributes", listOf Entry.toJson dataset.entries)])

/-- The value of a storage schema. -/
def Schema.toJson (schema : Schema) : Json :=
  .obj ([("name", .str schema.name), ("version", word schema.version)] ++ ifAny "tags" schema.tags ++
    [("datasets", listOf Dataset.toJson schema.datasets)])

def Attribute.toJson (attr : Attribute) : Json :=
  .obj ([("name", .str attr.name), ("type", .str attr.type), ("offset", .str attr.offset)] ++
    ifAny "shape" attr.shape ++ ifSome "accessor" Json.str attr.accessor)

/-- The value of a record type. -/
def Record.toJson (record : Record) : Json :=
  .obj (("name", .str record.name) :: ifSome "type-id" word record.typeId ++
    ifSome "version" word record.version ++ [("size", .str record.size)] ++
    ifAny "config" record.configs ++ ifAny "tags" record.tags ++
    [("attributes", listOf Attribute.toJson record.attributes),
      ("schemas", listOf Schema.toJson record.schemas)])

def Package.toJson (package : Package) : Json :=
  .obj [("name", .str package.name), ("types", listOf Record.toJson package.records)]

def toJson (report : Report) : Json :=
  .obj [("packages", listOf Package.toJson report.packages)]

end RecordSchema.Report
