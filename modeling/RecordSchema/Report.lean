import RecordSchema.Expr.Rendering
import RecordSchema.Model.Navigation

/-!
# Reports

A report is a view of a model for other programs: what its primary units declare, with all
expressions as text and all tags written out again.
-/

set_option autoImplicit false

namespace RecordSchema

namespace Report

/-- A value of a dataset. -/
structure Entry where
  name : String
  method : String
  rank : UInt32
  tags : List String
deriving DecidableEq

/-- A dataset of a storage schema. -/
structure Dataset where
  name : String
  tags : List String
  entries : List Entry
deriving DecidableEq

/-- A storage schema of a record type. -/
structure Schema where
  name : String
  version : UInt32
  tags : List String
  datasets : List Dataset
deriving DecidableEq

structure Attribute where
  name : String
  type : String
  offset : String
  shape : List String
  accessor : Option String
deriving DecidableEq

structure Record where
  name : String
  typeId : Option UInt32
  version : Option UInt32
  size : String
  configs : List String
  tags : List String
  attributes : List Attribute
  schemas : List Schema
deriving DecidableEq

/-- A package under its dotted path. -/
structure Package where
  name : String
  records : List Record
deriving DecidableEq

end Report

structure Report where
  packages : List Report.Package
deriving DecidableEq

namespace Report

def flag (name : String) (set : Bool) : List Tag :=
  if set then [⟨name, none⟩] else []

/-- The tags that no rule has consumed. -/
def remainingTags (tags : RawTags) : List Tag :=
  tags.map fun entry => ⟨entry.1, entry.2⟩

def recordTags (record : RecordSchema.Record) : List Tag :=
  flag "value_type" record.valueType ++ flag "config_type" record.configType ++
    flag "external" record.external ++ flag "no_sizeof" record.noSizeof ++
    record.cppName.toList.map (fun name => ⟨"cpp_name", some name⟩) ++
    record.aliases.map (fun name => ⟨"alias", some name⟩) ++ remainingTags record.tags

def externalSchemaTag (header : String) : Tag :=
  ⟨"external", if header.isEmpty then none else some header⟩

def schemaTags (schema : StorageSchema) : List Tag :=
  schema.external.toList.map externalSchemaTag ++ flag "embedded" schema.embedded ++
    flag "skip_proxy" schema.skipProxy ++ flag "default" schema.isDefault ++
    remainingTags schema.tags

def datasetTags (dataset : RecordSchema.Dataset) : List Tag :=
  dataset.external.toList.map (fun header => ⟨"external", some header⟩) ++
    remainingTags dataset.tags

def dimensionText : Dimension → String
  | .bounded count => count.source
  | .unbounded => "*"

/-- The report on a value of a dataset. -/
def ofEntry (entry : DatasetEntry) : Entry where
  name := entry.name
  method := entry.method
  rank := entry.rank.toUInt32
  tags := (remainingTags entry.tags).map Tag.render

def ofDataset (dataset : RecordSchema.Dataset) : Dataset where
  name := dataset.name
  tags := (datasetTags dataset).map Tag.render
  entries := dataset.entries.map ofEntry

def ofSchema (schema : StorageSchema) : Schema where
  name := schema.name
  version := schema.version
  tags := (schemaTags schema).map Tag.render
  datasets := schema.datasets.map ofDataset

def ofAttribute (model : Model) (attr : RecordSchema.Attribute) : Attribute where
  name := attr.name
  type := model.typeRefName attr.type
  offset := attr.offset.source
  shape := attr.shape.map dimensionText
  accessor := attr.accessor.map fun method => (model.method method).name

/-- The report on a record type. -/
def ofRecord (model : Model) (id : RecordId) : Record :=
  let record := model.record id
  { name := record.name
    typeId := record.identity.map Identity.typeId
    version := record.identity.map Identity.version
    size := record.size.source
    configs := record.configs.map model.recordPath
    tags := (recordTags record).map Tag.render
    attributes := record.attributes.map fun attr => ofAttribute model (model.attr attr)
    schemas := record.schemas.map ofSchema }

/-- The record types of a package that primary units declare. -/
def recordsOf (model : Model) (id : PackageId) : List RecordId :=
  model.recordIds.filter fun record =>
    (model.record record).package = id && !(model.record record).included

def ofPackage (model : Model) (id : PackageId) : Package where
  name := model.packagePath id
  records := (recordsOf model id).map (ofRecord model)

/-- The report on a model: every package that a primary unit opens. -/
def ofModel (model : Model) : Report where
  packages :=
    (model.packageIds.filter fun id => !(model.package id).included).map (ofPackage model)

end Report

end RecordSchema
