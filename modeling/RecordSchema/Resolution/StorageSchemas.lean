import RecordSchema.Resolution.Attributes

/-!
# Storage schemas

The versions of the stored form of a record type. A type that declares none has a default one, which
stores every attribute under the name of its accessor.
-/

set_option autoImplicit false

namespace RecordSchema.Resolution

def defaultSchemaName : String := "default"

def defaultDatasetName : String := "data"

/-- The entry that stores an attribute under the name of its accessor. -/
def attributeEntry (model : Model) (id : AttributeId) : DatasetEntry :=
  let accessor := model.accessorName (model.attr id)
  ⟨accessor, accessor, (model.attr id).rank, [], .attr id⟩

/-- The dataset that holds the attributes of a type itself. -/
def defaultDatasets (model : Model) (owner : RecordId) : List Dataset :=
  [{ name := defaultDatasetName
     entries := (model.record owner).attributes.map (attributeEntry model) }]

/-- Where the value of a dataset entry comes from. A method goes before an attribute of the same
name, and the accessor of an attribute stands for the attribute. -/
def entrySource? (model : Model) (owner : RecordId) (name : String) : Option DatasetSource :=
  match model.findMethod? owner name with
  | some method =>
    match (model.method method).body with
    | .attr attr => some (.attr attr)
    | _ => some (.method method)
  | none => (model.findAttribute? owner name).map DatasetSource.attr

/-- The method that gives the value of a source, and its rank. -/
def sourceMethod (model : Model) (name : String) : DatasetSource → String × Nat
  | .attr id =>
    let attr := model.attr id
    (((attr.accessor).map fun method => (model.method method).name).getD name, attr.rank)
  | .method id => ((model.method id).name, (model.method id).rank)

def resolveEntry (model : Model) (owner : RecordId) (path : String)
    (declaration : Declaration.DatasetEntry) : Except SchemaError DatasetEntry :=
  let name := declaration.method.getD declaration.name
  match entrySource? model owner name with
  | none => .error (.unresolvedReference path name)
  | some source =>
    let (method, rank) := sourceMethod model name source
    .ok
      { name := declaration.name, method, rank := (declaration.rank.map UInt32.toNat).getD rank,
        tags := plainTags declaration.tags, source }

def applyDatasetTag (dataset : Dataset) (tag : Tag) : Dataset :=
  match tag.name, tag.argument with
  | "external", header => { dataset with external := some (header.getD "") }
  | name, argument => { dataset with tags := dataset.tags.insert name argument }

def applySchemaTag (schema : StorageSchema) (tag : Tag) : StorageSchema :=
  match tag.name, tag.argument with
  | "external", header => { schema with external := some (header.getD "") }
  | "embedded", none => { schema with embedded := true }
  | "skip_proxy", none => { schema with skipProxy := true }
  | "default", none => { schema with isDefault := true }
  | name, argument => { schema with tags := schema.tags.insert name argument }

/-- Adds a dataset, whose name must be new in its schema. -/
def addDataset (model : Model) (owner : RecordId) (path : String) (before : List Dataset)
    (declaration : Declaration.Dataset) : Except SchemaError (List Dataset) := do
  if before.any (·.name == declaration.name) then .error (.duplicateName path declaration.name)
  let entries ← declaration.entries.mapM
    (resolveEntry model owner (path ++ "." ++ declaration.name))
  let dataset := (Tag.parseAll declaration.tags).foldl applyDatasetTag { name := declaration.name }
  .ok (before ++ [{ dataset with entries }])

/-- Resolves one schema. A default one without datasets stores all attributes. -/
def resolveSchema (model : Model) (owner : RecordId) (typePath : String)
    (declaration : Declaration.StorageSchema) : Except SchemaError StorageSchema := do
  let name := declaration.name.getD defaultSchemaName
  let schema := (Tag.parseAll declaration.tags).foldl applySchemaTag
    { name, version := declaration.version }
  let datasets ← declaration.datasets.foldlM
    (addDataset model owner (typePath ++ "." ++ name)) []
  if schema.isDefault && datasets.isEmpty then
    .ok { schema with datasets := defaultDatasets model owner }
  else .ok { schema with datasets }

/-- Adds a schema, whose name and version must be new together. -/
def addSchema (model : Model) (owner : RecordId) (typePath : String)
    (before : List StorageSchema) (declaration : Declaration.StorageSchema) :
    Except SchemaError (List StorageSchema) := do
  let schema ← resolveSchema model owner typePath declaration
  if before.any fun other => other.name == schema.name && other.version == schema.version then
    .error (.duplicateSchema typePath schema.name schema.version)
  else .ok (before ++ [schema])

def resolveSchemas (model : Model) (pending : Pending RecordId Declaration.Record) :
    Except SchemaError Model := do
  let declared ← pending.declaration.schemas.foldlM (addSchema model pending.id pending.path) []
  let schemas :=
    if declared.isEmpty then
      [{ name := defaultSchemaName, version := 0, isDefault := true,
         datasets := defaultDatasets model pending.id }]
    else declared
  .ok (model.modifyRecord pending.id fun record => { record with schemas })

end RecordSchema.Resolution
