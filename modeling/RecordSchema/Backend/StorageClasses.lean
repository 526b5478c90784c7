import RecordSchema.Cpp.Class
import RecordSchema.Cpp.Name

/-!
# Storage classes

The backend for the classes that store records and read them back: a structure for every dataset, a
class for every version of a record type, and functions that choose among the versions.
-/

set_option autoImplicit false

namespace RecordSchema.StorageClasses

open Cpp

/-- What the storage classes depend on besides the model. -/
structure Options where
  /-- The header that the definitions include. -/
  header : String := "schema.h"
  /-- The namespace around the interfaces of the record types. -/
  interfaceNamespace : String := "Psana"

/-- The interface of a record type, as it is known here. -/
def interfaceName (outer : String) (model : Model) (id : RecordId) : String :=
  inNamespace (some outer) (typeName model id)

structure DatasetName where
  name : String
  version : UInt32
deriving DecidableEq

def DatasetName.scope (dataset : DatasetName) : String :=
  s!"ns_{dataset.name}_v{dataset.version}"

def DatasetName.structName (dataset : DatasetName) : String :=
  "dataset_" ++ dataset.name

def DatasetName.qualified (dataset : DatasetName) : String :=
  dataset.scope ++ "::" ++ dataset.structName

/-- A value in a dataset structure, and the method of the record that gives it. -/
structure StoredValue where
  type : String
  name : String
  method : String
deriving DecidableEq

structure DatasetStruct where
  dataset : DatasetName
  interface : String
  values : List StoredValue

structure VersionClass where
  name : String
  interface : String
  datasets : List DatasetName

/-- A function that makes a proxy for a record stored in one of several versions. -/
structure Factory where
  className : String
  interface : String
  /-- The interface of the config object that is passed along. -/
  config : Option String
  versions : List UInt32
deriving DecidableEq

/-- A function that stores a record in one of several versions. -/
structure Storer where
  className : String
  interface : String
  /-- Dotted path of the record type. -/
  path : String
  versions : List UInt32

/-- What is generated for a record type. -/
inductive Artifact where
  | dataset (struct : DatasetStruct)
  | version (text : VersionClass)
  | factory (function : Factory)
  | storer (function : Storer)

def versionClassName (className : String) (version : UInt32) : String :=
  s!"{className}_v{version}"

def valueType (model : Model) (type : TypeRef) (rank : Nat) : String :=
  if rank = 0 then storageType model type
  else s!"ndarray<const {storageType model type}, {rank}>"

def sourceType? (model : Model) : DatasetSource → Option TypeRef
  | .attr id => some (model.attr id).type
  | .method id => (model.method id).result

/-- The value for a dataset entry; a method without a result has none. -/
def storedValue (model : Model) (id : RecordId) (entry : DatasetEntry) :
    Except GenerationError StoredValue :=
  match sourceType? model entry.source with
  | some type => .ok ⟨valueType model type entry.rank, entry.name, entry.method⟩
  | none =>
    .error (.backend "schema"
      s!"{model.recordPath id}: dataset attribute '{entry.name}' maps to a void method")

/-- The structure of a dataset, unless a header of its own has it. -/
def datasetArtifacts (outer : String) (model : Model) (id : RecordId) (version : UInt32)
    (dataset : Dataset) : Except GenerationError (List Artifact) :=
  if dataset.external.isSome then .ok []
  else do
    let values ← dataset.entries.mapM (storedValue model id)
    pure [.dataset ⟨⟨dataset.name, version⟩, interfaceName outer model id, values⟩]

/-- The structures and the class of one version, unless a header of its own has them. -/
def versionArtifacts (outer : String) (model : Model) (id : RecordId) (schema : StorageSchema) :
    Except GenerationError (List Artifact) :=
  if schema.external.isSome then .ok []
  else do
    let structs ← schema.datasets.mapM (datasetArtifacts outer model id schema.version)
    let datasets := schema.datasets.map fun dataset => ⟨dataset.name, schema.version⟩
    pure (structs.flatten ++
      [.version ⟨versionClassName (className model id) schema.version, interfaceName outer model id,
        datasets⟩])

def schemasByVersion (model : Model) (id : RecordId) : List StorageSchema :=
  (model.record id).schemas.mergeSort fun left right => left.version ≤ right.version

/-- The interfaces of config objects that a factory may be given; a type that needs none has one
factory. -/
def factoryConfigs (outer : String) (model : Model) (id : RecordId) : List (Option String) :=
  match (model.record id).configs with
  | [] => [none]
  | configs => configs.map fun config => some (interfaceName outer model config)

/-- The factories of a record type, one for each config object. Versions that are embedded in other
records have no proxy. -/
def factories (outer : String) (model : Model) (id : RecordId) : List Factory :=
  let proxied := (schemasByVersion model id).filter fun schema => !schema.embedded
  if proxied.isEmpty then []
  else
    (factoryConfigs outer model id).map fun config =>
      ⟨className model id, interfaceName outer model id, config,
        proxied.map StorageSchema.version⟩

def storer (outer : String) (model : Model) (id : RecordId) : Storer :=
  ⟨className model id, interfaceName outer model id, model.recordPath id,
    (schemasByVersion model id).map StorageSchema.version⟩

def artifacts (outer : String) (model : Model) (id : RecordId) :
    Except GenerationError (List Artifact) := do
  let versions ← (schemasByVersion model id).mapM (versionArtifacts outer model id)
  pure (versions.flatten ++ (factories outer model id).map .factory ++ [.storer (storer outer model id)])

def DatasetStruct.render (struct : DatasetStruct) : Generated :=
  let name := struct.dataset.structName
  let argument := "(const " ++ struct.interface ++ "& psanaobj)"
  let outside := struct.dataset.qualified ++ "::" ++ name
  let initializers := struct.values.map fun value =>
    value.name ++ "(psanaobj." ++ value.method ++ "())"
  { declaration :=
      "namespace " ++ struct.dataset.scope ++ " \x7b\n" ++
        "struct " ++ name ++ " \x7b\n" ++
        "  static hdf5pp::Type native_type();\n" ++
        "  static hdf5pp::Type stored_type();\n\n" ++
        "  " ++ name ++ "();\n" ++
        "  " ++ name ++ argument ++ ";\n\n" ++
        String.join (struct.values.map fun value => s!"  {value.type} {value.name};\n") ++
        "\x7d;\n\x7d // namespace " ++ struct.dataset.scope ++ "\n\n"
    definition :=
      outside ++ "() \x7b\x7d\n" ++ outside ++ argument ++
        (if initializers.isEmpty then " \x7b\x7d\n"
        else "\n  : " ++ "\n  , ".intercalate initializers ++ "\n\x7b\x7d\n") }

def readDefinition (className : String) (dataset : DatasetName) : String :=
  s!"void {className}::read_ds_{dataset.name}() const\n\x7b\n" ++
    s!"  if (m_ds_{dataset.name}) return;\n" ++
    s!"  m_ds_{dataset.name} = hdf5pp::Utils::readGroup<{dataset.qualified}>(m_group, " ++
    s!"\"{dataset.name}\", m_idx);\n\x7d\n"

def VersionClass.render (text : VersionClass) : Generated :=
  let storing := "store(const " ++ text.interface ++ "& obj, hdf5pp::Group group, bool append)"
  { declaration :=
      s!"class {text.name} : public {text.interface} \x7b\npublic:\n  {text.name}() \x7b\x7d\n" ++
        s!"  {text.name}(hdf5pp::Group group, hsize_t idx) : m_group(group), m_idx(idx) \x7b\x7d\n\n" ++
        "  static void " ++ storing ++ ";\nprivate:\n" ++
        "  mutable hdf5pp::Group m_group;\n  hsize_t m_idx;\n" ++
        String.join (text.datasets.map fun dataset =>
          s!"  mutable boost::shared_ptr<{dataset.qualified}> m_ds_{dataset.name};\n" ++
            s!"  void read_ds_{dataset.name}() const;\n") ++
        "\x7d;\n\n"
    definition :=
      String.join (text.datasets.map (readDefinition text.name)) ++
        s!"void {text.name}::" ++ storing ++ "\n\x7b\n" ++
        String.join (text.datasets.map fun dataset =>
          s!"  hdf5pp::Utils::storeObject(group, \"{dataset.name}\", {dataset.qualified}(obj), " ++
            "append);\n") ++
        "\x7d\n\n" }

def Factory.head (factory : Factory) : String :=
  s!"boost::shared_ptr<PSEvt::Proxy<{factory.interface}> > make_{factory.className}" ++
    "(int version, hdf5pp::Group group, hsize_t idx" ++
    (match factory.config with
    | some config => s!", const boost::shared_ptr<{config}>& cfg"
    | none => "") ++ ")"

def Factory.case (factory : Factory) (version : UInt32) : String :=
  s!"  case {version}:\n" ++
    s!"    return boost::make_shared<PSEvt::DataProxy<{factory.interface}> >" ++
    s!"(boost::make_shared<{versionClassName factory.className version}>(group, idx));\n"

def Factory.render (factory : Factory) : Generated where
  declaration := factory.head ++ ";\n"
  definition :=
    factory.head ++ "\n\x7b\n  switch (version) \x7b\n" ++
      String.join (factory.versions.map factory.case) ++
      "  default:\n" ++
      s!"    return boost::make_shared<PSEvt::DataProxy<{factory.interface}> >" ++
      s!"(boost::shared_ptr<{factory.interface}>());\n" ++
      "  \x7d\n\x7d\n\n"

def Storer.head (storer : Storer) : String :=
  s!"void store_{storer.className}(const {storer.interface}& obj, hdf5pp::Group group, " ++
    "int version, bool append)"

/-- The version that is stored if none is asked for. -/
def Storer.newest (storer : Storer) : UInt32 :=
  storer.versions.foldl max 0

def Storer.case (storer : Storer) (version : UInt32) : String :=
  s!"  case {version}:\n" ++
    s!"    {versionClassName storer.className version}::store(obj, group, append);\n    break;\n"

/-- The texts of a storing function. -/
def Storer.render (storer : Storer) : Generated where
  declaration := storer.head ++ ";\n"
  definition :=
    storer.head ++ "\n\x7b\n" ++
      s!"  if (version < 0) version = {storer.newest};\n" ++
      "  switch (version) \x7b\n" ++ String.join (storer.versions.map storer.case) ++
      "  default:\n" ++
      s!"    throw ExceptionSchemaVersion(ERR_LOC, \"{storer.path}\", version);\n" ++
      "  \x7d\n\x7d\n\n"

def Artifact.render : Artifact → Generated
  | dataset struct => struct.render
  | version text => text.render
  | factory function => function.render
  | storer function => function.render

/-- Header names in order, without repetition. -/
def sortedHeaders (headers : List String) : List String :=
  ((headers.filter fun header => !header.isEmpty).mergeSort (fun left right => left ≤ right)).eraseReps

/-- The storage schemas of all types for which code is generated. -/
def emittedSchemas (model : Model) : List StorageSchema :=
  model.emittedRecords.flatMap fun id => (model.record id).schemas

def schemaHeaders (model : Model) : List String :=
  sortedHeaders ((emittedSchemas model).filterMap StorageSchema.external)

def datasetHeaders (model : Model) : List String :=
  sortedHeaders ((emittedSchemas model).flatMap fun schema =>
    schema.datasets.filterMap Dataset.external)

/-- What stands before all classes. -/
def prologue (options : Options) (model : Model) : Generated where
  declaration :=
    "#pragma once\n\n" ++
      includeLines (["hdf5pp/Group.h", "PSEvt/Proxy.h"] ++ model.useHeaders ++ datasetHeaders model) ++
      "\n"
  definition :=
    includeLines [options.header] ++ "\n#include <boost/make_shared.hpp>\n" ++
      includeLines ("hdf5pp/Utils.h" :: schemaHeaders model) ++ "\n"

/-- The backend for storage classes. -/
def backend (options : Options) : Backend Unit where
  name := "schema"
  prologue model := pure (prologue options model)
  visitRecord model id :=
    match artifacts options.interfaceNamespace model id with
    | .ok artifacts => pure ((artifacts.map Artifact.render).foldl (· ++ ·) {})
    | .error error => throw (.refused error)

end RecordSchema.StorageClasses
