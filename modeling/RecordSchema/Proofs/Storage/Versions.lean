import RecordSchema.Proofs.Dispatch.Factories
import RecordSchema.Proofs.Sorting
import RecordSchema.Proofs.Storage.Schemas
import RecordSchema.Proofs.Text

/-!
# Versions in storage classes

The classes of a type come version by version, and so do the structures of its datasets. Classes and case
labels go by the version of a schema alone, schemas by name and version. So a version comes up as often as
there are schemas of it, and what is generated for a type is told apart by version if and only if its
schemas are.
-/

set_option autoImplicit false

namespace RecordSchema.StorageClasses

open Outcome

/-- The name of a class of one version. -/
def Artifact.className? : Artifact → Option String
  | version text => some text.name
  | _ => none

def Artifact.struct? : Artifact → Option DatasetStruct
  | dataset struct => some struct
  | _ => none

/-- Schemas whose classes are generated, lowest version first. -/
def generatedSchemas (model : Model) (id : RecordId) : List StorageSchema :=
  (schemasByVersion model id).filter fun schema => schema.external.isNone

def generatedDatasets (schema : StorageSchema) : List Dataset :=
  schema.datasets.filter fun dataset => dataset.external.isNone

/-- What a structure shows: its dataset, and the names of its members. -/
def DatasetStruct.members (struct : DatasetStruct) : DatasetName × List String :=
  (struct.dataset, struct.values.map StoredValue.name)

def datasetMembers (version : UInt32) (dataset : Dataset) : DatasetName × List String :=
  (⟨dataset.name, version⟩, dataset.entries.map DatasetEntry.name)

/-- What the structures of a record type are to show, lowest version first. -/
def recordMembers (model : Model) (id : RecordId) : List (DatasetName × List String) :=
  (generatedSchemas model id).flatMap fun schema =>
    (generatedDatasets schema).map (datasetMembers schema.version)

private theorem flatMap_ite {α β : Type} (items : List α) (property : α → Bool) (yield : α → List β) :
    (items.flatMap fun item => if property item then yield item else []) =
      (items.filter property).flatMap yield := by
  induction items with
  | nil => rfl
  | cons first rest ih =>
    rw [List.flatMap_cons, List.filter_cons, ih]
    split <;> rfl

variable {outer : String} {model : Model} {id : RecordId}

private theorem storedValue_name {entry : DatasetEntry} {value : StoredValue}
    (made : storedValue model id entry = .ok value) : value.name = entry.name := by
  rw [storedValue] at made
  split at made <;> cases made
  rfl

private theorem datasetArtifacts_ok {version : UInt32} {dataset : Dataset} {list : List Artifact}
    (made : datasetArtifacts outer model id version dataset = .ok list) :
    list.filterMap Artifact.className? = [] ∧
      (list.filterMap Artifact.struct?).map DatasetStruct.members =
        if dataset.external.isNone then [datasetMembers version dataset] else [] := by
  rw [datasetArtifacts] at made
  split at made
  · rename_i elsewhere
    cases made
    simp [Option.isNone_eq_false_iff.mpr elsewhere]
  · rename_i generated
    obtain ⟨values, each, made⟩ := bind_ok made
    cases made
    have names : values.map StoredValue.name = dataset.entries.map DatasetEntry.name :=
      mapM_ok_map each fun _ _ _ one => storedValue_name one
    have inside : dataset.external.isNone := by simpa using generated
    simp [inside, Artifact.className?, Artifact.struct?, DatasetStruct.members, datasetMembers, names]

private theorem versionArtifacts_ok {schema : StorageSchema} {list : List Artifact}
    (made : versionArtifacts outer model id schema = .ok list) :
    list.filterMap Artifact.className? =
        (if schema.external.isNone then
          [versionClassName (Cpp.className model id) schema.version] else []) ∧
      (list.filterMap Artifact.struct?).map DatasetStruct.members =
        if schema.external.isNone then
          (generatedDatasets schema).map (datasetMembers schema.version) else [] := by
  rw [versionArtifacts] at made
  split at made
  · rename_i elsewhere
    cases made
    simp [Option.isNone_eq_false_iff.mpr elsewhere]
  · rename_i generated
    obtain ⟨structs, each, made⟩ := bind_ok made
    cases made
    have inside : schema.external.isNone := by simpa using generated
    have classNames : structs.map (List.filterMap Artifact.className?) =
        schema.datasets.map fun _ => [] :=
      mapM_ok_map each fun _ _ _ one => (datasetArtifacts_ok one).1
    have members : structs.map (fun list =>
          (list.filterMap Artifact.struct?).map DatasetStruct.members) =
        schema.datasets.map fun dataset =>
          if dataset.external.isNone then [datasetMembers schema.version dataset] else [] :=
      mapM_ok_map each fun _ _ _ one => (datasetArtifacts_ok one).2
    rw [if_pos inside, if_pos inside]
    constructor
    · rw [List.filterMap_append, List.filterMap_flatten, classNames]
      simp [Artifact.className?]
    · rw [List.filterMap_append, List.filterMap_flatten, List.map_append, List.map_flatten,
        List.map_map]
      refine (congrArg (·.flatten ++ []) members).trans ?_
      rw [List.append_nil, ← List.flatMap_def, flatMap_ite, generatedDatasets, List.map_eq_flatMap]

private theorem artifacts_ok {list : List Artifact} (made : artifacts outer model id = .ok list) :
    list.filterMap Artifact.className? = (generatedSchemas model id).map (fun schema =>
        versionClassName (Cpp.className model id) schema.version) ∧
      (list.filterMap Artifact.struct?).map DatasetStruct.members = recordMembers model id := by
  obtain ⟨versions, each, made⟩ := bind_ok made
  cases made
  have classNames : versions.map (List.filterMap Artifact.className?) =
      (schemasByVersion model id).map fun schema =>
        if schema.external.isNone then
          [versionClassName (Cpp.className model id) schema.version] else [] :=
    mapM_ok_map each fun _ _ _ one => (versionArtifacts_ok one).1
  have members : versions.map (fun list =>
        (list.filterMap Artifact.struct?).map DatasetStruct.members) =
      (schemasByVersion model id).map fun schema =>
        if schema.external.isNone then
          (generatedDatasets schema).map (datasetMembers schema.version) else [] :=
    mapM_ok_map each fun _ _ _ one => (versionArtifacts_ok one).2
  constructor
  · rw [List.filterMap_append, List.filterMap_append, List.filterMap_flatten, classNames,
      ← List.flatMap_def, flatMap_ite, ← List.map_eq_flatMap]
    simp [Artifact.className?, generatedSchemas, List.filterMap_map, Function.comp_def]
  · rw [List.filterMap_append, List.filterMap_append, List.filterMap_flatten, List.map_append,
      List.map_append, List.map_flatten, List.map_map]
    refine (congrArg (·.flatten ++ _ ++ _) members).trans ?_
    rw [← List.flatMap_def, flatMap_ite, recordMembers, generatedSchemas]
    simp [Artifact.struct?, List.filterMap_map, Function.comp_def]

end RecordSchema.StorageClasses

/-!
## Versions that are told apart
-/

namespace RecordSchema

open Model

namespace StorageClasses

open Resolution (schemaKey)

private theorem versionClassName_injective {className : String} {version other : UInt32} :
    versionClassName className version = versionClassName className other ↔ version = other := by
  simp [versionClassName, Numeral.toString_injective]

/-- The versions of a record type that are listed, ascending: each as often as there are schemas of
it that are listed. -/
structure Lists (schemas : List StorageSchema) (listed : StorageSchema → Bool)
    (versions : List UInt32) : Prop where
  ascending : versions.Pairwise (· ≤ ·)
  count : ∀ version, versions.count version =
    schemas.countP fun schema => listed schema && schema.version == version

section Labels

variable {outer : String} {model : Model} {id : RecordId}

private theorem schemasByVersion_perm (model : Model) (id : RecordId) :
    (schemasByVersion model id).Perm (model.record id).schemas :=
  List.mergeSort_perm ..

private theorem lists_schemasByVersion (model : Model) (id : RecordId) (listed : StorageSchema → Bool) :
    Lists (model.record id).schemas listed
      (((schemasByVersion model id).filter listed).map StorageSchema.version) where
  ascending := List.pairwise_map.mpr ((Sorting.pairwise_mergeSort _ _).sublist List.filter_sublist)
  count version := by
    rw [List.count_eq_countP, List.countP_map, List.countP_filter,
      (schemasByVersion_perm model id).countP_eq]
    exact List.countP_congr fun schema _ => by simp [and_comm]

theorem Lists.nodup_iff {schemas : List StorageSchema} {listed : StorageSchema → Bool}
    {versions : List UInt32} (lists : Lists schemas listed versions) :
    versions.Nodup ↔ ((schemas.filter listed).map StorageSchema.version).Nodup := by
  have same : versions.Perm ((schemas.filter listed).map StorageSchema.version) := by
    refine List.perm_iff_count.mpr fun version => ?_
    rw [lists.count, List.count_eq_countP, List.countP_map, List.countP_filter]
    exact List.countP_congr fun schema _ => by simp [and_comm]
  exact same.nodup_iff

/-- What is generated for a type is told apart by version: within a function no two case labels are
the same, and no two classes have the same name. -/
structure VersionsApart (list : List Artifact) : Prop where
  storers : ∀ function, .storer function ∈ list → function.versions.Nodup
  factories : ∀ function, .factory function ∈ list → function.versions.Nodup
  classes : (list.filterMap Artifact.className?).Nodup

private theorem lists_storer (function : Storer) (same : function = storer outer model id) :
    Lists (model.record id).schemas (fun _ => true) function.versions := by
  have lists := lists_schemasByVersion model id fun _ => true
  rw [List.filter_true] at lists
  exact same ▸ lists

private theorem lists_factory {function : Factory} (among : function ∈ factories outer model id) :
    Lists (model.record id).schemas (fun schema => !schema.embedded) function.versions := by
  obtain ⟨_, config, _, rfl⟩ := mem_factories.mp among
  exact lists_schemasByVersion model id _

private theorem classNames_eq {list : List Artifact} (made : artifacts outer model id = .ok list) :
    ∃ versions, Lists (model.record id).schemas (fun schema => schema.external.isNone) versions ∧
      list.filterMap Artifact.className? =
        versions.map (versionClassName (Cpp.className model id)) := by
  refine ⟨_, lists_schemasByVersion model id _, ?_⟩
  rw [(artifacts_ok made).1, List.map_map]
  rfl

private theorem versionsApart_iff {list : List Artifact} (made : artifacts outer model id = .ok list) :
    VersionsApart list ↔ ((model.record id).schemas.map StorageSchema.version).Nodup := by
  obtain ⟨factory, storer⟩ := function_mem_artifacts made
  obtain ⟨versions, lists, classNames⟩ := classNames_eq made
  constructor
  · intro apart
    have stored := apart.storers _ ((storer _).mpr rfl)
    rw [(lists_storer _ rfl).nodup_iff, List.filter_true] at stored
    exact stored
  · intro distinct
    have part : ∀ listed : StorageSchema → Bool,
        (((model.record id).schemas.filter listed).map StorageSchema.version).Nodup :=
      fun listed => (List.filter_sublist.map _).nodup distinct
    refine ⟨fun function among => ?_, fun function among => ?_, ?_⟩
    · exact (lists_storer function ((storer function).mp among)).nodup_iff.mpr (part _)
    · exact (lists_factory ((factory function).mp among)).nodup_iff.mpr (part _)
    · rw [classNames]
      exact (lists.nodup_iff.mpr (part _)).map fun _ _ => versionClassName_injective.mp

end Labels

open Traversal

/-- Schemas of a type that fit are told apart by version if and only if those of one version go by one
name. -/
theorem versions_nodup_iff {schemas : List StorageSchema} (fit : Resolution.SchemasFit schemas) :
    (schemas.map StorageSchema.version).Nodup ↔
      ∀ one ∈ schemas, ∀ other ∈ schemas, one.version = other.version → one.name = other.name := by
  constructor
  · intro distinct one among other otherAmong same
    rw [List.inj_on_of_nodup_map distinct among otherAmong same]
  · intro named
    refine List.Nodup.map_on (fun one among other otherAmong same => ?_) fit.distinct.of_map
    exact List.inj_on_of_nodup_map fit.distinct among otherAmong
      (Prod.ext (named one among other otherAmong same) same)

/-- For every type that is visited the storing function lists all versions, a factory those of the
schemas that are not embedded, and the classes are those of the schemas that have no header of their own,
each as often as there are such schemas. The labels of every function are different, and so are the
classes, if and only if the schemas of one version go by one name. -/
theorem build_versions {units : List SourceUnit} {built : Built} (accepted : build units = .ok built)
    (options : Options) (outer : Option String) {generated : Generated}
    (ran : (run built.model (backend options) outer).run.run () = (.ok generated, ())) :
    ∀ id ∈ visited built.model,
      ∃ list, artifacts options.interfaceNamespace built.model id = .ok list ∧
        Wrote options built.model outer generated id
          (namespacesAround built.model id ++ outer.toList) list ∧
        (∃ function, .storer function ∈ list ∧
          Lists (built.model.record id).schemas (fun _ => true) function.versions) ∧
        (∀ function, .factory function ∈ list →
          Lists (built.model.record id).schemas (fun schema => !schema.embedded)
            function.versions) ∧
        (∃ versions,
          Lists (built.model.record id).schemas (fun schema => schema.external.isNone) versions ∧
            list.filterMap Artifact.className? =
              versions.map (versionClassName (Cpp.className built.model id))) ∧
        (VersionsApart list ↔
          ∀ one ∈ (built.model.record id).schemas, ∀ other ∈ (built.model.record id).schemas,
            one.version = other.version → one.name = other.name) := by
  obtain ⟨stages⟩ := build_stages accepted
  intro id visit
  obtain ⟨list, made, wrote⟩ := run_wrote stages.sound.toWellScoped ran visit
  obtain ⟨factory, storer⟩ := function_mem_artifacts made
  have inside := ((build_mem_visited accepted id).mp visit).1
  refine ⟨list, made, wrote, ⟨_, (storer _).mpr rfl, lists_storer _ rfl⟩,
    fun function among => lists_factory ((factory function).mp among), classNames_eq made, ?_⟩
  rw [versionsApart_iff made, versions_nodup_iff (stages.schemasFit inside)]

/-- A type whose schemas differ in version, and one with two schemas of one version. -/
def renamedSchemaUnits : List SourceUnit :=
  let attributes : List Declaration.Attribute := [{ name := "value", typeName := some "uint32_t" }]
  let types : List Declaration.Record :=
    [{ name := "Config", attributes,
       schemas := [{ version := 2 }, { version := 1, tags := ["embedded"] }] },
      { name := "Frame", attributes,
        schemas := [{ name := some "packed", version := 1 }, { name := some "plain", version := 1 }] }]
  [{ document := { packages := [.mk "Sample" none [] [] [] [] types] } }]

theorem build_versions_sample : ∃ built generated, build renamedSchemaUnits = .ok built ∧
    (run built.model (backend {}) none).run.run () = (.ok generated, ()) ∧
    (∃ list, Wrote {} built.model none generated ⟨0⟩ ["Sample"] list ∧ VersionsApart list) ∧
    ∃ list, Wrote {} built.model none generated ⟨1⟩ ["Sample"] list ∧ ¬ VersionsApart list := by
  have computed : ∃ built, build renamedSchemaUnits = .ok built ∧
      (∀ id ∈ visited built.model, Storable built.model id) ∧
      (⟨0⟩ ∈ visited built.model ∧ namespacesAround built.model ⟨0⟩ = ["Sample"] ∧
        ∀ one ∈ (built.model.record ⟨0⟩).schemas, ∀ other ∈ (built.model.record ⟨0⟩).schemas,
          one.version = other.version → one.name = other.name) ∧
      ⟨1⟩ ∈ visited built.model ∧ namespacesAround built.model ⟨1⟩ = ["Sample"] ∧
        ¬ ∀ one ∈ (built.model.record ⟨1⟩).schemas, ∀ other ∈ (built.model.record ⟨1⟩).schemas,
          one.version = other.version → one.name = other.name :=
    exists_built (by decide +kernel)
  obtain ⟨built, accepted, storable, ⟨config, around, alike⟩, frame, around', renamed⟩ := computed
  obtain ⟨generated, ran⟩ := exists_run {} none storable
  have written := build_versions accepted {} none ran
  obtain ⟨list, _, wrote, _, _, _, apart⟩ := written ⟨0⟩ config
  obtain ⟨list', _, wrote', _, _, _, apart'⟩ := written ⟨1⟩ frame
  rw [around] at wrote
  rw [around'] at wrote'
  exact ⟨built, generated, accepted, ran, ⟨list, wrote, apart.mpr alike⟩,
    list', wrote', fun together => renamed (apart'.mp together)⟩

/-- Two schemas of one version give two classes of one name and two cases of one label. -/
theorem build_not_versionsApart : ∃ built, build renamedSchemaUnits = .ok built ∧
    (∀ id ∈ visited built.model, Storable built.model id) ∧
    ¬ ∀ id ∈ visited built.model, ∀ list, artifacts "Psana" built.model id = .ok list →
      VersionsApart list := by
  have computed : ∃ built, build renamedSchemaUnits = .ok built ∧
      (∀ id ∈ visited built.model, Storable built.model id) ∧ ⟨1⟩ ∈ visited built.model ∧
      ¬ ((built.model.record ⟨1⟩).schemas.map StorageSchema.version).Nodup :=
    exists_built (by decide +kernel)
  obtain ⟨built, accepted, storable, visit, twice⟩ := computed
  refine ⟨built, accepted, storable, fun all => twice ?_⟩
  obtain ⟨list, made⟩ := exists_artifacts "Psana" (storable ⟨1⟩ visit)
  exact (versionsApart_iff made).mp (all ⟨1⟩ visit list made)

end StorageClasses

end RecordSchema

/-!
## Names of dataset structures

The structure of a dataset is named for the dataset and the version of its schema, within the namespaces
of the packages around the record type; the record type itself has no part in the name. So structures
of one type share a name if two of its schemas of one version have a dataset in common, and those of
different types if the types stand in the same namespaces.
-/

namespace RecordSchema

open Model Traversal

namespace StorageClasses

/-- The name of a structure in C++, part by part: the namespaces around it, which are given innermost
first, its own namespace, and the name there. -/
def qualifiedName (scopes : List String) (dataset : DatasetName) : List String :=
  scopes.reverse ++ [dataset.scope, dataset.structName]

private theorem qualifiedName_injective {scopes others : List String} {dataset other : DatasetName} :
    qualifiedName scopes dataset = qualifiedName others other ↔
      scopes = others ∧ dataset = other := by
  constructor
  · intro same
    obtain ⟨around, own⟩ := List.append_inj' same rfl
    simp only [List.cons.injEq, and_true, DatasetName.scope, DatasetName.structName] at own
    obtain ⟨name, version⟩ := dataset
    obtain ⟨name', version'⟩ := other
    obtain rfl : name = name' := by simpa using own.2
    have versions : version = version' := by simpa [Numeral.toString_injective] using own.1
    exact ⟨List.reverse_injective around, by rw [versions]⟩
  · rintro ⟨rfl, rfl⟩
    rfl

def structuredDatasets (model : Model) (id : RecordId) : List DatasetName :=
  (recordMembers model id).map (·.1)

def structNames (model : Model) (outer : Option String) : List (List String) :=
  (visited model).flatMap fun id =>
    (structuredDatasets model id).map (qualifiedName (namespacesAround model id ++ outer.toList))

/-- Schemas that lead to no two structures of one name: they differ in version, or have no datasets of
one name. -/
def Separate (one other : StorageSchema) : Prop :=
  one.version = other.version → ∀ dataset ∈ generatedDatasets one,
    ∀ same ∈ generatedDatasets other, dataset.name ≠ same.name

section Names

variable {model : Model} {id : RecordId}

private theorem structuredDatasets_nodup_iff (fit : Resolution.SchemasFit (model.record id).schemas) :
    (structuredDatasets model id).Nodup ↔
      ((model.record id).schemas.filter fun schema => schema.external.isNone).Pairwise Separate := by
  have perm : (generatedSchemas model id).Perm
      ((model.record id).schemas.filter fun schema => schema.external.isNone) :=
    (schemasByVersion_perm model id).filter _
  have symm : ∀ {one other}, Separate one other → Separate other one :=
    fun separate version dataset among same held equal =>
      separate version.symm same held dataset among equal.symm
  have own : ∀ schema ∈ generatedSchemas model id,
      ((generatedDatasets schema).map fun dataset =>
        (datasetMembers schema.version dataset).1).Nodup := by
    intro schema listed
    have inside : schema ∈ (model.record id).schemas :=
      (schemasByVersion_perm model id).mem_iff.mp (List.mem_of_mem_filter listed)
    have names : ((generatedDatasets schema).map Dataset.name).Nodup :=
      (List.filter_sublist.map Dataset.name).nodup (fit.datasets schema inside)
    refine List.Nodup.of_map DatasetName.name ?_
    rw [List.map_map]
    exact names
  have apart : ∀ one other : StorageSchema,
      List.Disjoint ((generatedDatasets one).map fun dataset => (datasetMembers one.version dataset).1)
        ((generatedDatasets other).map fun dataset => (datasetMembers other.version dataset).1) ↔
      Separate one other := by
    intro one other
    simp only [List.Disjoint, List.mem_map, datasetMembers, Separate]
    constructor
    · intro disjoint version dataset among same held equal
      exact disjoint ⟨dataset, among, rfl⟩ ⟨same, held, by rw [version, equal]⟩
    · rintro separate _ ⟨dataset, among, rfl⟩ ⟨same, held, equal⟩
      obtain ⟨name, version⟩ := DatasetName.mk.inj equal
      exact separate version.symm dataset among same held name.symm
  rw [structuredDatasets, recordMembers, List.map_flatMap]
  simp only [List.map_map, Function.comp_def]
  rw [List.nodup_flatMap, and_iff_right own, ← perm.pairwise_iff symm]
  exact List.Pairwise.iff fun one other => apart one other

/-- In a model structures have different names if and only if within each type they have, and types in
the same namespaces have no dataset name and version in common. -/
theorem structNames_nodup_iff {outer : Option String} :
    (structNames model outer).Nodup ↔
      (∀ id ∈ visited model, (structuredDatasets model id).Nodup) ∧
        (visited model).Pairwise fun one other =>
          namespacesAround model one = namespacesAround model other →
            List.Disjoint (structuredDatasets model one) (structuredDatasets model other) := by
  rw [structNames, List.nodup_flatMap]
  refine and_congr (forall₂_congr fun id _ => ?_) (List.Pairwise.iff fun one other => ?_)
  · exact List.nodup_map_iff fun _ _ same => (qualifiedName_injective.mp same).2
  · simp only [Function.onFun, List.Disjoint, List.mem_map]
    constructor
    · intro disjoint around dataset among same
      exact disjoint ⟨dataset, among, rfl⟩ ⟨dataset, same, by rw [around]⟩
    · rintro disjoint _ ⟨dataset, among, rfl⟩ ⟨same, held, equal⟩
      obtain ⟨around, rfl⟩ := qualifiedName_injective.mp equal
      exact disjoint (List.append_cancel_right around).symm among held

/-- A version of a type is stored in the dataset that stands in by default. -/
def StoredByDefault (model : Model) (id : RecordId) (version : UInt32) : Prop :=
  ∃ schema ∈ (model.record id).schemas, schema.external = none ∧ schema.version = version ∧
    schema.datasets = Resolution.defaultDatasets model id

private theorem StoredByDefault.structured {version : UInt32} (stored : StoredByDefault model id version) :
    ⟨Resolution.defaultDatasetName, version⟩ ∈ structuredDatasets model id := by
  obtain ⟨schema, among, generated, rfl, datasets⟩ := stored
  have listed : schema ∈ generatedSchemas model id :=
    List.mem_filter.mpr ⟨(schemasByVersion_perm model id).mem_iff.mpr among, by rw [generated]; rfl⟩
  have standing : ∃ dataset ∈ generatedDatasets schema,
      dataset.name = Resolution.defaultDatasetName := by
    rw [generatedDatasets, datasets]
    exact ⟨_, List.mem_singleton_self _, rfl⟩
  obtain ⟨dataset, held, name⟩ := standing
  exact List.mem_map.mpr ⟨datasetMembers schema.version dataset,
    List.mem_flatMap.mpr ⟨schema, listed, List.mem_map_of_mem held⟩, by rw [datasetMembers, name]⟩

end Names

/-- The structures that are written for a type that is visited are those of its datasets, with the
entries as members; entries of a default dataset have different names. All structures have different
names if and only if the schemas of each type are separate, and types in the same namespaces have no
dataset name and version in common. So no two types in the same namespaces can be stored by default in
the same version. -/
theorem build_structs {units : List SourceUnit} {built : Built} (accepted : build units = .ok built)
    (options : Options) (outer : Option String) {generated : Generated}
    (ran : (run built.model (backend options) outer).run.run () = (.ok generated, ())) :
    (∀ id ∈ visited built.model,
      ∃ list, artifacts options.interfaceNamespace built.model id = .ok list ∧
        Wrote options built.model outer generated id
          (namespacesAround built.model id ++ outer.toList) list ∧
        (list.filterMap Artifact.struct?).map DatasetStruct.members =
          recordMembers built.model id) ∧
      (∀ id, ∀ dataset ∈ Resolution.defaultDatasets built.model id,
        (dataset.entries.map DatasetEntry.name).Nodup) ∧
      ((structNames built.model outer).Nodup ↔
        (∀ id ∈ visited built.model,
          ((built.model.record id).schemas.filter fun schema => schema.external.isNone).Pairwise
            Separate) ∧
          (visited built.model).Pairwise fun one other =>
            namespacesAround built.model one = namespacesAround built.model other →
              List.Disjoint (structuredDatasets built.model one)
                (structuredDatasets built.model other)) ∧
      ∀ one ∈ visited built.model, ∀ other ∈ visited built.model, one ≠ other →
        namespacesAround built.model one = namespacesAround built.model other → ∀ version,
          StoredByDefault built.model one version → StoredByDefault built.model other version →
            ¬ (structNames built.model outer).Nodup := by
  obtain ⟨stages⟩ := build_stages accepted
  refine ⟨fun id visit => ?_, fun id dataset among => ?_, ?_, ?_⟩
  · obtain ⟨list, made, wrote⟩ := run_wrote stages.sound.toWellScoped ran visit
    exact ⟨list, made, wrote, (artifacts_ok made).2⟩
  · exact Resolution.defaultDatasets_distinct stages.sound stages.methodsApart dataset among
  · rw [structNames_nodup_iff]
    refine and_congr_left' (forall₂_congr fun id visit => ?_)
    exact structuredDatasets_nodup_iff
      (stages.schemasFit ((build_mem_visited accepted id).mp visit).1)
  · intro one visit other otherVisit different around version stored otherStored distinct
    have apart := (structNames_nodup_iff.mp distinct).2
    have symm : Std.Symm fun one other : RecordId =>
        namespacesAround built.model one = namespacesAround built.model other →
          List.Disjoint (structuredDatasets built.model one) (structuredDatasets built.model other) :=
      ⟨fun _ _ disjoint same _ among held => disjoint same.symm held among⟩
    exact apart.forall visit otherVisit different around stored.structured otherStored.structured

/-- Types in one package: two without schemas of their own, and one with a dataset that has two entries
of one name. -/
def undeclaredSchemaUnits : List SourceUnit :=
  let attributes : List Declaration.Attribute := [{ name := "value", typeName := some "uint32_t" }]
  let dataset : Declaration.Dataset :=
    { name := "values", entries := [{ name := "value" }, { name := "value" }] }
  let types : List Declaration.Record :=
    [{ name := "First", attributes }, { name := "Second", attributes },
      { name := "Third", attributes, schemas := [{ version := 1, datasets := [dataset] }] }]
  [{ document := { packages := [.mk "Sample" none [] [] [] [] types] } }]

theorem build_structs_sample : ∃ built generated, build undeclaredSchemaUnits = .ok built ∧
    (run built.model (backend {}) none).run.run () = (.ok generated, ()) ∧
    ∃ list, Wrote {} built.model none generated ⟨2⟩ ["Sample"] list ∧
      (list.filterMap Artifact.struct?).map DatasetStruct.members =
        [(⟨"values", 1⟩, ["value", "value"])] := by
  have computed : ∃ built, build undeclaredSchemaUnits = .ok built ∧
      (∀ id ∈ visited built.model, Storable built.model id) ∧
      ⟨2⟩ ∈ visited built.model ∧ namespacesAround built.model ⟨2⟩ = ["Sample"] ∧
      recordMembers built.model ⟨2⟩ = [(⟨"values", 1⟩, ["value", "value"])] :=
    exists_built (by decide +kernel)
  obtain ⟨built, accepted, storable, visit, around, members⟩ := computed
  obtain ⟨generated, ran⟩ := exists_run {} none storable
  obtain ⟨written, _⟩ := build_structs accepted {} none ran
  obtain ⟨list, _, wrote, structs⟩ := written ⟨2⟩ visit
  rw [around] at wrote
  exact ⟨built, generated, accepted, ran, list, wrote, structs.trans members⟩

/-- The structures of two types have one name, and a structure has two members of one name. -/
theorem build_not_structs : ∃ built, build undeclaredSchemaUnits = .ok built ∧
    (∀ id ∈ visited built.model, Storable built.model id) ∧
    ¬ (structNames built.model none).Nodup ∧
    ¬ ∀ id ∈ visited built.model, ∀ list, artifacts "Psana" built.model id = .ok list →
      ∀ struct ∈ list.filterMap Artifact.struct?, (struct.values.map StoredValue.name).Nodup := by
  have computed : ∃ built, build undeclaredSchemaUnits = .ok built ∧
      (∀ id ∈ visited built.model, Storable built.model id) ∧
      ¬ (structNames built.model none).Nodup ∧ ⟨2⟩ ∈ visited built.model ∧
      recordMembers built.model ⟨2⟩ = [(⟨"values", 1⟩, ["value", "value"])] :=
    exists_built (by decide +kernel)
  obtain ⟨built, accepted, storable, twice, visit, members⟩ := computed
  refine ⟨built, accepted, storable, twice, fun all => ?_⟩
  obtain ⟨list, made⟩ := exists_artifacts "Psana" (storable ⟨2⟩ visit)
  have shown := (artifacts_ok made).2.trans members
  obtain ⟨struct, listed, same⟩ := List.mem_map.mp (shown ▸ List.mem_singleton_self _)
  have distinct := all ⟨2⟩ visit list made struct listed
  rw [show struct.values.map StoredValue.name = ["value", "value"] from congrArg Prod.snd same]
    at distinct
  exact absurd distinct (by decide)

end StorageClasses

end RecordSchema
