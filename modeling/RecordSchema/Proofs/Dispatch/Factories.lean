import Mathlib.Data.List.Forall2
import RecordSchema.Backend.StorageClasses
import RecordSchema.Proofs.Dispatch.ByName
import RecordSchema.Proofs.Text

/-!
# Factories that are called and factories that are written

The dispatcher by type name calls factories that the storage classes are to provide. Both go by the
types and their config objects, but a type is left out for different reasons: by the dispatcher if all
of its schemas ask for it, by the storage classes if all of them are embedded.
-/

set_option autoImplicit false

/-!
## The text of storage classes

What is generated for a record type is written as a structure for a dataset, a class for a version, or a
function that goes by the version: it has a case for each of its versions and a default for all others.
-/

namespace RecordSchema.StorageClasses

open Text

/-- A function that goes by a version. -/
def versionSwitch (head before : String) (cases : List (UInt32 × String)) (otherwise : String) :
    Generated where
  declaration := head ++ ";\n"
  definition := head ++ "\n\x7b\n" ++ before ++ "  switch (version) \x7b\n" ++
    String.join (cases.map fun entry => "  case " ++ toString entry.1 ++ ":\n" ++ entry.2) ++
      "  default:\n" ++ otherwise ++ "  \x7d\n\x7d\n\n"

/-- The config object that is passed along. -/
def configParameterText (config : Option String) : String :=
  match config with
  | some config => ", const boost::shared_ptr<" ++ config ++ ">& cfg"
  | none => ""

def Factory.text (factory : Factory) : Generated :=
  versionSwitch
    ("boost::shared_ptr<PSEvt::Proxy<" ++ factory.interface ++ "> > make_" ++ factory.className ++
      "(int version, hdf5pp::Group group, hsize_t idx" ++ configParameterText factory.config ++ ")")
    ""
    (factory.versions.map fun version => (version,
      "    return boost::make_shared<PSEvt::DataProxy<" ++ factory.interface ++ "> >(boost::make_shared<" ++
        factory.className ++ "_v" ++ toString version ++ ">(group, idx));\n"))
    ("    return boost::make_shared<PSEvt::DataProxy<" ++ factory.interface ++ "> >(boost::shared_ptr<" ++
      factory.interface ++ ">());\n")

def Storer.text (storer : Storer) : Generated :=
  versionSwitch
    ("void store_" ++ storer.className ++ "(const " ++ storer.interface ++
      "& obj, hdf5pp::Group group, int version, bool append)")
    ("  if (version < 0) version = " ++ toString storer.newest ++ ";\n")
    (storer.versions.map fun version => (version,
      "    " ++ storer.className ++ "_v" ++ toString version ++ "::store(obj, group, append);\n    break;\n"))
    ("    throw ExceptionSchemaVersion(ERR_LOC, \"" ++ storer.path ++ "\", version);\n")

/-- The scope of a dataset structure. -/
def scopeText (dataset : DatasetName) : String :=
  "ns_" ++ dataset.name ++ "_v" ++ toString dataset.version

/-- The name of a dataset structure from outside of its scope. -/
def structText (dataset : DatasetName) : String :=
  scopeText dataset ++ "::dataset_" ++ dataset.name

/-- A structure within a scope of its own, with a field for each value, and the constructor that takes the
values from the methods of the record. -/
def DatasetStruct.text (struct : DatasetStruct) : Generated :=
  let name := "dataset_" ++ struct.dataset.name
  let arguments := "(const " ++ struct.interface ++ "& psanaobj)"
  { declaration :=
      "namespace " ++ scopeText struct.dataset ++ " \x7b\nstruct " ++ name ++
        " \x7b\n  static hdf5pp::Type native_type();\n  static hdf5pp::Type stored_type();\n\n  " ++ name ++
        "();\n  " ++ name ++ arguments ++ ";\n\n" ++
        String.join (struct.values.map fun value => "  " ++ value.type ++ " " ++ value.name ++ ";\n") ++
        "\x7d;\n\x7d // namespace " ++ scopeText struct.dataset ++ "\n\n"
    definition :=
      structText struct.dataset ++ "::" ++ name ++ "() \x7b\x7d\n" ++ structText struct.dataset ++ "::" ++
        name ++ arguments ++
        (if struct.values = [] then " \x7b\x7d\n"
        else "\n  : " ++ "\n  , ".intercalate (struct.values.map fun value =>
          value.name ++ "(psanaobj." ++ value.method ++ "())") ++ "\n\x7b\x7d\n") }

/-- A class that reads its datasets when they are asked for, and stores all of them. -/
def VersionClass.text (text : VersionClass) : Generated :=
  let storing := "store(const " ++ text.interface ++ "& obj, hdf5pp::Group group, bool append)"
  { declaration :=
      "class " ++ text.name ++ " : public " ++ text.interface ++ " \x7b\npublic:\n  " ++ text.name ++
        "() \x7b\x7d\n  " ++ text.name ++
        "(hdf5pp::Group group, hsize_t idx) : m_group(group), m_idx(idx) \x7b\x7d\n\n  static void " ++
        storing ++ ";\nprivate:\n  mutable hdf5pp::Group m_group;\n  hsize_t m_idx;\n" ++
        String.join (text.datasets.map fun dataset =>
          "  mutable boost::shared_ptr<" ++ structText dataset ++ "> m_ds_" ++ dataset.name ++
            ";\n  void read_ds_" ++ dataset.name ++ "() const;\n") ++ "\x7d;\n\n"
    definition :=
      String.join (text.datasets.map fun dataset =>
          "void " ++ text.name ++ "::read_ds_" ++ dataset.name ++ "() const\n\x7b\n  if (m_ds_" ++
            dataset.name ++ ") return;\n  m_ds_" ++ dataset.name ++ " = hdf5pp::Utils::readGroup<" ++
            structText dataset ++ ">(m_group, \"" ++ dataset.name ++ "\", m_idx);\n\x7d\n") ++
        "void " ++ text.name ++ "::" ++ storing ++ "\n\x7b\n" ++
        String.join (text.datasets.map fun dataset =>
          "  hdf5pp::Utils::storeObject(group, \"" ++ dataset.name ++ "\", " ++ structText dataset ++
            "(obj), append);\n") ++ "\x7d\n\n" }

def Artifact.text : Artifact → Generated
  | dataset struct => struct.text
  | version text => text.text
  | factory function => function.text
  | storer function => function.text

private theorem Factory.render_eq (factory : Factory) : factory.render = factory.text := by
  have proxy : "> >(boost::make_shared<" = "> >" ++ "(boost::make_shared<" := by decide +kernel
  have none : "> >(boost::shared_ptr<" = "> >" ++ "(boost::shared_ptr<" := by decide +kernel
  unfold render text versionSwitch head case versionClassName configParameterText
  simp only [proxy, none, toString_text, String.append_assoc, List.map_map, Function.comp_def,
    String.empty_append]
  rfl

private theorem Storer.render_eq (storer : Storer) : storer.render = storer.text := by
  have arguments : "& obj, hdf5pp::Group group, int version, bool append)" =
      "& obj, hdf5pp::Group group, " ++ "int version, bool append)" := by decide +kernel
  unfold render text versionSwitch head case versionClassName
  simp only [arguments, toString_text, String.append_assoc, List.map_map, Function.comp_def]

private theorem scope_eq (dataset : DatasetName) : dataset.scope = scopeText dataset := rfl

private theorem qualified_eq (dataset : DatasetName) : dataset.qualified = structText dataset := by
  have inside : "::dataset_" = "::" ++ "dataset_" := by decide +kernel
  rw [DatasetName.qualified, DatasetName.structName, scope_eq, structText, inside, String.append_assoc,
    String.append_assoc, String.append_assoc]

private theorem DatasetStruct.render_eq (struct : DatasetStruct) : struct.render = struct.text := by
  have opens : " \x7b\nstruct " = " \x7b\n" ++ "struct " := by decide +kernel
  have types : " \x7b\n  static hdf5pp::Type native_type();\n  static hdf5pp::Type stored_type();\n\n  " =
      " \x7b\n" ++ ("  static hdf5pp::Type native_type();\n" ++
        ("  static hdf5pp::Type stored_type();\n\n" ++ "  ")) := by decide +kernel
  have constructors : "();\n  " = "();\n" ++ "  " := by decide +kernel
  unfold render text DatasetName.structName
  simp only [opens, types, constructors, scope_eq, qualified_eq, toString_text, String.append_assoc,
    List.isEmpty_iff, List.map_eq_nil_iff]

private theorem VersionClass.render_eq (text : VersionClass) : text.render = text.text := by
  have constructors : "() \x7b\x7d\n  " = "() \x7b\x7d\n" ++ "  " := by decide +kernel
  have storing :
      "(hdf5pp::Group group, hsize_t idx) : m_group(group), m_idx(idx) \x7b\x7d\n\n  static void " =
      "(hdf5pp::Group group, hsize_t idx) : m_group(group), m_idx(idx) \x7b\x7d\n\n" ++ "  static void " := by
    decide +kernel
  have hidden : ";\nprivate:\n  mutable hdf5pp::Group m_group;\n  hsize_t m_idx;\n" =
      ";\nprivate:\n" ++ "  mutable hdf5pp::Group m_group;\n  hsize_t m_idx;\n" := by decide +kernel
  have reading : ";\n  void read_ds_" = ";\n" ++ "  void read_ds_" := by decide +kernel
  have begins : "() const\n\x7b\n  if (m_ds_" = "() const\n\x7b\n" ++ "  if (m_ds_" := by decide +kernel
  have goesOn : ") return;\n  m_ds_" = ") return;\n" ++ "  m_ds_" := by decide +kernel
  have group : ">(m_group, \"" = ">(m_group, " ++ "\"" := by decide +kernel
  have ends : "(obj), append);\n" = "(obj), " ++ "append);\n" := by decide +kernel
  unfold render VersionClass.text readDefinition
  simp only [constructors, storing, hidden, reading, begins, goesOn, group, ends, qualified_eq, toString_text,
    String.append_assoc]

theorem Artifact.render_eq (artifact : Artifact) : artifact.render = artifact.text := by
  cases artifact with
  | dataset struct => exact struct.render_eq
  | version text => exact text.render_eq
  | factory function => exact function.render_eq
  | storer function => exact function.render_eq

end RecordSchema.StorageClasses

/-!
## Functions and calls
-/

namespace RecordSchema

open Model

namespace Dispatcher

open StorageClasses (Factory)

/-- A factory that stands in some namespaces, innermost first, is the one that is called. -/
def FactoryCall.Reaches (call : FactoryCall) (scopes : List String) (factory : Factory) : Prop :=
  call.function =
      Cpp.inNamespace (some ("::".intercalate scopes.reverse)) ("make_" ++ factory.className) ∧
    call.interface = factory.interface ∧ call.config = factory.config

end Dispatcher

namespace StorageClasses

open Traversal

section Artifacts

variable {outer : String} {model : Model} {id : RecordId}

/-- Factories exist if there is a schema to make proxies for, one for every config object. -/
theorem mem_factories {factory : Factory} :
    factory ∈ factories outer model id ↔
      (∃ schema ∈ (model.record id).schemas, schema.embedded = false) ∧
        ∃ config ∈ factoryConfigs outer model id,
          factory = ⟨Cpp.className model id, interfaceName outer model id, config,
            ((schemasByVersion model id).filter fun schema => !schema.embedded).map
              StorageSchema.version⟩ := by
  have some_iff : (∃ schema ∈ (model.record id).schemas, schema.embedded = false) ↔
      ((schemasByVersion model id).filter fun schema => !schema.embedded).isEmpty = false := by
    simp [List.filter_eq_nil_iff, schemasByVersion]
  rw [factories, some_iff]
  cases ((schemasByVersion model id).filter fun schema => !schema.embedded).isEmpty with
  | true => simp
  | false => simp [eq_comm]

/-- For a version structures and classes are generated, and no functions. -/
theorem versionArtifacts_kinds {schema : StorageSchema} {list : List Artifact}
    (made : versionArtifacts outer model id schema = .ok list) {artifact : Artifact}
    (among : artifact ∈ list) :
    (∃ struct, artifact = .dataset struct) ∨ ∃ text, artifact = .version text := by
  rw [versionArtifacts] at made
  split at made
  · cases made
    cases among
  · obtain ⟨structs, each, made⟩ := Outcome.bind_ok made
    cases made
    rcases List.mem_append.mp among with among | single
    · obtain ⟨struct, listed, among⟩ := List.mem_flatten.mp among
      obtain ⟨dataset, _, given⟩ := Outcome.mapM_ok each struct listed
      rw [datasetArtifacts] at given
      split at given
      · cases given
        cases among
      · obtain ⟨values, _, given⟩ := Outcome.bind_ok given
        cases given
        exact .inl ⟨_, List.mem_singleton.mp among⟩
    · exact .inr ⟨_, List.mem_singleton.mp single⟩

/-- What is generated for a type has its factories and its storer, and no other functions. -/
theorem function_mem_artifacts {list : List Artifact} (made : artifacts outer model id = .ok list) :
    (∀ factory, .factory factory ∈ list ↔ factory ∈ factories outer model id) ∧
      ∀ function, .storer function ∈ list ↔ function = storer outer model id := by
  obtain ⟨versions, each, made⟩ := Outcome.bind_ok made
  cases made
  have elsewhere : ∀ artifact ∈ versions.flatten,
      (∃ struct, artifact = .dataset struct) ∨ ∃ text, artifact = .version text := by
    intro artifact among
    obtain ⟨version, listed, among⟩ := List.mem_flatten.mp among
    obtain ⟨schema, _, given⟩ := Outcome.mapM_ok each version listed
    exact versionArtifacts_kinds given among
  have noFactory : ∀ factory, .factory factory ∉ versions.flatten := fun factory among => by
    simpa using elsewhere _ among
  have noStorer : ∀ function, .storer function ∉ versions.flatten := fun function among => by
    simpa using elsewhere _ among
  simp [noFactory, noStorer]

end Artifacts

/-- Every value in the datasets of a type has a type, where the storage classes are to hold it. -/
def Storable (model : Model) (id : RecordId) : Prop :=
  ∀ schema ∈ (model.record id).schemas, schema.external = none →
    ∀ dataset ∈ schema.datasets, dataset.external = none →
      ∀ entry ∈ dataset.entries, (sourceType? model entry.source).isSome

instance (model : Model) : DecidablePred (Storable model) := fun id =>
  inferInstanceAs (Decidable (∀ schema ∈ (model.record id).schemas, schema.external = none →
    ∀ dataset ∈ schema.datasets, dataset.external = none →
      ∀ entry ∈ dataset.entries, (sourceType? model entry.source).isSome))

theorem exists_artifacts (outer : String) {model : Model} {id : RecordId}
    (storable : Storable model id) : ∃ list, artifacts outer model id = .ok list := by
  have each : ∀ schema ∈ schemasByVersion model id,
      ∃ list, versionArtifacts outer model id schema = .ok list := by
    intro schema listed
    rw [schemasByVersion, List.mem_mergeSort] at listed
    rw [versionArtifacts]
    split
    · exact ⟨_, rfl⟩
    · rename_i generated
      have inside : schema.external = none := by simpa using generated
      have structs : ∀ dataset ∈ schema.datasets,
          ∃ list, datasetArtifacts outer model id schema.version dataset = .ok list := by
        intro dataset among
        rw [datasetArtifacts]
        split
        · exact ⟨_, rfl⟩
        · rename_i generated
          have own : dataset.external = none := by simpa using generated
          have values : ∀ entry ∈ dataset.entries,
              ∃ value, storedValue model id entry = .ok value := by
            intro entry member
            obtain ⟨type, found⟩ := Option.isSome_iff_exists.mp
              (storable schema listed inside dataset among own entry member)
            exact ⟨_, by rw [storedValue, found]⟩
          obtain ⟨values, made⟩ := Outcome.exists_mapM values
          exact ⟨_, by rw [made]; rfl⟩
      obtain ⟨structs, made⟩ := Outcome.exists_mapM structs
      exact ⟨_, by rw [made]; rfl⟩
  obtain ⟨versions, made⟩ := Outcome.exists_mapM each
  exact ⟨_, by rw [artifacts, made]; rfl⟩

/-- If the types that are visited can be stored, a run succeeds. -/
theorem exists_run (options : Options) {model : Model} (outer : Option String)
    (storable : ∀ id ∈ visited model, Storable model id) :
    ∃ generated, (run model (backend options) outer).run.run () = (.ok generated, ()) := by
  have each : ∀ step ∈ steps model (backend options).brackets outer, ∀ output state,
      (turn output.scopes step).isSome →
        ∃ after later,
          (Traversal.step model (backend options) output step).run.run state = (.ok after, later) := by
    intro step listed output state possible
    cases step with
    | record id =>
      have visit : id ∈ visited model := by
        rw [← filterMap_steps model (backend options).brackets outer]
        exact List.mem_filterMap.mpr ⟨_, listed, rfl⟩
      obtain ⟨list, made⟩ := exists_artifacts options.interfaceNamespace (storable id visit)
      have hook : (backend options).visitRecord model id =
          pure ((list.map Artifact.render).foldl (· ++ ·) {}) := by
        simp only [backend, made]
      exact ⟨_, state, by rw [Traversal.step, hook]; rfl⟩
    | closeNamespace =>
      obtain ⟨generated, scopes⟩ := output
      cases scopes with
      | nil => cases possible
      | cons name rest => exact ⟨_, state, rfl⟩
    | _ => exact ⟨_, state, rfl⟩
  obtain ⟨generated, _, ran⟩ := run_total outer () each
  exact ⟨generated, ran⟩

/-- What a run has written for a type: the texts of these artifacts, one after the other, while some
namespaces were open, innermost first. -/
def Wrote (options : Options) (model : Model) (outer : Option String) (generated : Generated)
    (id : RecordId) (scopes : List String) (list : List Artifact) : Prop :=
  ∃ (front back : List Step) (before : Output) (after : Generated),
    steps model true outer = front ++ .record id :: back ∧
      (front.foldlM (step model (backend options)) {}).run.run () = (.ok before, ()) ∧
      before.scopes = scopes ∧
      generated = before.generated ++ (list.map Artifact.text).foldl (· ++ ·) {} ++ after

/-- A run that succeeds has written the artifacts of every type it visits, within the namespaces of
the packages around the type. -/
theorem run_wrote {options : Options} {model : Model} (wellScoped : model.WellScoped)
    {outer : Option String} {generated : Generated}
    (ran : (run model (backend options) outer).run.run () = (.ok generated, ())) {id : RecordId}
    (listed : id ∈ visited model) :
    ∃ list, artifacts options.interfaceNamespace model id = .ok list ∧
      Wrote options model outer generated id (namespacesAround model id ++ outer.toList) list := by
  rw [← filterMap_steps model true outer] at listed
  obtain ⟨step, among, visit⟩ := List.mem_filterMap.mp listed
  have same : step = .record id := by
    cases step <;> cases visit
    rfl
  subst same
  obtain ⟨front, back, split⟩ := List.append_of_mem among
  obtain ⟨before, text, after, _, _, first, scopes, called, whole⟩ := run_visit ran split
  have around := steps_visitsWithin wellScoped outer front id back split
  have open_ : before.scopes = namespacesAround model id ++ outer.toList :=
    Option.some.inj (scopes.symm.trans around)
  simp only [backend] at called
  split at called
  · rename_i list made
    cases called
    have texts : list.map Artifact.render = list.map Artifact.text :=
      List.map_congr_left fun artifact _ => artifact.render_eq
    exact ⟨list, made, front, back, before, after, split, first, open_, texts ▸ whole⟩
  · cases called

end StorageClasses

namespace Dispatch

open Dispatcher StorageClasses Traversal

/-- The dispatcher by type name leads some name to a type. -/
def Dispatched (model : Model) (id : RecordId) : Prop :=
  ∃ name, (nameSwitch (nameClaims model (visited model)).1).1.target? name = some id

/-- Only types that are visited and go by a name are dispatched. -/
theorem Dispatched.goesBy {model : Model} {id : RecordId} (dispatched : Dispatched model id) :
    id ∈ visited model ∧ ∃ name, GoesBy model name id := by
  obtain ⟨name, led⟩ := dispatched
  obtain ⟨own, held⟩ := lookup_of_target? _ led
  rw [lookup_nameClaims] at held
  exact ⟨List.mem_of_find?_eq_some held, own, by simpa using List.find?_some held⟩

private theorem dispatched_of_find? {model : Model} {name : String} {id : RecordId}
    (first : (visited model).find? (GoesBy model name) = some id) : Dispatched model id := by
  rw [← lookup_nameClaims] at first
  exact ⟨name, (target?_nameSwitch _ (first ▸ rfl)).trans first⟩

/-- A call of the dispatcher reaches a factory if and only if there is a schema to make proxies for:
both go by the same config types. -/
theorem exists_reached {options : Dispatcher.Options} {model : Model} {id : RecordId}
    {call : FactoryCall} (called : call ∈ factoryCalls options model id) :
    (∃ factory ∈ factories options.interfaceNamespace model id,
        call.Reaches (namespacesAround model id) factory) ↔
      ∃ schema ∈ (model.record id).schemas, schema.embedded = false := by
  constructor
  · rintro ⟨factory, listed, _⟩
    exact (mem_factories.mp listed).1
  · intro proxied
    have function : factoryName model id = Cpp.inNamespace
        (some ("::".intercalate (namespacesAround model id).reverse))
        ("make_" ++ Cpp.className model id) := by
      rw [factoryName, Cpp.namespaceOf, packageChain, namespacesAround, List.map_reverse]
    have config : ∃ config, call = factoryCall options model id config ∧
        config.map (Dispatcher.interfaceName options model) ∈
          factoryConfigs options.interfaceNamespace model id := by
      rw [factoryCalls] at called
      rw [factoryConfigs]
      cases configs : (model.record id).configs with
      | nil =>
        rw [configs] at called
        exact ⟨_, List.mem_singleton.mp called, List.mem_singleton.mpr rfl⟩
      | cons first rest =>
        rw [configs] at called
        obtain ⟨config, listed, rfl⟩ := List.mem_map.mp called
        exact ⟨_, rfl, List.mem_map.mpr ⟨config, listed, rfl⟩⟩
    obtain ⟨config, rfl, listed⟩ := config
    exact ⟨_, mem_factories.mpr ⟨proxied, _, listed, rfl⟩, function, rfl, rfl⟩

section Built

variable {units : List SourceUnit} {built : Built}

/-- Of the factories that the dispatcher by type name calls, the storage classes declare and define
those of the types that have a schema that is not embedded, in the namespaces of their packages. -/
theorem build_factory (accepted : build units = .ok built) (options : Dispatcher.Options)
    (storage : StorageClasses.Options)
    (same : storage.interfaceNamespace = options.interfaceNamespace) (outer : Option String)
    (storable : ∀ id ∈ visited built.model, Storable built.model id) :
    ∃ generated,
      (run built.model (StorageClasses.backend storage) outer).run.run () = (.ok generated, ()) ∧
      ∀ id, Dispatched built.model id →
        ∃ list, artifacts storage.interfaceNamespace built.model id = .ok list ∧
          Wrote storage built.model outer generated id
            (namespacesAround built.model id ++ outer.toList) list ∧
          ∀ call ∈ factoryCalls options built.model id,
            (∃ factory, .factory factory ∈ list ∧
                call.Reaches (namespacesAround built.model id) factory) ↔
              ∃ schema ∈ (built.model.record id).schemas, schema.embedded = false := by
  obtain ⟨stages⟩ := build_stages accepted
  obtain ⟨generated, ran⟩ := exists_run storage outer storable
  refine ⟨generated, ran, fun id dispatched => ?_⟩
  obtain ⟨list, made, wrote⟩ := run_wrote stages.sound.toWellScoped ran dispatched.goesBy.1
  refine ⟨list, made, wrote, fun call called => ?_⟩
  rw [← exists_reached called, ← same]
  exact exists_congr fun factory => and_congr_left' ((function_mem_artifacts made).1 factory)

end Built

/-- A type with two config types and versions of which one is embedded, and a type that is embedded
throughout. -/
def embeddedUnits : List SourceUnit :=
  let attributes : List Declaration.Attribute := [{ name := "value", typeName := some "uint32_t" }]
  let types : List Declaration.Record :=
    [{ name := "Old", attributes }, { name := "New", attributes },
      { name := "Frame", configs := ["Old", "New"], attributes,
        schemas := [{ version := 1, tags := ["embedded"] }, { version := 2 }] },
      { name := "Part", attributes, schemas := [{ version := 1, tags := ["embedded"] }] }]
  [{ document := { packages := [.mk "Sample" none [] [] [] [] types] } }]

theorem build_factory_sample : ∃ built generated, build embeddedUnits = .ok built ∧
    (run built.model (StorageClasses.backend {}) none).run.run () = (.ok generated, ()) ∧
    Dispatched built.model ⟨2⟩ ∧ (factoryCalls {} built.model ⟨2⟩).length = 2 ∧
    ∀ call ∈ factoryCalls {} built.model ⟨2⟩, ∃ list factory,
      Wrote {} built.model none generated ⟨2⟩ ["Sample"] list ∧ .factory factory ∈ list ∧
        call.Reaches ["Sample"] factory := by
  have computed : ∃ built, build embeddedUnits = .ok built ∧
      (∀ id ∈ visited built.model, Storable built.model id) ∧
      (visited built.model).find? (GoesBy built.model "Sample::Frame") = some ⟨2⟩ ∧
      (factoryCalls {} built.model ⟨2⟩).length = 2 ∧
      namespacesAround built.model ⟨2⟩ = ["Sample"] ∧
      ∃ schema ∈ (built.model.record ⟨2⟩).schemas, schema.embedded = false :=
    exists_built (by decide +kernel)
  obtain ⟨built, accepted, storable, first, length, around, proxied⟩ := computed
  have dispatched := dispatched_of_find? first
  obtain ⟨generated, ran, written⟩ := build_factory accepted {} {} rfl none storable
  obtain ⟨list, _, wrote, reached⟩ := written ⟨2⟩ dispatched
  refine ⟨built, generated, accepted, ran, dispatched, length, fun call called => ?_⟩
  obtain ⟨factory, listed, reaches⟩ := (reached call called).mpr proxied
  rw [around] at wrote reaches
  exact ⟨list, factory, wrote, listed, reaches⟩

/-- The dispatcher calls the factory of a type that is embedded throughout, which the storage classes
do not have. -/
theorem build_not_factory : ∃ built, build embeddedUnits = .ok built ∧
    (∀ id ∈ visited built.model, Storable built.model id) ∧
    ¬ ∀ id, Dispatched built.model id → ∀ call ∈ factoryCalls {} built.model id,
      ∃ list factory, artifacts "Psana" built.model id = .ok list ∧ .factory factory ∈ list ∧
        call.Reaches (namespacesAround built.model id) factory := by
  have computed : ∃ built, build embeddedUnits = .ok built ∧
      (∀ id ∈ visited built.model, Storable built.model id) ∧
      (visited built.model).find? (GoesBy built.model "Sample::Part") = some ⟨3⟩ ∧
      (built.model.record ⟨3⟩).configs = [] ∧
      ∀ schema ∈ (built.model.record ⟨3⟩).schemas, schema.embedded = true :=
    exists_built (by decide +kernel)
  obtain ⟨built, accepted, storable, first, free, embedded⟩ := computed
  refine ⟨built, accepted, storable, fun all => ?_⟩
  have called : factoryCall {} built.model ⟨3⟩ none ∈ factoryCalls {} built.model ⟨3⟩ := by
    rw [factoryCalls, free]
    exact List.mem_singleton_self _
  obtain ⟨list, factory, made, listed, _⟩ := all ⟨3⟩ (dispatched_of_find? first) _ called
  obtain ⟨⟨schema, among, proxied⟩, _⟩ := mem_factories.mp (((function_mem_artifacts made).1 _).mp listed)
  rw [embedded schema among] at proxied
  cases proxied

end Dispatch

end RecordSchema
