import RecordSchema.Proofs.Resolution.Registration
import RecordSchema.Proofs.Resolution.DottedNames
import RecordSchema.Proofs.Resolution.Uniqueness
import RecordSchema.Proofs.Storage.Defaults
import RecordSchema.Report

/-!
# What a report contains

A report is gathered from two tables by their marks, not by a walk through packages. Still nothing is
missing and nothing is there twice: the packages are those that primary units open, and below each of them
are the record types that primary units declare there, in the order of registration. No record type is lost
to the mark of its package, because what declares it opens the package too.
-/

set_option autoImplicit false

namespace RecordSchema

open Model Outcome

/-!
## Registered record types
-/

theorem Model.Retains.registration {view : Record → Record} {before after : Model}
    (same : Retains view before after) (package : ∀ record, (view record).package = record.package)
    (mark : ∀ record, (view record).included = record.included)
    (pending : Pending RecordId Declaration.Record) :
    Draft.registration after pending = Draft.registration before pending := by
  rw [Draft.registration, Draft.registration, same.packageNames, same.field Record.package package,
    same.field Record.included mark]

namespace Stages

variable {units : List SourceUnit} {built : Built} (stages : Stages units built)

include stages

private theorem registrations_eq :
    registrations units = stages.draft.records.toList.map (Draft.registration built.model) := by
  rw [← Draft.ofUnits_registered stages.named, Draft.registered]
  exact List.map_congr_left fun pending _ =>
    (stages.retained.registration (fun _ => rfl) (fun _ => rfl) pending).symm

theorem recordIds : built.model.recordIds = stages.draft.records.toList.map (·.id) := by
  rw [Model.recordIds, stages.retained.records, ← stages.represents.recordIds, List.map_map]
  rfl

private theorem getElem_registrations {pending : Pending RecordId Declaration.Record}
    (waits : pending ∈ stages.draft.records.toList) :
    (registrations units)[pending.id.index]? =
      some (Draft.registration built.model pending) := by
  obtain ⟨position, bound, rfl⟩ := List.getElem_of_mem waits
  have counted := congrArg (·[position]?) stages.represents.recordIds
  have inside : position < stages.draft.model.records.size := by
    have sizes := congrArg List.length stages.represents.recordIds
    rw [List.length_map, List.length_range] at sizes
    exact sizes ▸ bound
  simp only [List.getElem?_map, List.getElem?_eq_getElem bound, Option.map_some,
    List.getElem?_range inside, Option.some.injEq] at counted
  rw [stages.registrations_eq, List.getElem?_map, counted, List.getElem?_eq_getElem bound,
    Option.map_some]

end Stages

/-!
## Attributes and schemas
-/

namespace Resolution

/-- Record types that have been taken show the attributes that they declare, and the others show none. -/
structure ShowDeclared (headed : Model) (seen : List (Pending RecordId Declaration.Record))
    (state : Model) : Prop where
  step : Step headed state
  declared : ∀ pending ∈ seen,
    attributeNames state pending.id = pending.declaration.attributes.map (·.name)
  others : ∀ id, id ∉ seen.map (·.id) → attributeNames state id = []

theorem ShowDeclared.resolveAttributes {headed state after : Model}
    {seen : List (Pending RecordId Declaration.Record)} (shows : ShowDeclared headed seen state)
    {pending : Pending RecordId Declaration.Record} (inside : pending.id.index < state.records.size)
    (fresh : pending.id ∉ seen.map (·.id))
    (accepted : Resolution.resolveAttributes state pending = .ok after) :
    ShowDeclared headed (seen ++ [pending]) after := by
  obtain ⟨fills, -⟩ := resolveAttributes_fills shows.step.sound inside accepted
  have kept : ∀ id, id ≠ pending.id → attributeNames after id = attributeNames state id := by
    intro id different
    rw [attributeNames_eq, fills.others id different, ← attributeNames_eq]
  constructor
  case step => exact shows.step.trans fills.toStep
  case declared =>
    intro other listed
    rcases List.mem_append.mp listed with earlier | last
    · rw [kept other.id fun same => fresh (same ▸ List.mem_map_of_mem earlier)]
      exact shows.declared other earlier
    · rw [List.mem_singleton.mp last, resolveAttributes_appends shows.step.sound inside accepted,
        shows.others pending.id fresh, List.nil_append]
  case others =>
    intro id outside
    rw [List.map_append, List.mem_append, not_or] at outside
    rw [kept id fun same => outside.2 (List.mem_singleton.mpr same)]
    exact shows.others id outside.1

theorem Passes.attributeNames {draft : Draft} {built : Built} (passes : Passes draft built)
    (consistent : draft.Consistent) (distinct : (draft.records.toList.map (·.id)).Nodup)
    {pending : Pending RecordId Declaration.Record} (waits : pending ∈ draft.records.toList) :
    attributeNames built.model pending.id = pending.declaration.attributes.map (·.name) := by
  have start : ShowDeclared passes.headed [] passes.withEnumerations :=
    ⟨passes.enumerations_step consistent, by simp, fun id _ => passes.attributeNames_before consistent id⟩
  have whole := foldlM_invariant passes.attributes (ShowDeclared passes.headed) start <| by
    intro seen current rest state after split shows taken
    have inside : current.id.index < state.records.size :=
      shows.step.records ▸ (passes.isHeaded consistent).records current (split ▸ by simp)
    have fresh : current.id ∉ seen.map (·.id) := by
      rw [split, List.map_append, List.nodup_append] at distinct
      exact fun earlier => distinct.2.2 _ earlier _ List.mem_cons_self rfl
    exact shows.resolveAttributes inside fresh taken
  rw [passes.attributeNames_kept consistent]
  exact whole.declared pending waits

end Resolution

/-- Names and versions of the schemas of a record type: one stands in where none is declared. -/
def Declaration.Record.schemaKeys (declaration : Declaration.Record) : List (String × UInt32) :=
  if declaration.schemas = [] then [("default", 0)]
  else declaration.schemas.map fun schema => (schema.name.getD "default", schema.version)

namespace Stages

variable {units : List SourceUnit} {built : Built} (stages : Stages units built)
  {pending : Pending RecordId Declaration.Record} (waits : pending ∈ stages.draft.records.toList)

include stages waits

theorem attributeNames :
    Resolution.attributeNames built.model pending.id = pending.declaration.attributes.map (·.name) := by
  obtain ⟨passes⟩ := Resolution.resolveDeclarations_passes stages.resolution
  have distinct : (stages.draft.records.toList.map (·.id)).Nodup :=
    stages.recordIds ▸ Layout.recordIds_nodup built.model
  rw [stages.agree_derived.attributeNames,
    passes.attributeNames (Draft.ofUnits_consistent stages.named) distinct waits]

private theorem schemaKeys :
    (built.model.record pending.id).schemas.map (fun schema => (schema.name, schema.version)) =
      pending.declaration.schemaKeys := by
  obtain ⟨model, after, -, present, taken, same⟩ :=
    stages.resolvedSchemas (Array.mem_toList_iff.mp waits)
  obtain ⟨synthesized, declared⟩ := Resolution.resolveSchemas_ok present taken
  rw [same, Declaration.Record.schemaKeys]
  split
  · rename_i none
    rw [synthesized none]
    rfl
  · rename_i some
    have keys : List.Forall₂ (· = ·)
        ((after.record pending.id).schemas.map fun schema => (schema.name, schema.version))
        (pending.declaration.schemas.map fun schema =>
          (schema.name.getD "default", schema.version)) := by
      rw [List.forall₂_map_left_iff, List.forall₂_map_right_iff]
      exact (declared some).flip.imp fun _ _ resolved => (Resolution.resolveSchema_ok resolved).1
    exact List.forall₂_eq_eq_eq ▸ keys

end Stages

/-!
## Reports
-/

/-- What primary units declare in a package, in the order of registration. -/
def primaryRecords (units : List SourceUnit) (path : List String) : List Registration :=
  (registrations units).filter fun registration => registration.path = path && !registration.included

/-- A reported record type is the registered one, with its attributes and its schemas in order. -/
structure Report.Record.Tells (units : List SourceUnit) (model : Model) (reported : Report.Record)
    (registration : Registration) : Prop where
  registered : ∃ id : RecordId, (registrations units)[id.index]? = some registration ∧
    reported = Report.ofRecord model id
  name : reported.name = registration.declaration.name
  attributes : reported.attributes.map (·.name) = registration.declaration.attributes.map (·.name)
  schemas : reported.schemas.map (fun schema => (schema.name, schema.version)) =
    registration.declaration.schemaKeys

/-- A reported package tells of all that primary units declare in it, and of nothing else. -/
structure Report.Package.Tells (units : List SourceUnit) (model : Model) (reported : Report.Package)
    (path : List String) : Prop where
  name : reported.name = ".".intercalate path
  records : List.Forall₂ (Report.Record.Tells units model) reported.records (primaryRecords units path)

/-- A report tells, in one place each, of the packages that primary units open. They are all the packages
in which primary units declare record types. -/
structure Report.Tells (units : List SourceUnit) (model : Model) (report : Report)
    (paths : List (List String)) : Prop where
  distinct : paths.Nodup
  opened : ∀ path, path ∈ paths ↔ ∃ source ∈ units, source.included = false ∧ source.Opens path
  declared : ∀ registration ∈ registrations units, registration.included = false →
    registration.path ∈ paths
  packages : List.Forall₂ (Report.Package.Tells units model) report.packages paths
  names : (report.packages.map (·.name)).Nodup

namespace Stages

variable {units : List SourceUnit} {built : Built} (stages : Stages units built)

include stages

private theorem ofRecord_tells {pending : Pending RecordId Declaration.Record}
    (waits : pending ∈ stages.draft.records.toList) :
    (Report.ofRecord built.model pending.id).Tells units built.model
      (Draft.registration built.model pending) where
  registered := ⟨pending.id, stages.getElem_registrations waits, rfl⟩
  name := (stages.declaredAs_iff.mpr ⟨pending, Array.mem_toList_iff.mp waits, rfl, rfl⟩).name
  attributes := (List.map_map ..).trans (stages.attributeNames waits)
  schemas := (List.map_map ..).trans (stages.schemaKeys waits)

/-- Paths tell packages apart, so the report of a package has the types that are registered at its path. -/
theorem ofPackage_tells {id : PackageId} (inside : id.index < built.model.packages.size) :
    (Report.ofPackage built.model id).Tells units built.model (built.model.packageNames id) where
  name := rfl
  records := by
    rw [Report.ofPackage, Report.recordsOf, stages.recordIds, primaryRecords, stages.registrations_eq,
      List.filter_map, List.filter_map, List.map_map]
    have same : ∀ pending ∈ stages.draft.records.toList,
        ((built.model.record pending.id).package = id ↔
          (Draft.registration built.model pending).path = built.model.packageNames id) := by
      intro pending waits
      have held := (stages.declaredAs_iff.mpr ⟨pending, Array.mem_toList_iff.mp waits, rfl, rfl⟩).inside
      refine ⟨congrArg built.model.packageNames, fun path => ?_⟩
      exact stages.wellNamed.packageNames_injective (stages.sound.closed.record held).package inside path
    have chosen : stages.draft.records.toList.filter ((fun record =>
        (built.model.record record).package = id && !(built.model.record record).included) ∘ (·.id)) =
      stages.draft.records.toList.filter ((fun registration =>
        registration.path = built.model.packageNames id && !registration.included) ∘
          Draft.registration built.model) :=
      List.filter_congr fun pending waits =>
        congrArg (· && !(built.model.record pending.id).included)
          (decide_eq_decide.mpr (same pending waits))
    rw [chosen, List.forall₂_map_left_iff, List.forall₂_map_right_iff, List.forall₂_same]
    exact fun pending member => stages.ofRecord_tells (List.mem_of_mem_filter member)

end Stages

/-!
## Packages of a report
-/

private theorem Model.mem_packageIds {model : Model} {id : PackageId} :
    id ∈ model.packageIds ↔ id.index < model.packages.size := by
  rw [Model.packageIds, List.mem_map]
  constructor
  · rintro ⟨index, listed, rfl⟩
    exact List.mem_range.mp listed
  · exact fun inside => ⟨id.index, List.mem_range.mpr inside, rfl⟩

def reportedPackages (model : Model) : List PackageId :=
  model.packageIds.filter fun id => !(model.package id).included

private theorem mem_reportedPackages {model : Model} {id : PackageId} :
    id ∈ reportedPackages model ↔
      id.index < model.packages.size ∧ (model.package id).included = false := by
  rw [reportedPackages, List.mem_filter, mem_packageIds, Bool.not_eq_true']

private theorem reportedPackages_nodup (model : Model) : (reportedPackages model).Nodup :=
  (List.nodup_range.map fun _ _ same => congrArg PackageId.index same).filter _

namespace Stages

variable {units : List SourceUnit} {built : Built} (stages : Stages units built)

include stages

private theorem reportedPaths_nodup :
    ((reportedPackages built.model).map built.model.packageNames).Nodup := by
  refine (reportedPackages_nodup built.model).map_on fun one listed other listed' same => ?_
  exact stages.wellNamed.packageNames_injective (mem_reportedPackages.mp listed).1
    (mem_reportedPackages.mp listed').1 same

private theorem mem_reportedPaths {path : List String} :
    path ∈ (reportedPackages built.model).map built.model.packageNames ↔
      ∃ source ∈ units, source.included = false ∧ source.Opens path := by
  rw [List.mem_map]
  constructor
  · rintro ⟨id, listed, rfl⟩
    obtain ⟨inside, primary⟩ := mem_reportedPackages.mp listed
    exact (stages.inclusion.package id inside).mp primary
  · rintro ⟨source, member, mark, opens⟩
    have said : Item.package path source.included ∈ Item.ofUnits units :=
      List.mem_flatMap.mpr ⟨source, member, opens⟩
    obtain ⟨id, present, named⟩ := (stages.represents.packages path).mp ⟨_, said⟩
    have inside : id.index < built.model.packages.size := stages.retained.packages ▸ present
    have path : built.model.packageNames id = path := (stages.retained.packageNames id).trans named
    refine ⟨id, mem_reportedPackages.mpr ⟨inside, ?_⟩, path⟩
    exact (stages.inclusion.package id inside).mpr ⟨source, member, mark, path ▸ opens⟩

/-- No primary record type stands in a package that is left out. -/
theorem path_mem_reportedPaths {registration : Registration} (listed : registration ∈ registrations units)
    (primary : registration.included = false) :
    registration.path ∈ (reportedPackages built.model).map built.model.packageNames := by
  rw [stages.registrations_eq] at listed
  obtain ⟨pending, waits, rfl⟩ := List.mem_map.mp listed
  have inside := (stages.declaredAs_iff.mpr ⟨pending, Array.mem_toList_iff.mp waits, rfl, rfl⟩).inside
  have outer := stages.inclusion.enclosing stages.sound.closed inside primary _
    (built.model.self_mem_enclosing _)
  exact List.mem_map_of_mem
    (mem_reportedPackages.mpr ⟨(stages.sound.closed.record inside).package, outer⟩)

private theorem reportedPaths_undotted {path : List String}
    (listed : path ∈ (reportedPackages built.model).map built.model.packageNames) :
    ∀ name ∈ path, '.' ∉ name.toList := by
  obtain ⟨source, member, _, opens⟩ := stages.mem_reportedPaths.mp listed
  exact Item.ofUnits_undotted units _ (List.mem_flatMap.mpr ⟨source, member, opens⟩)

end Stages

/-- A report lists, once and under its dotted path, every package that a primary unit opens, and in it the
record types that primary units declare there, each once and in the order of registration. A record type
has one entry for each attribute and for each schema, in order. Nothing else is in a report. -/
theorem report_contents {units : List SourceUnit} {built : Built} (accepted : build units = .ok built) :
    ∃ paths, (Report.ofModel built.model).Tells units built.model paths := by
  obtain ⟨stages⟩ := build_stages accepted
  refine ⟨(reportedPackages built.model).map built.model.packageNames, ?_⟩
  constructor
  case distinct => exact stages.reportedPaths_nodup
  case opened => exact fun path => stages.mem_reportedPaths
  case declared => exact fun registration => stages.path_mem_reportedPaths
  case packages =>
    refine List.forall₂_map_left_iff.mpr (List.forall₂_map_right_iff.mpr ?_)
    exact List.forall₂_same.mpr fun id listed =>
      stages.ofPackage_tells (mem_reportedPackages.mp listed).1
  case names =>
    have names : (Report.ofModel built.model).packages.map (·.name) =
        ((reportedPackages built.model).map built.model.packageNames).map (".".intercalate ·) := by
      rw [Report.ofModel, List.map_map, List.map_map]
      rfl
    have nonempty : ∀ path ∈ (reportedPackages built.model).map built.model.packageNames, path ≠ [] :=
      List.forall_mem_map.mpr fun id _ => packageNames_ne_nil id
    rw [names]
    refine stages.reportedPaths_nodup.map_on fun path listed other listed' same => ?_
    exact dotted_injective (nonempty path listed) (nonempty other listed')
      (stages.reportedPaths_undotted listed) (stages.reportedPaths_undotted listed') same

/-- An included unit with a package of its own and with a record type in a package that primary units open
too, by itself and on the way to a dotted one. One record type has two schemas. -/
def mixedUnits : List SourceUnit :=
  let schemas : List Declaration.StorageSchema :=
    [{ name := some "late", version := 2 }, { version := 1 }]
  let frame : Declaration.Record :=
    { name := "Frame", schemas
      attributes := [{ name := "_width", typeName := some "uint8_t" },
        { name := "_height", typeName := some "uint16_t" }] }
  [{ included := true,
     document := { packages := [.mk "Remote" none [] [] [] [] [{ name := "Far" }],
       .mk "Sample" none [] [] [] [] [{ name := "Guest" }]] } },
    { document := { packages := [.mk "Sample.Deep" none [] [] [] [] [{ name := "Near" }]] } },
    { document := { packages := [.mk "Sample" none [] [] []
        [.mk "Deep" none [] [] [] [] [{ name := "Next" }]] [frame, { name := "Last" }]] } }]

/-- The names in a report, one list for each record type: its package, its own, those of its attributes and
those of its schemas. -/
def Report.nameLists (report : Report) : List (List String) :=
  report.packages.flatMap fun package => package.records.map fun record =>
    package.name :: record.name :: (record.attributes.map (·.name) ++ record.schemas.map (·.name))

theorem report_contents_sample : ∃ built, build mixedUnits = .ok built ∧
    (Report.ofModel built.model).nameLists =
      [["Sample", "Frame", "_width", "_height", "late", "default"], ["Sample", "Last", "default"],
        ["Sample.Deep", "Near", "default"], ["Sample.Deep", "Next", "default"]] ∧
    ∃ paths, (Report.ofModel built.model).Tells mixedUnits built.model paths := by
  have computed : ∃ built, build mixedUnits = .ok built ∧ (Report.ofModel built.model).nameLists =
      [["Sample", "Frame", "_width", "_height", "late", "default"], ["Sample", "Last", "default"],
        ["Sample.Deep", "Near", "default"], ["Sample.Deep", "Next", "default"]] :=
    exists_built (by decide +kernel)
  obtain ⟨built, accepted, listed⟩ := computed
  exact ⟨built, accepted, listed, report_contents accepted⟩

end RecordSchema
