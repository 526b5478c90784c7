import RecordSchema.Proofs.Storage.Schemas

/-!
# Schemas that stand in

The schemas of a type are what its declarations of schemas come to in the model that is built. A type that
declares none has one all the same, and a schema that is marked as default and declares no datasets has one
too: it stores the attributes of the type in their order, each under the name of its accessor.
-/

set_option autoImplicit false

namespace RecordSchema

open Model Outcome

namespace Outcome

/-- Steps that each add one result at the end add as many results as they are. -/
theorem foldlM_concat {α β ε : Type} {items : List α} {step : List β → α → Except ε (List β)}
    {relates : α → β → Prop} {before after : List β} (accepted : items.foldlM step before = .ok after)
    (adds : ∀ item ∈ items, ∀ before after, step before item = .ok after →
      ∃ result, after = before ++ [result] ∧ relates item result) :
    ∃ results, after = before ++ results ∧ List.Forall₂ relates items results := by
  induction items generalizing before with
  | nil =>
    cases accepted
    exact ⟨[], by simp, .nil⟩
  | cons first rest ih =>
    obtain ⟨here, others⟩ := List.forall_mem_cons.mp adds
    rw [List.foldlM_cons] at accepted
    obtain ⟨between, taken, accepted⟩ := bind_ok accepted
    obtain ⟨result, rfl, related⟩ := here before between taken
    obtain ⟨results, rfl, more⟩ := ih accepted others
    exact ⟨result :: results, by simp, .cons related more⟩

end Outcome

namespace Resolution

/-!
## Schemas and what they are resolved from
-/

/-- The schema of a type that declares none. -/
def synthesizedSchema (model : Model) (owner : RecordId) : StorageSchema :=
  { name := defaultSchemaName, version := 0, isDefault := true,
    datasets := defaultDatasets model owner }

section Agreement

variable {before after : Model} (agree : Agree .schemas before after) (owner : RecordId)

include agree

theorem attributeEntry_agree : attributeEntry after = attributeEntry before := by
  funext id
  simp only [attributeEntry, accessorName, show after.attr id = before.attr id from agree.attr id,
    show ∀ id, after.method id = before.method id from agree.method]

private theorem defaultDatasets_agree : defaultDatasets after owner = defaultDatasets before owner := by
  have attributes := agree.recordField Record.attributes (fun _ => rfl) owner
  rw [defaultDatasets, defaultDatasets, attributes, attributeEntry_agree agree]

theorem resolveEntry_agree : resolveEntry after owner = resolveEntry before owner := by
  funext path declaration
  have attr : ∀ id, after.attr id = before.attr id := agree.attr
  have method : ∀ id, after.method id = before.method id := agree.method
  have source : ∀ name, entrySource? after owner name = entrySource? before owner name := fun name => by
    simp only [entrySource?, agree.ofSchemas.findMethod?, agree.ofSchemas.findAttribute?, method]
  have reader : sourceMethod after = sourceMethod before := by
    funext name source
    cases source <;> simp only [sourceMethod, attr, method]
  rw [resolveEntry, resolveEntry, source, reader]

private theorem resolveSchema_agree : resolveSchema after owner = resolveSchema before owner := by
  have add : addDataset after owner = addDataset before owner := by
    funext path datasets declaration
    rw [addDataset, addDataset, resolveEntry_agree agree]
  funext path declaration
  rw [resolveSchema, resolveSchema, add, defaultDatasets_agree agree]

end Agreement

section Lists

variable {model : Model} {owner : RecordId}

private theorem addDataset_concat {path : String} {before after : List Dataset}
    {declaration : Declaration.Dataset} (accepted : addDataset model owner path before declaration = .ok after) :
    ∃ dataset, after = before ++ [dataset] ∧ dataset.name = declaration.name ∧
      declaration.entries.mapM (resolveEntry model owner (path ++ "." ++ declaration.name)) =
        .ok dataset.entries := by
  simp only [addDataset, bind, Except.bind] at accepted
  split at accepted
  · cases accepted
  · obtain ⟨entries, read, accepted⟩ := bind_ok accepted
    cases accepted
    exact ⟨_, rfl, foldl_applyDatasetTag_name _ _, read⟩

private theorem addSchema_concat {path : String} {before after : List StorageSchema}
    {declaration : Declaration.StorageSchema}
    (accepted : addSchema model owner path before declaration = .ok after) :
    ∃ schema, after = before ++ [schema] ∧ resolveSchema model owner path declaration = .ok schema := by
  simp only [addSchema] at accepted
  obtain ⟨schema, resolved, accepted⟩ := bind_ok accepted
  split at accepted
  · cases accepted
  · cases accepted
    exact ⟨schema, rfl, resolved⟩

private theorem applySchemaTag_isDefault (schema : StorageSchema) (tag : Tag) :
    (applySchemaTag schema tag).isDefault = true ↔ schema.isDefault = true ∨ ⟨"default", none⟩ = tag := by
  obtain ⟨name, argument⟩ := tag
  unfold applySchemaTag
  split <;> grind

private theorem applySchemaTag_kept (schema : StorageSchema) (tag : Tag) :
    schemaKey (applySchemaTag schema tag) = schemaKey schema := by
  unfold applySchemaTag
  split <;> rfl

/-- A schema is default if the tag for it stands anywhere among its tags, without an argument. -/
theorem foldl_applySchemaTag (tags : List Tag) (schema : StorageSchema) :
    schemaKey (tags.foldl applySchemaTag schema) = schemaKey schema ∧
      ((tags.foldl applySchemaTag schema).isDefault = true ↔
        schema.isDefault = true ∨ ⟨"default", none⟩ ∈ tags) := by
  induction tags generalizing schema with
  | nil => simp
  | cons tag rest ih =>
    obtain ⟨kept, marked⟩ := ih (applySchemaTag schema tag)
    rw [List.foldl_cons]
    constructor
    · rw [kept, applySchemaTag_kept]
    · rw [marked, applySchemaTag_isDefault, List.mem_cons, or_assoc]

/-- What a dataset is resolved from. -/
def Resolves (model : Model) (owner : RecordId) (declared : Declaration.Dataset) (dataset : Dataset) :
    Prop :=
  dataset.name = declared.name ∧ ∃ path,
    declared.entries.mapM (resolveEntry model owner path) = .ok dataset.entries

theorem resolveSchema_ok {path : String} {declaration : Declaration.StorageSchema}
    {schema : StorageSchema} (accepted : resolveSchema model owner path declaration = .ok schema) :
    schemaKey schema = (declaration.name.getD defaultSchemaName, declaration.version) ∧
      (schema.isDefault = true ↔ ⟨"default", none⟩ ∈ Tag.parseAll declaration.tags) ∧
      ∃ datasets, List.Forall₂ (Resolves model owner) declaration.datasets datasets ∧
        schema.datasets =
          if schema.isDefault && datasets.isEmpty then defaultDatasets model owner else datasets := by
  simp only [resolveSchema] at accepted
  obtain ⟨datasets, added, accepted⟩ := bind_ok accepted
  have concat : ∀ declared ∈ declaration.datasets, ∀ before after : List Dataset,
      addDataset model owner (path ++ "." ++ declaration.name.getD defaultSchemaName) before declared =
        .ok after → ∃ dataset, after = before ++ [dataset] ∧ Resolves model owner declared dataset := by
    intro declared _ before after taken
    obtain ⟨dataset, same, name, entries⟩ := addDataset_concat taken
    exact ⟨dataset, same, name, _, entries⟩
  obtain ⟨_, rfl, related⟩ := foldlM_concat added concat
  obtain ⟨key, marked⟩ := foldl_applySchemaTag (Tag.parseAll declaration.tags)
    { name := declaration.name.getD defaultSchemaName, version := declaration.version }
  simp only [Bool.false_eq_true, false_or] at marked
  split at accepted
  · rename_i standing
    cases accepted
    exact ⟨key, marked, _, related, (if_pos standing).symm⟩
  · rename_i standing
    cases accepted
    exact ⟨key, marked, _, related, (if_neg standing).symm⟩

theorem resolveSchemas_ok {after : Model} {pending : Pending RecordId Declaration.Record}
    (inside : pending.id.index < model.records.size)
    (accepted : resolveSchemas model pending = .ok after) :
    (pending.declaration.schemas = [] →
        (after.record pending.id).schemas = [synthesizedSchema model pending.id]) ∧
      (pending.declaration.schemas ≠ [] →
        List.Forall₂ (fun declared schema =>
            resolveSchema model pending.id pending.path declared = .ok schema)
          pending.declaration.schemas (after.record pending.id).schemas) := by
  simp only [resolveSchemas] at accepted
  obtain ⟨found, added, accepted⟩ := bind_ok accepted
  cases accepted
  obtain ⟨_, rfl, related⟩ := foldlM_concat added fun _ _ _ _ taken => addSchema_concat taken
  rw [record_modifyRecord, if_pos ⟨rfl, inside⟩]
  constructor
  · intro undeclared
    rw [undeclared, List.forall₂_nil_left_iff] at related
    subst related
    rfl
  · intro declared
    dsimp only
    rw [if_neg]
    · exact related
    · intro empty
      rw [List.isEmpty_iff.mp empty, List.forall₂_nil_right_iff] at related
      exact declared related

end Lists

end Resolution

/-!
## What stands for a declaration
-/

/-- The units declare a record type, in its package, with its mark and under its name. -/
structure DeclaredAs (units : List SourceUnit) (model : Model) (id : RecordId)
    (declaration : Declaration.Record) : Prop where
  inside : id.index < model.records.size
  item : .declared (.package (model.packageNames (model.record id).package))
    (.record (model.record id).included declaration) ∈ Item.ofUnits units
  name : (model.record id).name = declaration.name

theorem Stages.declaredAs_iff {units : List SourceUnit} {built : Built} (stages : Stages units built)
    {id : RecordId} {declaration : Declaration.Record} :
    DeclaredAs units built.model id declaration ↔
      ∃ pending ∈ stages.draft.records, pending.id = id ∧ pending.declaration = declaration := by
  have represents := stages.represents
  have kept := stages.retained
  have place : stages.draft.model.site (stages.draft.model.home (.record id)) =
      .package (built.model.packageNames (built.model.record id).package) := by
    rw [kept.packageNames, kept.field Record.package fun _ => rfl]
    rfl
  have mark : (built.model.record id).included = (stages.draft.model.record id).included :=
    kept.field Record.included (fun _ => rfl) id
  have name : (built.model.record id).name = stages.draft.model.memberName (.record id) :=
    kept.field Record.name (fun _ => rfl) id
  constructor
  · intro declared
    have inside : (Member.record id).reference.InRange stages.draft.model.census :=
      Nat.lt_of_lt_of_eq declared.inside kept.records
    obtain ⟨member, waits, site⟩ := represents.declared_iff.mp declared.item
    have inRange := represents.consistent.waiting_inRange waits
    have key : stages.draft.model.key member = stages.draft.model.key (.record id) :=
      Prod.ext (site.trans place.symm)
        ((represents.names _ waits).trans (declared.name.symm.trans name))
    obtain rfl := represents.wellNamed.key_injective inRange inside key
    rcases Draft.mem_waiting.mp waits with
      ⟨pending, held, same, equal⟩ | ⟨_, _, other, _⟩ | ⟨_, _, other, _⟩
    · exact ⟨pending, held, (Member.record.inj same).symm, (Declared.record.inj equal).2.symm⟩
    · cases other
    · cases other
  · rintro ⟨pending, held, rfl, rfl⟩
    have waits := Draft.mem_waiting.mpr (.inl ⟨pending, held, rfl, rfl⟩)
    constructor
    case inside => exact Nat.lt_of_lt_of_eq (represents.consistent.records pending held) kept.records.symm
    case item => exact represents.declared_iff.mpr ⟨_, mark ▸ waits, place⟩
    case name => exact name.trans (represents.names _ waits)

/-- An entry stores an attribute, by way of its accessor. -/
structure StoresAttribute (model : Model) (attr : AttributeId) (entry : DatasetEntry) : Prop where
  accessor : ∃ method, (model.attr attr).accessor = some method ∧
    (model.method method).body = .attr attr ∧ entry.name = (model.method method).name ∧
      entry.method = (model.method method).name
  rank : entry.rank = (model.attr attr).rank
  tags : entry.tags = []
  source : entry.source = .attr attr

/-- A dataset stores the attributes of a type itself, in their order and under different names. -/
structure StoresOwn (model : Model) (id : RecordId) (dataset : Dataset) : Prop where
  name : dataset.name = "data"
  external : dataset.external = none
  tags : dataset.tags = []
  entries : List.Forall₂ (StoresAttribute model) (model.record id).attributes dataset.entries
  distinct : (dataset.entries.map DatasetEntry.name).Nodup

/-- What a declared schema comes to. -/
structure StandsFor (model : Model) (id : RecordId) (declared : Declaration.StorageSchema)
    (schema : StorageSchema) : Prop where
  name : schema.name = declared.name.getD "default"
  version : schema.version = declared.version
  marked : schema.isDefault = true ↔ ⟨"default", none⟩ ∈ Tag.parseAll declared.tags
  synthesized : schema.isDefault = true → declared.datasets = [] →
    ∃ dataset, schema.datasets = [dataset] ∧ StoresOwn model id dataset
  listed : schema.isDefault = false ∨ declared.datasets ≠ [] →
    schema.datasets.map Dataset.name = declared.datasets.map Declaration.Dataset.name

namespace Resolution

variable {model : Model} {owner : RecordId}

private theorem attributeEntry_stores (sound : model.Sound) {attr : AttributeId}
    (listed : attr ∈ (model.record owner).attributes) :
    StoresAttribute model attr (attributeEntry model attr) := by
  obtain ⟨method, -, accessor, body⟩ := sound.exists_accessor listed
  have name : model.accessorName (model.attr attr) = (model.method method).name := by
    rw [accessorName, accessor]
  exact ⟨⟨method, accessor, body, name, name⟩, rfl, rfl, rfl⟩

private theorem defaultDatasets_stores (owner : RecordId) (sound : model.Sound)
    (apart : MethodsApart model) :
    ∃ dataset, defaultDatasets model owner = [dataset] ∧ StoresOwn model owner dataset := by
  refine ⟨_, rfl, rfl, rfl, rfl, ?_, ?_⟩
  · rw [List.forall₂_map_right_iff, List.forall₂_same]
    exact fun attr listed => attributeEntry_stores sound listed
  · exact defaultDatasets_distinct sound apart _ (List.mem_singleton_self _)

private theorem resolveSchema_stands (sound : model.Sound) (apart : MethodsApart model) {path : String}
    {declaration : Declaration.StorageSchema} {schema : StorageSchema}
    (accepted : resolveSchema model owner path declaration = .ok schema) :
    StandsFor model owner declaration schema := by
  obtain ⟨key, marked, datasets, resolved, listed⟩ := resolveSchema_ok accepted
  obtain ⟨name, version⟩ := Prod.mk.inj key
  refine ⟨name, version, marked, fun default none => ?_, fun explicit => ?_⟩
  · rw [none, List.forall₂_nil_left_iff] at resolved
    rw [default, resolved] at listed
    have standing : schema.datasets = defaultDatasets model owner := listed
    exact standing ▸ defaultDatasets_stores owner sound apart
  · have kept : schema.datasets = datasets := by
      rw [listed, if_neg]
      intro both
      obtain ⟨default, empty⟩ := (Bool.and_eq_true_iff ..).mp both
      rw [List.isEmpty_iff.mp empty, List.forall₂_nil_right_iff] at resolved
      rcases explicit with unmarked | declared
      · exact absurd default (by rw [unmarked]; exact Bool.false_ne_true)
      · exact declared resolved
    have names : List.Forall₂ (· = ·) (datasets.map Dataset.name)
        (declaration.datasets.map Declaration.Dataset.name) := by
      rw [List.forall₂_map_left_iff, List.forall₂_map_right_iff]
      exact resolved.flip.imp fun _ _ named => named.1
    rw [kept]
    exact List.forall₂_eq_eq_eq ▸ names

end Resolution

/-- Every type, included and external ones too, has a declaration and a schema. If the declaration has no
schemas there is exactly one, which is synthesized; else there is one for each that is declared. A dataset
that stands in stores the attributes of the type one by one. -/
theorem build_defaultSchemas {units : List SourceUnit} {built : Built} (accepted : build units = .ok built)
    {id : RecordId} (inside : id.index < built.model.records.size) :
    (built.model.record id).schemas ≠ [] ∧
      (∃ declaration, DeclaredAs units built.model id declaration) ∧
      ∀ declaration, DeclaredAs units built.model id declaration →
        (declaration.schemas = [] → ∃ dataset, StoresOwn built.model id dataset ∧
          (built.model.record id).schemas =
            [{ name := "default", version := 0, isDefault := true, datasets := [dataset] }]) ∧
        (declaration.schemas ≠ [] → List.Forall₂ (StandsFor built.model id) declaration.schemas
          (built.model.record id).schemas) := by
  obtain ⟨stages⟩ := build_stages accepted
  refine ⟨(stages.schemasFit inside).nonempty, ?_, fun declaration declared => ?_⟩
  · obtain ⟨pending, waits, same⟩ := stages.exists_pending inside
    exact ⟨_, stages.declaredAs_iff.mpr ⟨pending, waits, same, rfl⟩⟩
  · obtain ⟨pending, waits, rfl, rfl⟩ := stages.declaredAs_iff.mp declared
    obtain ⟨model, after, agree, present, taken, same⟩ := stages.resolvedSchemas waits
    obtain ⟨synthesized, resolved⟩ := Resolution.resolveSchemas_ok present taken
    have apart := stages.methodsApart
    rw [same]
    constructor
    · intro undeclared
      obtain ⟨dataset, only, stores⟩ :=
        Resolution.defaultDatasets_stores pending.id stages.sound apart
      refine ⟨dataset, stores, ?_⟩
      rw [synthesized undeclared, Resolution.synthesizedSchema,
        ← Resolution.defaultDatasets_agree agree, only]
      rfl
    · intro some
      refine (resolved some).imp fun declared schema accepted => ?_
      rw [← Resolution.resolveSchema_agree agree] at accepted
      exact Resolution.resolveSchema_stands stages.sound apart accepted

def farDeclaration : Declaration.Record :=
  { name := "Far", tags := ["external(far.h)"]
    attributes := [{ name := "_first", typeName := some "uint8_t" },
      { name := "_second", typeName := some "uint16_t", accessor := some "width" }] }

def nearDeclaration : Declaration.Record :=
  { name := "Near", attributes := farDeclaration.attributes
    schemas := [{ name := some "all", version := 2, tags := ["default"] },
      { version := 1, tags := ["default"]
        datasets := [{ name := "picked", entries := [{ name := "width" }] }] }] }

/-- An external type of an included unit that declares no schemas, and a type with two default schemas, of
which one declares its datasets. -/
def standingUnits : List SourceUnit :=
  [{ included := true, document := { packages := [.mk "Sample" none [] [] [] [] [farDeclaration]] } },
    { document := { packages := [.mk "Sample" none [] [] [] [] [nearDeclaration]] } }]

theorem build_defaultSchemas_sample : ∃ built, build standingUnits = .ok built ∧
    (∃ dataset, StoresOwn built.model ⟨0⟩ dataset ∧ (built.model.record ⟨0⟩).schemas =
      [{ name := "default", version := 0, isDefault := true, datasets := [dataset] }]) ∧
    List.Forall₂ (StandsFor built.model ⟨1⟩) nearDeclaration.schemas
      (built.model.record ⟨1⟩).schemas := by
  have computed : ∃ built, build standingUnits = .ok built ∧ built.model.records.size = 2 ∧
      ∀ id ∈ [(⟨0⟩ : RecordId), ⟨1⟩],
        built.model.packageNames (built.model.record id).package = ["Sample"] ∧
        (built.model.record id).included = (id.index == 0) ∧
        (built.model.record id).name = if id.index == 0 then "Far" else "Near" :=
    exists_built (by decide +kernel)
  obtain ⟨built, accepted, count, stands⟩ := computed
  obtain ⟨⟨package, mark, name⟩, ⟨package', mark', name'⟩, -⟩ := by
    simpa only [List.forall_mem_cons] using stands
  have segments : Draft.segments "Sample" = ["Sample"] := by decide +kernel
  have far : DeclaredAs standingUnits built.model ⟨0⟩ farDeclaration := by
    refine ⟨by rw [count]; decide, ?_, name⟩
    rw [package, mark]
    simp [standingUnits, Item.ofUnits, Item.ofUnit, Item.ofPackages, Item.ofPackage, segments,
      Item.ofRecord]
  have near : DeclaredAs standingUnits built.model ⟨1⟩ nearDeclaration := by
    refine ⟨by rw [count]; decide, ?_, name'⟩
    rw [package', mark']
    simp [standingUnits, Item.ofUnits, Item.ofUnit, Item.ofPackages, Item.ofPackage, segments,
      Item.ofRecord]
  obtain ⟨-, -, bare⟩ := build_defaultSchemas accepted far.inside
  obtain ⟨-, -, declared⟩ := build_defaultSchemas accepted near.inside
  exact ⟨built, accepted, (bare _ far).1 rfl, (declared _ near).2 (by decide)⟩

end RecordSchema
