import RecordSchema.Proofs.Inclusion
import RecordSchema.Proofs.Renaming.Schemas
import RecordSchema.Proofs.Resolution.MethodNames

/-!
# Schemas of built types

Every record type has a schema. No two schemas of a type agree in name and version, and no two datasets
of a schema in their name; schemas of different names may be of one version. A dataset that stands in
by default has an entry for each attribute, under the name of its accessor, and so no name twice.
-/

set_option autoImplicit false

namespace RecordSchema

open Model Outcome

namespace Resolution

/-- Schemas that a record type can have. -/
structure SchemasFit (schemas : List StorageSchema) : Prop where
  nonempty : schemas ≠ []
  distinct : (schemas.map schemaKey).Nodup
  datasets : ∀ schema ∈ schemas, (schema.datasets.map Dataset.name).Nodup

section Schema

variable {model : Model} {owner : RecordId}

theorem foldl_applyDatasetTag_name (tags : List Tag) (dataset : Dataset) :
    (tags.foldl applyDatasetTag dataset).name = dataset.name := by
  induction tags generalizing dataset with
  | nil => rfl
  | cons tag rest ih =>
    rw [List.foldl_cons, ih, applyDatasetTag]
    split <;> rfl

private theorem addDataset_distinct {path : String} {before after : List Dataset}
    {declaration : Declaration.Dataset} (distinct : (before.map Dataset.name).Nodup)
    (accepted : addDataset model owner path before declaration = .ok after) :
    (after.map Dataset.name).Nodup := by
  simp only [addDataset, bind, Except.bind] at accepted
  split at accepted
  · cases accepted
  · rename_i fresh
    obtain ⟨entries, read, accepted⟩ := bind_ok accepted
    cases accepted
    refine nodup_map_concat distinct fun dataset held same => fresh ?_
    rw [foldl_applyDatasetTag_name] at same
    exact List.any_eq_true.mpr ⟨dataset, held, beq_iff_eq.mpr same⟩

private theorem resolveSchema_distinct {typePath : String} {declaration : Declaration.StorageSchema}
    {schema : StorageSchema} (accepted : resolveSchema model owner typePath declaration = .ok schema) :
    (schema.datasets.map Dataset.name).Nodup := by
  simp only [resolveSchema] at accepted
  obtain ⟨datasets, added, accepted⟩ := bind_ok accepted
  have distinct : (datasets.map Dataset.name).Nodup :=
    foldlM_preserves added (fun found => (found.map Dataset.name).Nodup) .nil
      fun _ _ _ _ good taken => addDataset_distinct good taken
  split at accepted
  · cases accepted
    exact List.nodup_singleton _
  · cases accepted
    exact distinct

private theorem addSchema_fit {typePath : String} {before after : List StorageSchema}
    {declaration : Declaration.StorageSchema} (distinct : (before.map schemaKey).Nodup)
    (datasets : ∀ schema ∈ before, (schema.datasets.map Dataset.name).Nodup)
    (accepted : addSchema model owner typePath before declaration = .ok after) :
    (after.map schemaKey).Nodup ∧ ∀ schema ∈ after, (schema.datasets.map Dataset.name).Nodup := by
  simp only [addSchema] at accepted
  obtain ⟨schema, resolved, accepted⟩ := bind_ok accepted
  split at accepted
  · cases accepted
  · rename_i fresh
    cases accepted
    refine ⟨?_, fun other listed => ?_⟩
    · refine nodup_map_concat distinct fun other held same => fresh ?_
      obtain ⟨name, version⟩ := Prod.mk.inj same
      exact List.any_eq_true.mpr ⟨other, held, by simp [name, version]⟩
    · rcases List.mem_append.mp listed with old | last
      · exact datasets other old
      · cases List.mem_singleton.mp last
        exact resolveSchema_distinct resolved

private theorem resolveSchemas_fit {after : Model} {pending : Pending RecordId Declaration.Record}
    (inside : pending.id.index < model.records.size)
    (accepted : resolveSchemas model pending = .ok after) :
    SchemasFit (after.record pending.id).schemas ∧
      ∀ id, id ≠ pending.id → after.record id = model.record id := by
  simp only [resolveSchemas] at accepted
  obtain ⟨declared, added, accepted⟩ := bind_ok accepted
  cases accepted
  have kept := foldlM_preserves added (fun found => (found.map schemaKey).Nodup ∧
      ∀ schema ∈ found, (schema.datasets.map Dataset.name).Nodup) ⟨.nil, by simp⟩
    fun _ _ _ _ good taken => addSchema_fit good.1 good.2 taken
  constructor
  · rw [record_modifyRecord, if_pos ⟨rfl, inside⟩]
    dsimp only
    split
    · refine ⟨List.cons_ne_nil _ _, List.nodup_singleton _, fun schema listed => ?_⟩
      cases List.mem_singleton.mp listed
      exact List.nodup_singleton _
    · rename_i some
      exact ⟨fun none => some (by rw [none, List.isEmpty_nil]), kept.1, kept.2⟩
  · intro id different
    rw [record_modifyRecord, if_neg fun both => different both.1.symm]

theorem defaultDatasets_distinct (sound : model.Sound) (apart : MethodsApart model) :
    ∀ dataset ∈ defaultDatasets model owner, (dataset.entries.map (·.name)).Nodup := by
  intro dataset listed
  cases List.mem_singleton.mp listed
  rw [List.map_map]
  refine List.Nodup.map_on ?_ (sound.attributes.nodup (sound.closed.recordAttributes owner))
  intro one among other otherAmong same
  have accessor : ∀ attr ∈ (model.record owner).attributes, ∃ method ∈ (model.record owner).methods,
      (model.method method).body = .attr attr ∧
        model.accessorName (model.attr attr) = (model.method method).name := by
    intro attr among
    obtain ⟨method, listed, found, body⟩ := sound.exists_accessor among
    exact ⟨method, listed, body, by rw [accessorName, found]⟩
  obtain ⟨method, listed, body, name⟩ := accessor one among
  obtain ⟨method', listed', body', name'⟩ := accessor other otherAmong
  have equal : method = method' :=
    List.inj_on_of_nodup_map (apart owner) listed listed' (name.symm.trans (same.trans name'))
  rw [equal, body'] at body
  exact (MethodBody.attr.inj body).symm

end Schema

end Resolution

/-- Every type waits for its schemas. -/
theorem Stages.exists_pending {units : List SourceUnit} {built : Built} (stages : Stages units built)
    {id : RecordId} (inside : id.index < built.model.records.size) :
    ∃ pending ∈ stages.draft.records, pending.id = id :=
  stages.represents.pending_of_record (Nat.lt_of_lt_of_eq inside stages.retained.records)

/-- The schemas of a type are resolved once, in a model that lacks nothing but schemas. After that no later
type touches them. -/
theorem Stages.resolvedSchemas {units : List SourceUnit} {built : Built} (stages : Stages units built)
    {pending : Pending RecordId Declaration.Record} (waits : pending ∈ stages.draft.records) :
    ∃ model after : Model, Agree .schemas model built.model ∧
      pending.id.index < model.records.size ∧ Resolution.resolveSchemas model pending = .ok after ∧
        built.model.record pending.id = after.record pending.id := by
  have distinct : (stages.draft.records.toList.map fun pending => pending.id.index).Nodup :=
    stages.represents.recordIds ▸ List.nodup_range
  have kept := foldlM_invariant stages.schemas
    (fun seen state => Agree .schemas stages.stored state ∧
      ∀ pending ∈ seen, ∃ model after : Model, Agree .schemas stages.stored model ∧
        pending.id.index < model.records.size ∧ Resolution.resolveSchemas model pending = .ok after ∧
          state.record pending.id = after.record pending.id)
    ⟨.refl _, by simp⟩ <| by
      intro seen pending rest state after split ⟨agree, known⟩ taken
      have held : pending ∈ stages.draft.records := by
        rw [← Array.mem_toList_iff, split]
        simp
      have present : pending.id.index < state.records.size := by
        rw [agree.recordCount, ← stages.agree_stored.recordCount, stages.retained.records]
        exact stages.represents.consistent.records pending held
      obtain ⟨-, others⟩ := Resolution.resolveSchemas_fit present taken
      refine ⟨agree.trans (Resolution.agree_resolveSchemas taken), fun other listed => ?_⟩
      rcases List.mem_append.mp listed with earlier | last
      · have different : other.id ≠ pending.id := by
          intro same
          rw [split, List.map_append, List.nodup_append] at distinct
          exact distinct.2.2 _ (List.mem_map_of_mem earlier) _ List.mem_cons_self
            (congrArg RecordId.index same)
        rw [others other.id different]
        exact known other earlier
      · cases List.mem_singleton.mp last
        exact ⟨state, after, agree, present, taken, rfl⟩
  obtain ⟨model, after, agree, facts⟩ := kept.2 pending (Array.mem_toList_iff.mpr waits)
  exact ⟨model, after, agree.symm.trans stages.agree_stored, facts⟩

theorem Stages.schemasFit {units : List SourceUnit} {built : Built} (stages : Stages units built)
    {id : RecordId} (inside : id.index < built.model.records.size) :
    Resolution.SchemasFit (built.model.record id).schemas := by
  obtain ⟨pending, waits, rfl⟩ := stages.exists_pending inside
  obtain ⟨model, after, -, present, taken, same⟩ := stages.resolvedSchemas waits
  rw [same]
  exact (Resolution.resolveSchemas_fit present taken).1

end RecordSchema
