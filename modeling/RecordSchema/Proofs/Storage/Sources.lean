import RecordSchema.Backend.StorageClasses
import RecordSchema.Proofs.Resolution.Accessors
import RecordSchema.Proofs.Storage.Defaults

/-!
# What entries of datasets are read from

An entry is read by the method that its source stands for: a method, or the accessor of an attribute. The
member that stores it is declared with the type of that method, and with its rank if the entry has none of
its own. It is set by a call of the name of the method. The name finds the method, unless the entry was
resolved by the name of an attribute of a base and the accessor has been hidden since: then the call gives
what another method does.
-/

set_option autoImplicit false

namespace RecordSchema

open Model Outcome StorageClasses

/-- The method that a source stands for. -/
def DatasetSource.reader? (model : Model) : DatasetSource → Option MethodId
  | .attr id => (model.attr id).accessor
  | .method id => some id

/-- An entry of a dataset of a type, and the method that its source stands for. -/
structure ReadBy (model : Model) (id : RecordId) (entry : DatasetEntry) (method : MethodId) : Prop where
  reader : entry.source.reader? model = some method
  inherited : (model.method method).owner ∈ model.lineage id
  name : entry.method = (model.method method).name
  type : sourceType? model entry.source = (model.method method).result
  /-- The member has the type of the method, and the call is one for its name. -/
  stored : ∀ value, storedValue model id entry = .ok value → ∃ type,
    (model.method method).result = some type ∧
      value = ⟨valueType model type entry.rank, entry.name, (model.method method).name⟩
  /-- The call finds the method if and only if no nearer type has one of the name. -/
  found : model.findMethod? id entry.method = some method ↔ ¬ model.Hides id method
  /-- Only the accessor of an attribute of a base can be hidden. -/
  hidden : model.Hides id method → ∃ attr, entry.source = .attr attr ∧ (model.attr attr).owner ≠ id

/-- An entry is declared with the rank that it has. -/
def RankDeclared (declaration : Declaration.Record) (entry : DatasetEntry) : Prop :=
  ∃ schema ∈ declaration.schemas, ∃ dataset ∈ schema.datasets, ∃ declared ∈ dataset.entries,
    declared.name = entry.name ∧ declared.rank.map UInt32.toNat = some entry.rank

namespace Resolution

section Entries

variable {model : Model} {id : RecordId}

/-- What a source stands for, where it stands, and where it may be hidden. -/
structure Stands (model : Model) (id : RecordId) (source : DatasetSource) (method : MethodId) : Prop where
  reader : source.reader? model = some method
  inside : method.index < model.methods.size
  inherited : (model.method method).owner ∈ model.lineage id
  body : ∀ attr, source = .attr attr → (model.method method).body = .attr attr
  hidden : model.Hides id method → ∃ attr, source = .attr attr ∧ (model.attr attr).owner ≠ id

theorem Stands.sourceType? {source : DatasetSource} {method : MethodId} (fit : ReadersFit model)
    (stands : Stands model id source method) :
    sourceType? model source = (model.method method).result := by
  cases source with
  | attr attr => exact (fit method attr (stands.body attr rfl)).result.symm
  | method other =>
    cases stands.reader
    rfl

theorem Stands.sourceMethod {source : DatasetSource} {method : MethodId} (fit : ReadersFit model)
    (name : String) (stands : Stands model id source method) :
    sourceMethod model name source = ((model.method method).name, (model.method method).rank) := by
  cases source with
  | attr attr =>
    have reads := fit method attr (stands.body attr rfl)
    rw [Resolution.sourceMethod, reads.accessor, reads.rank]
    rfl
  | method other =>
    cases stands.reader
    rfl

theorem Stands.readBy (intact : model.Intact) (apart : MethodsApart model) (fit : ReadersFit model)
    {entry : DatasetEntry} {method : MethodId} (stands : Stands model id entry.source method)
    (name : entry.method = (model.method method).name) : ReadBy model id entry method := by
  have type := stands.sourceType? fit
  refine ⟨stands.reader, stands.inherited, name, type, fun value made => ?_, ?_, stands.hidden⟩
  · rw [storedValue, type] at made
    split at made
    · rename_i type found
      cases made
      exact ⟨type, found, by rw [name]⟩
    · cases made
  · rw [name]
    exact findMethod?_iff intact apart stands.inherited stands.inside

/-- The accessor of an attribute that a type has or inherits. -/
theorem stands_attr (intact : model.Intact) {owner : RecordId} (inherited : owner ∈ model.lineage id)
    {attr : AttributeId} (listed : attr ∈ (model.record owner).attributes) :
    ∃ method, Stands model id (.attr attr) method := by
  obtain ⟨method, member, accessor, body⟩ := intact.exists_accessor listed
  have inside := intact.closed.recordMethods owner method member
  have own : (model.method method).owner = owner := (intact.methods.mem_iff inside).mp member
  refine ⟨method, accessor, inside, own ▸ inherited, ?_, fun hides => ⟨attr, rfl, fun here => ?_⟩⟩
  · rintro _ ⟨⟩
    exact body
  · have same : owner = id := (intact.owner listed).symm.trans here
    subst same
    exact not_hides_own intact (inside_of_mem Record.attributes rfl listed) own hides

/-- What a name finds among the methods of a type and its bases. -/
theorem stands_method (intact : model.Intact) (apart : MethodsApart model) (fit : ReadersFit model)
    {name : String} {method : MethodId} (found : model.findMethod? id name = some method)
    {source : DatasetSource}
    (taken : source = .method method ∨
      ∃ attr, (model.method method).body = .attr attr ∧ source = .attr attr) :
    Stands model id source method := by
  obtain ⟨owner, inherited, one⟩ := List.exists_of_findSome?_eq_some found
  obtain ⟨member, rfl⟩ := (ownMethod?_eq_some_iff apart).mp one
  have inside := intact.closed.recordMethods owner method member
  have own : (model.method method).owner = owner := (intact.methods.mem_iff inside).mp member
  have inherited : (model.method method).owner ∈ model.lineage id := own ▸ inherited
  have visible := (findMethod?_iff intact apart inherited inside).mp found
  rcases taken with rfl | ⟨attr, body, rfl⟩
  · exact ⟨rfl, inside, inherited, nofun, fun hides => absurd hides visible⟩
  · refine ⟨(fit method attr body).accessor, inside, inherited, ?_, fun hides => absurd hides visible⟩
    rintro _ ⟨⟩
    exact body

private theorem entrySource?_stands (intact : model.Intact) (apart : MethodsApart model)
    (fit : ReadersFit model) {name : String} {source : DatasetSource}
    (found : entrySource? model id name = some source) : ∃ method, Stands model id source method := by
  unfold entrySource? at found
  split at found
  · rename_i method one
    refine ⟨method, stands_method intact apart fit one ?_⟩
    split at found
    · rename_i attr body
      cases found
      exact .inr ⟨attr, body, rfl⟩
    · cases found
      exact .inl rfl
  · obtain ⟨attr, one, rfl⟩ := Option.map_eq_some_iff.mp found
    obtain ⟨owner, inherited, listed⟩ := List.exists_of_findSome?_eq_some one
    exact stands_attr intact inherited (List.mem_of_find?_eq_some listed)

private theorem attributeEntry_readBy (intact : model.Intact) (apart : MethodsApart model)
    (fit : ReadersFit model) {attr : AttributeId} (listed : attr ∈ (model.record id).attributes) :
    ∃ method, ReadBy model id (attributeEntry model attr) method ∧
      (attributeEntry model attr).rank = (model.method method).rank := by
  have inside := inside_of_mem Record.attributes rfl listed
  obtain ⟨method, stands⟩ := stands_attr intact (intact.mem_lineage_self inside) listed
  have reads := fit method attr (stands.body attr rfl)
  refine ⟨method, stands.readBy intact apart fit ?_, reads.rank.symm⟩
  rw [attributeEntry, accessorName, reads.accessor]

private theorem resolveEntry_readBy (intact : model.Intact) (apart : MethodsApart model)
    (fit : ReadersFit model) {path : String} {declared : Declaration.DatasetEntry}
    {entry : DatasetEntry} (accepted : resolveEntry model id path declared = .ok entry) :
    ∃ method, ReadBy model id entry method ∧ entry.name = declared.name ∧
      entry.rank = (declared.rank.map UInt32.toNat).getD (model.method method).rank := by
  simp only [resolveEntry] at accepted
  split at accepted
  · cases accepted
  · rename_i source found
    obtain ⟨method, stands⟩ := entrySource?_stands intact apart fit found
    rw [stands.sourceMethod fit] at accepted
    cases accepted
    exact ⟨method, stands.readBy intact apart fit rfl, rfl, rfl⟩

/-- An entry stands for an attribute of the type itself, or is what a declared one is resolved to. -/
def Originates (model : Model) (id : RecordId) (declaration : Declaration.Record) (entry : DatasetEntry) :
    Prop :=
  (∃ attr ∈ (model.record id).attributes, entry = attributeEntry model attr) ∨
    ∃ schema ∈ declaration.schemas, ∃ dataset ∈ schema.datasets, ∃ declared ∈ dataset.entries,
      ∃ path, resolveEntry model id path declared = .ok entry

theorem Originates.readBy (intact : model.Intact) (apart : MethodsApart model) (fit : ReadersFit model)
    {declaration : Declaration.Record} {entry : DatasetEntry}
    (originates : Originates model id declaration entry) :
    ∃ method, ReadBy model id entry method ∧
      (entry.rank = (model.method method).rank ∨ RankDeclared declaration entry) := by
  rcases originates with
    ⟨attr, listed, rfl⟩ | ⟨schema, has, dataset, holds, declared, lists, path, accepted⟩
  · obtain ⟨method, read, rank⟩ := attributeEntry_readBy intact apart fit listed
    exact ⟨method, read, .inl rank⟩
  · obtain ⟨method, read, name, rank⟩ := resolveEntry_readBy intact apart fit accepted
    refine ⟨method, read, ?_⟩
    cases given : declared.rank.map UInt32.toNat with
    | none => exact .inl (by rw [rank, given, Option.getD_none])
    | some value =>
      rw [given, Option.getD_some] at rank
      exact .inr ⟨schema, has, dataset, holds, declared, lists, name.symm, rank ▸ given⟩

theorem Originates.of_agree {after : Model} (agree : Agree .schemas model after)
    {declaration : Declaration.Record} {entry : DatasetEntry}
    (originates : Originates model id declaration entry) : Originates after id declaration entry := by
  rwa [Originates, attributeEntry_agree agree, resolveEntry_agree agree,
    agree.recordField Record.attributes fun _ => rfl]

private theorem defaultDatasets_originate {declaration : Declaration.Record} {dataset : Dataset}
    (among : dataset ∈ defaultDatasets model id) :
    ∀ entry ∈ dataset.entries, Originates model id declaration entry := by
  intro entry held
  cases List.mem_singleton.mp among
  obtain ⟨attr, listed, same⟩ := List.mem_map.mp held
  exact .inl ⟨attr, listed, same.symm⟩

private theorem resolveSchema_originate {declaration : Declaration.Record} {path : String}
    {declared : Declaration.StorageSchema} (has : declared ∈ declaration.schemas) {schema : StorageSchema}
    (accepted : resolveSchema model id path declared = .ok schema) {dataset : Dataset}
    (among : dataset ∈ schema.datasets) :
    ∀ entry ∈ dataset.entries, Originates model id declaration entry := by
  obtain ⟨-, -, datasets, resolved, listed⟩ := resolveSchema_ok accepted
  rw [listed] at among
  split at among
  · exact defaultDatasets_originate among
  · intro entry held
    obtain ⟨source, holds, -, path, entries⟩ := exists_of_forall₂ resolved.flip among
    obtain ⟨one, lists, taken⟩ := mapM_ok entries entry held
    exact .inr ⟨declared, has, source, holds, one, lists, path, taken⟩

end Entries

end Resolution

private theorem Stages.originates {units : List SourceUnit} {built : Built} (stages : Stages units built)
    {id : RecordId} {schema : StorageSchema} (listed : schema ∈ (built.model.record id).schemas)
    {dataset : Dataset} (among : dataset ∈ schema.datasets) {entry : DatasetEntry}
    (held : entry ∈ dataset.entries) : ∃ declaration, DeclaredAs units built.model id declaration ∧
      Resolution.Originates built.model id declaration entry := by
  have inside := inside_of_mem Record.schemas rfl listed
  obtain ⟨pending, waits, rfl⟩ := stages.exists_pending inside
  obtain ⟨model, after, agree, present, taken, same⟩ := stages.resolvedSchemas waits
  obtain ⟨synthesized, resolved⟩ := Resolution.resolveSchemas_ok present taken
  rw [same] at listed
  refine ⟨_, stages.declaredAs_iff.mpr ⟨pending, waits, rfl, rfl⟩, .of_agree agree ?_⟩
  by_cases undeclared : pending.declaration.schemas = []
  · rw [synthesized undeclared] at listed
    cases List.mem_singleton.mp listed
    exact Resolution.defaultDatasets_originate among entry held
  · obtain ⟨declared, has, accepted⟩ := exists_of_forall₂ (resolved undeclared).flip listed
    exact Resolution.resolveSchema_originate has accepted among entry held

/-- Every entry of every dataset is read by the method that its source stands for: the accessor of an
attribute, or a method itself. The member that stores it has the type of that method, and its rank unless
the entry is declared with another. It is set by a call of the name of the method, which finds the method
unless that is hidden, as it can only be where the source is an attribute of a base. -/
theorem build_sources {units : List SourceUnit} {built : Built} (accepted : build units = .ok built)
    {id : RecordId} {schema : StorageSchema} (listed : schema ∈ (built.model.record id).schemas)
    {dataset : Dataset} (among : dataset ∈ schema.datasets) {entry : DatasetEntry}
    (held : entry ∈ dataset.entries) :
    ∃ method, ReadBy built.model id entry method ∧
      (entry.rank = (built.model.method method).rank ∨
        ∃ declaration, DeclaredAs units built.model id declaration ∧ RankDeclared declaration entry) := by
  obtain ⟨stages⟩ := build_stages accepted
  have intact := stages.sound.intact fun _ inside => stages.basesEnd inside
  obtain ⟨declaration, declared, originates⟩ := stages.originates listed among held
  obtain ⟨method, read, rank⟩ := originates.readBy intact stages.methodsApart stages.readersFit
  exact ⟨method, read, rank.imp_right fun given => ⟨declaration, declared, given⟩⟩

/-- A type whose method has the name of an accessor that it inherits. Both the attribute behind the accessor
and one of the type itself are stored. -/
def hidingUnits : List SourceUnit :=
  let base : Declaration.Record :=
    { name := "Base", attributes := [{ name := "_x", typeName := some "uint32_t" }] }
  let dataset : Declaration.Dataset := { name := "values", entries := [{ name := "_x" }, { name := "y" }] }
  let derived : Declaration.Record :=
    { name := "Derived", base := some "Base"
      attributes := [{ name := "y", typeName := some "uint16_t" }]
      methods := [{ name := "x", typeName := some "double" }]
      schemas := [{ version := 1, datasets := [dataset] }] }
  [{ document := { packages := [.mk "Sample" none [] [] [] [] [base, derived]] } }]

theorem build_sources_sample : ∃ built, build hidingUnits = .ok built ∧
    ∃ schema ∈ (built.model.record ⟨1⟩).schemas, ∃ dataset ∈ schema.datasets,
      ∃ own ∈ dataset.entries, ∃ other ∈ dataset.entries,
        built.model.findMethod? ⟨1⟩ own.method = some ⟨1⟩ ∧
        built.model.findMethod? ⟨1⟩ other.method ≠ some ⟨0⟩ := by
  have computed : ∃ built, build hidingUnits = .ok built ∧
      ∃ schema ∈ (built.model.record ⟨1⟩).schemas, ∃ dataset ∈ schema.datasets,
        ∃ own ∈ dataset.entries, ∃ other ∈ dataset.entries,
          own.source.reader? built.model = some ⟨1⟩ ∧ ¬ built.model.Hides ⟨1⟩ ⟨1⟩ ∧
          other.source.reader? built.model = some ⟨0⟩ ∧ built.model.Hides ⟨1⟩ ⟨0⟩ :=
    exists_built (by decide +kernel)
  obtain ⟨built, accepted, schema, listed, dataset, among, own, held, other, heldOther, reader, visible,
    otherReader, hidden⟩ := computed
  obtain ⟨method, read, -⟩ := build_sources accepted listed among held
  obtain ⟨otherMethod, otherRead, -⟩ := build_sources accepted listed among heldOther
  obtain rfl : method = ⟨1⟩ := Option.some.inj (read.reader.symm.trans reader)
  obtain rfl : otherMethod = ⟨0⟩ := Option.some.inj (otherRead.reader.symm.trans otherReader)
  exact ⟨built, accepted, schema, listed, dataset, among, own, held, other, heldOther,
    read.found.mpr visible, fun found => otherRead.found.mp found hidden⟩

/-- The call finds another method than the accessor of the attribute that the entry stands for, and the
value it gives is of another type than the member. -/
theorem build_not_sources : ∃ built, build hidingUnits = .ok built ∧
    ∃ schema ∈ (built.model.record ⟨1⟩).schemas, ∃ dataset ∈ schema.datasets,
      ∃ entry ∈ dataset.entries, entry.source.reader? built.model = some ⟨0⟩ ∧
        sourceType? built.model entry.source = some (.builtin .uint32) ∧
        built.model.findMethod? ⟨1⟩ entry.method = some ⟨2⟩ ∧
        (built.model.method ⟨2⟩).result = some (.builtin .double) :=
  exists_built (by decide +kernel)

end RecordSchema
