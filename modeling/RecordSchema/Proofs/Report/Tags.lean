import RecordSchema.Proofs.Storage.Schemas
import RecordSchema.Proofs.Tag
import RecordSchema.Report

/-!
# Reported tags say what was declared

A report writes the tagged fields of a declaration as tags again. Read by the rules for that kind of
declaration, these tags restore every tagged field: the fields that a rule fills in and, by name, the tags
that no rule consumes.
-/

set_option autoImplicit false

namespace RecordSchema

open Model Outcome Resolution

/-!
## Kinds of declarations
-/

/-- Tags that are kept under their names. All of them can be read, and none is consumed by a rule. -/
structure RawTags.Kept (passed : Tag → Prop) (tags : RawTags) : Prop where
  ascending : SortedMap.Ascending tags
  canonical : ∀ tag ∈ Report.remainingTags tags, tag.Canonical
  passed : ∀ tag ∈ Report.remainingTags tags, passed tag

theorem RawTags.Kept.nil (passed : Tag → Prop) : RawTags.Kept passed [] where
  ascending := .nil
  canonical := by simp [Report.remainingTags]
  passed := by simp [Report.remainingTags]

theorem RawTags.Kept.insert {passed : Tag → Prop} {tags : RawTags} (kept : tags.Kept passed) {tag : Tag}
    (canonical : tag.Canonical) (passes : passed tag) :
    RawTags.Kept passed (SortedMap.insert tag.name tag.argument tags) := by
  have members : ∀ other ∈ Report.remainingTags (SortedMap.insert tag.name tag.argument tags),
      other = tag ∨ other ∈ Report.remainingTags tags := by
    intro other member
    obtain ⟨entry, held, rfl⟩ := List.mem_map.mp member
    rcases SortedMap.mem_of_mem_insert held with rfl | old
    · exact .inl rfl
    · exact .inr (List.mem_map_of_mem old)
  constructor
  · exact kept.ascending.insert _ _
  · intro other member
    rcases members other member with rfl | old
    · exact canonical
    · exact kept.canonical other old
  · intro other member
    rcases members other member with rfl | old
    · exact passes
    · exact kept.passed other old

/-- How declarations of one kind take tags and how a report writes them again. -/
structure Tagging (σ : Type) where
  apply : σ → Tag → σ
  tags : σ → RawTags
  withTags : σ → RawTags → σ
  /-- The texts in the fields that rules fill in. -/
  texts : σ → List String
  /-- The tags that these fields are written as. -/
  typed : σ → List Tag
  /-- The declaration without anything that tags have said. -/
  untagged : σ → σ
  withTags_withTags : ∀ declared before after, withTags (withTags declared before) after =
    withTags declared after
  tags_withTags : ∀ declared found, tags (withTags declared found) = found
  withTags_tags : ∀ declared, withTags declared (tags declared) = declared
  /-- A tag either is kept under its name or leaves the kept ones alone. -/
  rule : ∀ tag,
    (∀ declared, apply declared tag =
      withTags declared (SortedMap.insert tag.name tag.argument (tags declared))) ∨
    ∀ declared, tags (apply declared tag) = tags declared
  texts_apply : ∀ declared tag, ∀ text ∈ texts (apply declared tag),
    text ∈ texts declared ∨ text = "" ∨ tag.argument = some text
  typed_canonical : ∀ declared, (∀ text ∈ texts declared, Text.Trimmed text.toList) →
    ∀ tag ∈ typed declared, tag.Canonical
  restored : ∀ declared, (typed declared).foldl apply (untagged declared) = withTags declared []

namespace Tagging

variable {σ : Type} (kind : Tagging σ)

/-- No rule consumes the tag. -/
def Passes (tag : Tag) : Prop :=
  ∀ declared, kind.apply declared tag =
    kind.withTags declared (SortedMap.insert tag.name tag.argument (kind.tags declared))

/-- All that tags have said of a declaration can be written as tags. -/
structure Writable (declared : σ) : Prop where
  texts : ∀ text ∈ kind.texts declared, Text.Trimmed text.toList
  kept : RawTags.Kept kind.Passes (kind.tags declared)

variable {kind} {declared : σ}

theorem Writable.apply (writable : kind.Writable declared) {tag : Tag} (canonical : tag.Canonical) :
    kind.Writable (kind.apply declared tag) where
  texts text member := by
    rcases kind.texts_apply declared tag text member with old | rfl | argument
    · exact writable.texts text old
    · exact .nil
    · exact canonical.argument text argument
  kept := by
    rcases kind.rule tag with passes | consumed
    · rw [passes, kind.tags_withTags]
      exact writable.kept.insert canonical passes
    · rw [consumed]
      exact writable.kept

theorem Writable.foldl (writable : kind.Writable declared) {tags : List Tag}
    (canonical : ∀ tag ∈ tags, tag.Canonical) : kind.Writable (tags.foldl kind.apply declared) := by
  induction tags generalizing declared with
  | nil => exact writable
  | cons tag rest ih =>
    exact ih (writable.apply (canonical tag List.mem_cons_self))
      fun other member => canonical other (List.mem_cons_of_mem _ member)

/-- Tags in the order of their names are kept in that order. -/
theorem foldl_remainingTags {tags : RawTags}
    (passed : ∀ tag ∈ Report.remainingTags tags, kind.Passes tag) (before : RawTags) :
    (Report.remainingTags tags).foldl kind.apply (kind.withTags declared before) =
      kind.withTags declared
        (tags.foldl (fun found entry => SortedMap.insert entry.1 entry.2 found) before) := by
  induction tags generalizing before with
  | nil => rfl
  | cons entry rest ih =>
    have first := passed ⟨entry.1, entry.2⟩ List.mem_cons_self (kind.withTags declared before)
    rw [kind.tags_withTags, kind.withTags_withTags] at first
    change (Report.remainingTags rest).foldl kind.apply (kind.apply _ ⟨entry.1, entry.2⟩) = _
    rw [first, ih fun tag member => passed tag (List.mem_cons_of_mem _ member), List.foldl_cons]

/-- The tags that a declaration is written as restore it. -/
theorem Writable.restored (writable : kind.Writable declared) :
    (Tag.parseAll ((kind.typed declared ++
      Report.remainingTags (kind.tags declared)).map Tag.render)).foldl kind.apply
        (kind.untagged declared) = declared := by
  have canonical : ∀ tag ∈ kind.typed declared ++ Report.remainingTags (kind.tags declared),
      tag.Canonical := by
    intro tag member
    rcases List.mem_append.mp member with typed | remaining
    · exact kind.typed_canonical declared writable.texts tag typed
    · exact writable.kept.canonical tag remaining
  rw [Tag.parseAll_render canonical, List.foldl_append, kind.restored,
    foldl_remainingTags writable.kept.passed, SortedMap.foldl_insert writable.kept.ascending,
    List.nil_append, kind.withTags_tags]

end Tagging

/-!
## Single fields
-/

section Fields

variable {σ : Type} {apply : σ → Tag → σ} {declared : σ}

private theorem canonical_flag {name : String} (bare : Tag.parse? name = some ⟨name, none⟩) {set : Bool}
    {tag : Tag} (member : tag ∈ Report.flag name set) : tag.Canonical := by
  unfold Report.flag at member
  split at member
  · cases List.mem_singleton.mp member
    exact Tag.canonical_of_parse? bare
  · cases member

/-- A flag that is not set is not written, and one that is not written is not set. -/
theorem foldl_flag (name : String) (put : σ → Bool → σ)
    (rule : ∀ declared, apply declared ⟨name, none⟩ = put declared true)
    (unset : put declared false = declared) (set : Bool) :
    (Report.flag name set).foldl apply declared = put declared set := by
  cases set with
  | false => exact unset.symm
  | true => exact rule declared

private theorem foldl_optional {tag : String → Tag} (put : σ → Option String → σ)
    (rule : ∀ declared text, apply declared (tag text) = put declared (some text))
    (unset : put declared none = declared) (value : Option String) :
    (value.toList.map tag).foldl apply declared = put declared value := by
  cases value with
  | none => exact unset.symm
  | some text => exact rule declared text

end Fields

/-!
## Tags without rules
-/

/-- Every tag is kept. -/
def plainTagging : Tagging RawTags where
  apply found tag := found.insert tag.name tag.argument
  tags found := found
  withTags _ found := found
  texts _ := []
  typed _ := []
  untagged _ := []
  withTags_withTags _ _ _ := rfl
  tags_withTags _ _ := rfl
  withTags_tags _ := rfl
  rule _ := .inl fun _ => rfl
  texts_apply _ _ _ member := .inl member
  typed_canonical _ _ _ member := nomatch member
  restored _ := rfl

/-!
## Record types
-/

/-- The record type without anything that its tags say. -/
def Record.untagged (record : Record) : Record :=
  { record with
    valueType := false
    configType := false
    external := false
    noSizeof := false
    cppName := none
    aliases := []
    tags := [] }

def Record.typedTags (record : Record) : List Tag :=
  Report.flag "value_type" record.valueType ++ Report.flag "config_type" record.configType ++
    Report.flag "external" record.external ++ Report.flag "no_sizeof" record.noSizeof ++
    record.cppName.toList.map (fun name => ⟨"cpp_name", some name⟩) ++
    record.aliases.map (fun name => ⟨"alias", some name⟩)

private theorem applyRecordTag_rule (tag : Tag) :
    (∀ record : Record, applyRecordTag record tag =
      { record with tags := SortedMap.insert tag.name tag.argument record.tags }) ∨
    ∀ record : Record, (applyRecordTag record tag).tags = record.tags := by
  obtain ⟨name, argument⟩ := tag
  unfold applyRecordTag
  dsimp only
  split <;> first | exact .inr fun _ => rfl | exact .inl fun _ => rfl

private theorem texts_applyRecordTag (record : Record) (tag : Tag) :
    ∀ text ∈ (applyRecordTag record tag).cppName.toList ++ (applyRecordTag record tag).aliases,
      text ∈ record.cppName.toList ++ record.aliases ∨ text = "" ∨ tag.argument = some text := by
  obtain ⟨name, argument⟩ := tag
  intro text member
  unfold applyRecordTag at member
  dsimp only at member
  split at member
  case h_5 =>
    rcases List.mem_append.mp member with named | other
    · exact .inr (.inr (congrArg some (List.mem_singleton.mp named).symm))
    · exact .inl (List.mem_append_right _ other)
  case h_6 =>
    rw [← List.append_assoc] at member
    rcases List.mem_append.mp member with old | added
    · exact .inl old
    · exact .inr (.inr (congrArg some (List.mem_singleton.mp added).symm))
  all_goals exact .inl member

private theorem Record.typedTags_canonical (record : Record)
    (texts : ∀ text ∈ record.cppName.toList ++ record.aliases, Text.Trimmed text.toList) :
    ∀ tag ∈ record.typedTags, tag.Canonical := by
  intro tag member
  simp only [typedTags, List.mem_append, or_assoc] at member
  rcases member with flag | flag | flag | flag | named | other
  · exact canonical_flag (by decide) flag
  · exact canonical_flag (by decide) flag
  · exact canonical_flag (by decide) flag
  · exact canonical_flag (by decide) flag
  · obtain ⟨name, held, rfl⟩ := List.mem_map.mp named
    exact .of_named (by decide) (texts name (List.mem_append_left _ held))
  · obtain ⟨name, held, rfl⟩ := List.mem_map.mp other
    exact .of_named (by decide) (texts name (List.mem_append_right _ held))

private theorem foldl_aliases (names : List String) (record : Record) :
    (names.map fun name => (⟨"alias", some name⟩ : Tag)).foldl applyRecordTag record =
      { record with aliases := record.aliases ++ names } := by
  induction names generalizing record with
  | nil => rw [List.map_nil, List.foldl_nil, List.append_nil]
  | cons name rest ih =>
    rw [List.map_cons, List.foldl_cons, ih]
    simp [applyRecordTag]

private theorem Record.foldl_typedTags (record : Record) :
    record.typedTags.foldl applyRecordTag record.untagged = { record with tags := [] } := by
  rw [typedTags, List.foldl_append, List.foldl_append, List.foldl_append, List.foldl_append,
    List.foldl_append,
    foldl_flag "value_type" (fun record valueType => { record with valueType }) (fun _ => rfl) rfl,
    foldl_flag "config_type" (fun record configType => { record with configType }) (fun _ => rfl) rfl,
    foldl_flag "external" (fun record external => { record with external }) (fun _ => rfl) rfl,
    foldl_flag "no_sizeof" (fun record noSizeof => { record with noSizeof }) (fun _ => rfl) rfl,
    foldl_optional (fun record cppName => { record with cppName }) (fun _ _ => rfl) rfl, foldl_aliases]
  rfl

def recordTagging : Tagging Record where
  apply := applyRecordTag
  tags := Record.tags
  withTags record tags := { record with tags }
  texts record := record.cppName.toList ++ record.aliases
  typed := Record.typedTags
  untagged := Record.untagged
  withTags_withTags _ _ _ := rfl
  tags_withTags _ _ := rfl
  withTags_tags _ := rfl
  rule := applyRecordTag_rule
  texts_apply := texts_applyRecordTag
  typed_canonical := Record.typedTags_canonical
  restored := Record.foldl_typedTags

/-!
## Schemas and datasets
-/

/-- The schema without anything that its tags say. -/
def StorageSchema.untagged (schema : StorageSchema) : StorageSchema :=
  { schema with
    external := none
    embedded := false
    skipProxy := false
    isDefault := false
    tags := [] }

def StorageSchema.typedTags (schema : StorageSchema) : List Tag :=
  schema.external.toList.map Report.externalSchemaTag ++ Report.flag "embedded" schema.embedded ++
    Report.flag "skip_proxy" schema.skipProxy ++ Report.flag "default" schema.isDefault

private theorem applySchemaTag_rule (tag : Tag) :
    (∀ schema : StorageSchema, applySchemaTag schema tag =
      { schema with tags := SortedMap.insert tag.name tag.argument schema.tags }) ∨
    ∀ schema : StorageSchema, (applySchemaTag schema tag).tags = schema.tags := by
  obtain ⟨name, argument⟩ := tag
  unfold applySchemaTag
  dsimp only
  split <;> first | exact .inr fun _ => rfl | exact .inl fun _ => rfl

/-- A header that is set is the argument of a tag, or empty if there is none. -/
theorem header_of_mem {header : Option String} {text : String}
    (member : text ∈ (some (header.getD "")).toList) : text = "" ∨ header = some text := by
  cases List.mem_singleton.mp member
  cases header with
  | none => exact .inl rfl
  | some header => exact .inr rfl

private theorem texts_applySchemaTag (schema : StorageSchema) (tag : Tag) :
    ∀ text ∈ (applySchemaTag schema tag).external.toList,
      text ∈ schema.external.toList ∨ text = "" ∨ tag.argument = some text := by
  obtain ⟨name, argument⟩ := tag
  intro text member
  unfold applySchemaTag at member
  dsimp only at member
  split at member
  case h_1 => exact .inr (header_of_mem member)
  all_goals exact .inl member

private theorem externalSchemaTag_canonical {header : String} (trimmed : Text.Trimmed header.toList) :
    (Report.externalSchemaTag header).Canonical := by
  unfold Report.externalSchemaTag
  split
  · exact Tag.canonical_of_parse? (by decide : Tag.parse? "external" = some ⟨"external", none⟩)
  · exact .of_named (by decide) trimmed

private theorem StorageSchema.typedTags_canonical (schema : StorageSchema)
    (texts : ∀ text ∈ schema.external.toList, Text.Trimmed text.toList) :
    ∀ tag ∈ schema.typedTags, tag.Canonical := by
  intro tag member
  simp only [typedTags, List.mem_append, or_assoc] at member
  rcases member with header | flag | flag | flag
  · obtain ⟨name, held, rfl⟩ := List.mem_map.mp header
    exact externalSchemaTag_canonical (texts name held)
  · exact canonical_flag (by decide) flag
  · exact canonical_flag (by decide) flag
  · exact canonical_flag (by decide) flag

/-- An empty header is left out, and none is read as an empty one. -/
theorem applySchemaTag_external (schema : StorageSchema) (header : String) :
    applySchemaTag schema (Report.externalSchemaTag header) =
      { schema with external := some header } := by
  unfold Report.externalSchemaTag
  split
  · rename_i empty
    rw [String.isEmpty_iff.mp empty]
    rfl
  · rfl

private theorem StorageSchema.foldl_typedTags (schema : StorageSchema) :
    schema.typedTags.foldl applySchemaTag schema.untagged = { schema with tags := [] } := by
  rw [typedTags, List.foldl_append, List.foldl_append, List.foldl_append,
    foldl_optional (fun schema external => { schema with external }) applySchemaTag_external rfl,
    foldl_flag "embedded" (fun schema embedded => { schema with embedded }) (fun _ => rfl) rfl,
    foldl_flag "skip_proxy" (fun schema skipProxy => { schema with skipProxy }) (fun _ => rfl) rfl,
    foldl_flag "default" (fun schema isDefault => { schema with isDefault }) (fun _ => rfl) rfl]
  rfl

def schemaTagging : Tagging StorageSchema where
  apply := applySchemaTag
  tags := StorageSchema.tags
  withTags schema tags := { schema with tags }
  texts schema := schema.external.toList
  typed := StorageSchema.typedTags
  untagged := StorageSchema.untagged
  withTags_withTags _ _ _ := rfl
  tags_withTags _ _ := rfl
  withTags_tags _ := rfl
  rule := applySchemaTag_rule
  texts_apply := texts_applySchemaTag
  typed_canonical := StorageSchema.typedTags_canonical
  restored := StorageSchema.foldl_typedTags

/-- The dataset without anything that its tags say. -/
def Dataset.untagged (dataset : Dataset) : Dataset :=
  { dataset with
    external := none
    tags := [] }

private theorem applyDatasetTag_rule (tag : Tag) :
    (∀ dataset : Dataset, applyDatasetTag dataset tag =
      { dataset with tags := SortedMap.insert tag.name tag.argument dataset.tags }) ∨
    ∀ dataset : Dataset, (applyDatasetTag dataset tag).tags = dataset.tags := by
  obtain ⟨name, argument⟩ := tag
  unfold applyDatasetTag
  dsimp only
  split <;> first | exact .inr fun _ => rfl | exact .inl fun _ => rfl

private theorem texts_applyDatasetTag (dataset : Dataset) (tag : Tag) :
    ∀ text ∈ (applyDatasetTag dataset tag).external.toList,
      text ∈ dataset.external.toList ∨ text = "" ∨ tag.argument = some text := by
  obtain ⟨name, argument⟩ := tag
  intro text member
  unfold applyDatasetTag at member
  dsimp only at member
  split at member
  · exact .inr (header_of_mem member)
  · exact .inl member

def datasetTagging : Tagging Dataset where
  apply := applyDatasetTag
  tags := Dataset.tags
  withTags dataset tags := { dataset with tags }
  texts dataset := dataset.external.toList
  typed dataset := dataset.external.toList.map fun header => ⟨"external", some header⟩
  untagged := Dataset.untagged
  withTags_withTags _ _ _ := rfl
  tags_withTags _ _ := rfl
  withTags_tags _ := rfl
  rule := applyDatasetTag_rule
  texts_apply := texts_applyDatasetTag
  typed_canonical dataset texts tag member := by
    obtain ⟨header, held, rfl⟩ := List.mem_map.mp member
    exact .of_named (by decide) (texts header held)
  restored dataset :=
    foldl_optional (fun (dataset : Dataset) external => { dataset with external }) (fun _ _ => rfl) rfl
      dataset.external

/-- All that tags have said of a schema, its datasets and their entries can be written as tags. -/
structure StorageSchema.Writable (schema : StorageSchema) : Prop where
  own : schemaTagging.Writable schema
  datasets : ∀ dataset ∈ schema.datasets, datasetTagging.Writable dataset
  entries : ∀ dataset ∈ schema.datasets, ∀ entry ∈ dataset.entries, plainTagging.Writable entry.tags

/-!
## What the rules leave
-/

theorem Tagging.Writable.parseAll {σ : Type} {kind : Tagging σ} {declared : σ}
    (writable : kind.Writable declared) (raw : List String) :
    kind.Writable ((Tag.parseAll raw).foldl kind.apply declared) :=
  writable.foldl fun _ => Tag.canonical_of_mem_parseAll

/-- A declaration of which tags have said nothing. -/
theorem Tagging.Writable.of_untagged {σ : Type} {kind : Tagging σ} {declared : σ}
    (texts : kind.texts declared = []) (tags : kind.tags declared = []) : kind.Writable declared where
  texts text member := by
    rw [texts] at member
    cases member
  kept := tags ▸ .nil _

private theorem plainTags_writable (raw : List String) : plainTagging.Writable (plainTags raw) :=
  (Tagging.Writable.of_untagged rfl rfl).parseAll raw

section Schemas

variable {model : Model} {owner : RecordId}

private theorem defaultDatasets_writable :
    ∀ dataset ∈ defaultDatasets model owner, datasetTagging.Writable dataset ∧
      ∀ entry ∈ dataset.entries, plainTagging.Writable entry.tags := by
  intro dataset listed
  cases List.mem_singleton.mp listed
  refine ⟨.of_untagged rfl rfl, fun entry member => ?_⟩
  obtain ⟨attr, -, rfl⟩ := List.mem_map.mp member
  exact .of_untagged rfl rfl

private theorem resolveEntry_writable {path : String} {declaration : Declaration.DatasetEntry}
    {entry : DatasetEntry} (accepted : resolveEntry model owner path declaration = .ok entry) :
    plainTagging.Writable entry.tags := by
  unfold resolveEntry at accepted
  dsimp only at accepted
  split at accepted
  · cases accepted
  · cases accepted
    exact plainTags_writable _

private theorem addDataset_writable {path : String} {before after : List Dataset}
    {declaration : Declaration.Dataset}
    (writable : ∀ dataset ∈ before, datasetTagging.Writable dataset ∧
      ∀ entry ∈ dataset.entries, plainTagging.Writable entry.tags)
    (accepted : addDataset model owner path before declaration = .ok after) :
    ∀ dataset ∈ after, datasetTagging.Writable dataset ∧
      ∀ entry ∈ dataset.entries, plainTagging.Writable entry.tags := by
  simp only [addDataset, bind, Except.bind] at accepted
  split at accepted
  · cases accepted
  · obtain ⟨entries, read, accepted⟩ := bind_ok accepted
    cases accepted
    intro dataset listed
    rcases List.mem_append.mp listed with old | last
    · exact writable dataset old
    · cases List.mem_singleton.mp last
      have tagged : datasetTagging.Writable
          ((Tag.parseAll declaration.tags).foldl applyDatasetTag { name := declaration.name }) :=
        (Tagging.Writable.of_untagged rfl rfl).parseAll _
      refine ⟨⟨tagged.texts, tagged.kept⟩, fun entry member => ?_⟩
      obtain ⟨_, -, resolved⟩ := mapM_ok read entry member
      exact resolveEntry_writable resolved

private theorem resolveSchema_writable {typePath : String} {declaration : Declaration.StorageSchema}
    {schema : StorageSchema} (accepted : resolveSchema model owner typePath declaration = .ok schema) :
    schema.Writable := by
  simp only [resolveSchema] at accepted
  obtain ⟨datasets, added, accepted⟩ := bind_ok accepted
  have tagged : schemaTagging.Writable ((Tag.parseAll declaration.tags).foldl applySchemaTag
      { name := declaration.name.getD defaultSchemaName, version := declaration.version }) :=
    (Tagging.Writable.of_untagged rfl rfl).parseAll _
  have declared := foldlM_preserves added
    (fun found => ∀ dataset ∈ found, datasetTagging.Writable dataset ∧
      ∀ entry ∈ dataset.entries, plainTagging.Writable entry.tags) (by simp)
    fun _ _ _ _ writable taken => addDataset_writable writable taken
  split at accepted
  · cases accepted
    exact ⟨⟨tagged.texts, tagged.kept⟩, fun dataset listed => (defaultDatasets_writable dataset listed).1,
      fun dataset listed => (defaultDatasets_writable dataset listed).2⟩
  · cases accepted
    exact ⟨⟨tagged.texts, tagged.kept⟩, fun dataset listed => (declared dataset listed).1,
      fun dataset listed => (declared dataset listed).2⟩

private theorem addSchema_writable {typePath : String} {before after : List StorageSchema}
    {declaration : Declaration.StorageSchema} (writable : ∀ schema ∈ before, schema.Writable)
    (accepted : addSchema model owner typePath before declaration = .ok after) :
    ∀ schema ∈ after, schema.Writable := by
  simp only [addSchema] at accepted
  obtain ⟨schema, resolved, accepted⟩ := bind_ok accepted
  split at accepted
  · cases accepted
  · cases accepted
    intro other listed
    rcases List.mem_append.mp listed with old | last
    · exact writable other old
    · cases List.mem_singleton.mp last
      exact resolveSchema_writable resolved

private theorem resolveSchemas_writable {after : Model} {pending : Pending RecordId Declaration.Record}
    (inside : pending.id.index < model.records.size)
    (accepted : resolveSchemas model pending = .ok after) :
    ∀ schema ∈ (after.record pending.id).schemas, schema.Writable := by
  simp only [resolveSchemas] at accepted
  obtain ⟨declared, added, accepted⟩ := bind_ok accepted
  cases accepted
  have kept := foldlM_preserves added (fun found => ∀ schema ∈ found, schema.Writable) (by simp)
    fun _ _ _ _ writable taken => addSchema_writable writable taken
  rw [record_modifyRecord, if_pos ⟨rfl, inside⟩]
  dsimp only
  split
  · intro schema listed
    cases List.mem_singleton.mp listed
    exact ⟨.of_untagged rfl rfl, fun dataset listed => (defaultDatasets_writable dataset listed).1,
      fun dataset listed => (defaultDatasets_writable dataset listed).2⟩
  · exact kept

end Schemas

private theorem resolveHeader_writable {model after : Model} {pending : Pending RecordId Declaration.Record}
    (writable : ∀ id, recordTagging.Writable (model.record id))
    (accepted : resolveHeader model pending = .ok after) (id : RecordId) :
    recordTagging.Writable (after.record id) := by
  simp only [resolveHeader] at accepted
  obtain ⟨base, -, accepted⟩ := bind_ok accepted
  obtain ⟨configs, -, accepted⟩ := bind_ok accepted
  obtain ⟨identity, -, accepted⟩ := bind_ok accepted
  cases accepted
  rw [record_modifyRecord]
  split
  · have before : recordTagging.Writable { model.record id with base, configs, identity } :=
      ⟨(writable id).texts, (writable id).kept⟩
    exact before.parseAll pending.declaration.tags
  · exact writable id

/-- Later passes leave what tags have said of a record type. -/
theorem Stages.writable {units : List SourceUnit} {built : Built} (stages : Stages units built)
    (id : RecordId) : recordTagging.Writable (built.model.record id) := by
  have consistent := Draft.ofUnits_consistent stages.named
  obtain ⟨passes⟩ := resolveDeclarations_passes stages.resolution
  have start : ∀ id, recordTagging.Writable (stages.draft.model.record id) := fun id =>
    consistent.fresh id ▸ .of_untagged rfl rfl
  have headed := foldlM_preserves passes.headers
    (fun state => ∀ id, recordTagging.Writable (state.record id)) start
    fun _ _ _ _ writable taken => resolveHeader_writable writable taken
  have same : ∀ {α : Type} (read : Record → α), (∀ record, read record.outline = read record) →
      (∀ record, read (Forget.derived.record record) = read record) →
        read (built.model.record id) = read (passes.headed.record id) := fun read kept derived =>
    (stages.agree_derived.recordField read derived id).trans
      ((passes.step consistent).field read kept id)
  have texts := same recordTagging.texts (fun _ => rfl) fun _ => rfl
  have tags := same recordTagging.tags (fun _ => rfl) fun _ => rfl
  exact ⟨texts ▸ (headed id).texts, tags ▸ (headed id).kept⟩

/-!
## Reports
-/

/-- The tags of a reported dataset and of its entries say what was declared. -/
structure Report.Dataset.Restores (reported : Report.Dataset) (dataset : RecordSchema.Dataset) :
    Prop where
  tags : (Tag.parseAll reported.tags).foldl applyDatasetTag dataset.untagged = dataset
  entries : List.Forall₂ (fun reported entry => plainTags reported.tags = entry.tags)
    reported.entries dataset.entries

/-- The tags of a reported schema and of its datasets say what was declared. -/
structure Report.Schema.Restores (reported : Report.Schema) (schema : StorageSchema) : Prop where
  tags : (Tag.parseAll reported.tags).foldl applySchemaTag schema.untagged = schema
  datasets : List.Forall₂ Report.Dataset.Restores reported.datasets schema.datasets

/-- The tags of a reported record type and of its schemas say what was declared. -/
structure Report.Record.Restores (reported : Report.Record) (record : RecordSchema.Record) :
    Prop where
  tags : (Tag.parseAll reported.tags).foldl applyRecordTag record.untagged = record
  schemas : List.Forall₂ Report.Schema.Restores reported.schemas record.schemas

private theorem Report.ofDataset_restores {dataset : RecordSchema.Dataset}
    (writable : datasetTagging.Writable dataset)
    (entries : ∀ entry ∈ dataset.entries, plainTagging.Writable entry.tags) :
    (Report.ofDataset dataset).Restores dataset where
  tags := writable.restored
  entries := List.forall₂_map_left_iff.mpr
    (List.forall₂_same.mpr fun entry member => (entries entry member).restored)

private theorem Report.ofSchema_restores {schema : StorageSchema} (writable : schema.Writable) :
    (Report.ofSchema schema).Restores schema where
  tags := writable.own.restored
  datasets := List.forall₂_map_left_iff.mpr (List.forall₂_same.mpr fun dataset member =>
    Report.ofDataset_restores (writable.datasets dataset member) (writable.entries dataset member))

private theorem Report.ofRecord_restores {units : List SourceUnit} {built : Built}
    (stages : Stages units built) {id : RecordId} (inside : id.index < built.model.records.size) :
    (Report.ofRecord built.model id).Restores (built.model.record id) where
  tags := (stages.writable id).restored
  schemas := by
    obtain ⟨pending, waits, rfl⟩ := stages.exists_pending inside
    obtain ⟨model, after, -, present, taken, same⟩ := stages.resolvedSchemas waits
    refine List.forall₂_map_left_iff.mpr (List.forall₂_same.mpr fun schema member => ?_)
    rw [same] at member
    exact Report.ofSchema_restores (resolveSchemas_writable present taken schema member)

/-- Every tag of a report, read by the rules for its declaration, says again what the model holds. -/
theorem report_restores_tags {units : List SourceUnit} {built : Built}
    (accepted : build units = .ok built) :
    List.Forall₂ (fun package id =>
        List.Forall₂ (fun reported record => reported.Restores (built.model.record record))
          package.records (Report.recordsOf built.model id))
      (Report.ofModel built.model).packages
      (built.model.packageIds.filter fun id => !(built.model.package id).included) := by
  obtain ⟨stages⟩ := build_stages accepted
  refine List.forall₂_map_left_iff.mpr (List.forall₂_same.mpr fun id _ => ?_)
  refine List.forall₂_map_left_iff.mpr (List.forall₂_same.mpr fun record member => ?_)
  exact Report.ofRecord_restores stages (Layout.mem_recordIds.mp (List.mem_of_mem_filter member))

/-- A record type with tags of all forms: some that rules consume, some of the same name with an argument
that no rule expects, one that is not closed and one without a name. -/
def taggedUnits : List SourceUnit :=
  let dataset : Declaration.Dataset :=
    { name := "values", tags := ["external()", "zip"]
      entries := [{ name := "count", tags := [" unit ( [m] (s ) "] }] }
  let schema : Declaration.StorageSchema :=
    { tags := ["external", "skip-proxy", "default(no)"], datasets := [dataset] }
  let frame : Declaration.Record :=
    { name := "Frame", attributes := [{ name := "count", typeName := some "uint8_t" }]
      tags := ["value-type", "value_type(deep)", "alias( Old (1)", "alias(Older", "cpp-name( N::F )",
        "external(frame.h)", "no_sizeof()", "(nameless)"]
      schemas := [schema] }
  [{ document := { packages := [.mk "Sample" none [] [] [] [] [frame]] } }]

/-- The tags of all declarations in a report, one list for each. -/
def Report.tagLists (report : Report) : List (List String) :=
  report.packages.flatMap fun package => package.records.flatMap fun record =>
    record.tags :: record.schemas.flatMap fun schema =>
      schema.tags :: schema.datasets.flatMap fun dataset =>
        dataset.tags :: dataset.entries.map fun entry => entry.tags

theorem report_restores_tags_sample : ∃ built, build taggedUnits = .ok built ∧
    (Report.ofModel built.model).tagLists =
      [["value_type", "external", "cpp_name(N::F)", "alias(Old (1)", "alias(Older)", "(nameless)",
          "no_sizeof()", "value_type(deep)"],
        ["external", "skip_proxy", "default(no)"], ["external()", "zip"], ["unit([m] (s)"]] ∧
    List.Forall₂ (fun package id =>
        List.Forall₂ (fun reported record => reported.Restores (built.model.record record))
          package.records (Report.recordsOf built.model id))
      (Report.ofModel built.model).packages
      (built.model.packageIds.filter fun id => !(built.model.package id).included) := by
  have computed : ∃ built, build taggedUnits = .ok built ∧
      (Report.ofModel built.model).tagLists =
        [["value_type", "external", "cpp_name(N::F)", "alias(Old (1)", "alias(Older)", "(nameless)",
            "no_sizeof()", "value_type(deep)"],
          ["external", "skip_proxy", "default(no)"], ["external()", "zip"], ["unit([m] (s)"]] :=
    exists_built (by decide +kernel)
  obtain ⟨built, accepted, tags⟩ := computed
  exact ⟨built, accepted, tags, report_restores_tags accepted⟩

end RecordSchema
