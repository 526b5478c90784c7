import RecordSchema.Proofs.Json
import RecordSchema.Report.Decoding

/-!
# Reports are read back

A report that is written as a JSON text and read again is the same report. Each part of a report is written
as an object with a slot for each field that its reader asks for. A slot that need not be said is left
empty, and what the reader takes an empty slot for is what was left out.
-/

set_option autoImplicit false

namespace RecordSchema.Report

open RecordSchema.Json (Plain)

/-!
## Slots of an object
-/

/-- The fields of an object, slot by slot. -/
def filled (slots : List (String × Option Json)) : List (String × Json) :=
  slots.filterMap fun slot => slot.2.map (slot.1, ·)

/-- A slot for texts, which is empty if there are none. -/
def anyTexts : List String → Option Json
  | [] => none
  | texts => some (Json.strings texts)

@[simp]
theorem filled_nil : filled [] = [] :=
  rfl

@[simp]
theorem filled_cons (name : String) (content : Option Json) (rest : List (String × Option Json)) :
    filled ((name, content) :: rest) = (content.map (name, ·)).toList ++ filled rest := by
  cases content <;> rfl

private theorem ifSome_eq {α : Type} (name : String) (encode : α → Json) (value : Option α) :
    ifSome name encode value = ((value.map encode).map (name, ·)).toList := by
  cases value <;> rfl

private theorem ifAny_eq (name : String) (texts : List String) :
    ifAny name texts = ((anyTexts texts).map (name, ·)).toList := by
  cases texts <;> rfl

private theorem names_filled (slots : List (String × Option Json)) :
    ((filled slots).map Prod.fst).Sublist (slots.map Prod.fst) := by
  induction slots with
  | nil => exact List.Sublist.refl _
  | cons slot rest ih =>
    obtain ⟨name, content⟩ := slot
    cases content with
    | none => exact ih.cons _
    | some value => exact ih.cons_cons _

private theorem lookup_filled {slots : List (String × Option Json)} (distinct : (slots.map Prod.fst).Nodup)
    {name : String} {content : Option Json} (slot : slots.lookup name = some content) :
    (filled slots).lookup name = content := by
  induction slots with
  | nil => cases slot
  | cons first rest ih =>
    obtain ⟨other, held⟩ := first
    obtain ⟨new, others⟩ := List.nodup_cons.mp distinct
    by_cases same : name = other
    · subst same
      rw [List.lookup_cons_self, Option.some.injEq] at slot
      subst slot
      cases held with
      | some value => exact List.lookup_cons_self
      | none =>
        refine List.lookup_eq_none_iff.mpr fun field member => ?_
        have named := (names_filled rest).subset (List.mem_map_of_mem member)
        exact bne_iff_ne.mpr fun same => new (same ▸ named)
    · have passed : (name == other) = false := beq_eq_false_iff_ne.mpr same
      rw [List.lookup_cons, passed] at slot
      cases held with
      | some value =>
        change ((other, value) :: filled rest).lookup name = content
        rw [List.lookup_cons, passed]
        exact ih others slot
      | none => exact ih others slot

/-- A reader that asks for all the slots finds those that are filled. -/
theorem fields_filled {slots : List (String × Option Json)} (distinct : (slots.map Prod.fst).Nodup)
    (depth : Nat) :
    Json.reader.fields depth (slots.map Prod.fst) (.obj (filled slots)) = pure (filled slots) := by
  have some := names_filled slots
  have kept : (filled slots).filter (fun field => (slots.map Prod.fst).contains field.1) =
      filled slots := by
    refine List.filter_eq_self.mpr fun field member => ?_
    simpa using some.subset (List.mem_map_of_mem member)
  change Json.declaredFields _ _ = _
  unfold Json.declaredFields Json.readIf
  rw [kept]
  exact if_pos (decide_eq_true (distinct.sublist some))

private theorem plain_filled {slots : List (String × Option Json)}
    (contents : ∀ slot ∈ slots, ∀ value ∈ slot.2, Plain value) : Plain (.obj (filled slots)) := by
  refine .obj fun field member => ?_
  obtain ⟨slot, inside, kept⟩ := List.mem_filterMap.mp member
  obtain ⟨value, held, rfl⟩ := Option.map_eq_some_iff.mp kept
  exact contents slot inside value held

private theorem plain_listOf {α : Type} {encode : α → Json} (each : ∀ item, Plain (encode item))
    (items : List α) : Plain (listOf encode items) := by
  refine .arr fun value member => ?_
  obtain ⟨item, -, rfl⟩ := List.mem_map.mp member
  exact each item

private theorem plain_some {node : Json} (plain : Plain node) : ∀ value ∈ some node, Plain value := by
  rintro _ ⟨⟩
  exact plain

private theorem plain_word (value : UInt32) : Plain (word value) :=
  .int _

private theorem plain_map {α : Type} {encode : α → Json} (each : ∀ item, Plain (encode item))
    (content : Option α) : ∀ value ∈ content.map encode, Plain value := by
  intro value held
  obtain ⟨item, -, rfl⟩ := Option.map_eq_some_iff.mp held
  exact each item

private theorem plain_anyTexts {texts : List String} {value : Json} (held : anyTexts texts = some value) :
    Plain value := by
  cases texts with
  | nil => cases held
  | cons text rest =>
    cases held
    exact plain_listOf Plain.str (text :: rest)

/-!
## What is read from a slot
-/

private theorem list_listOf {α : Type} {read : Nat → Json → Decoded α} {encode : α → Json}
    (each : ∀ depth item, read depth (encode item) = pure item) (depth : Nat) (items : List α) :
    Json.reader.list depth read (listOf encode items) = pure items := by
  change (items.map encode).mapM (read (depth - 1)) = pure items
  induction items with
  | nil => rfl
  | cons item rest ih => simp only [List.map_cons, List.mapM_cons, each, ih, pure_bind]

private theorem texts_strings (depth : Nat) (texts : List String) :
    Json.reader.texts depth (Json.strings texts) = pure texts :=
  @list_listOf _ _ Json.str (fun _ _ => rfl) depth texts

private theorem read_word (value : UInt32) : Json.reader.word (word value) = pure value := by
  have bound := value.toNat_lt
  have small : (0 ≤ (value.toNat : Int) && (value.toNat : Int) ≤ 4294967295) = true := by
    simp
    omega
  change Json.readIf _ _ = pure value
  rw [Json.readIf, if_pos small]
  simp

section Reading

variable {slots : List (String × Option Json)} (distinct : (slots.map Prod.fst).Nodup) {name : String}
include distinct

private theorem required_filled {α : Type} {node : Json} (slot : slots.lookup name = some (some node))
    (read : Json → Decoded α) : Reader.required (filled slots) name read = read node := by
  rw [Reader.required, lookup_filled distinct slot]

/-- Texts that are left out are none. -/
theorem withDefault_filled {texts : List String} (slot : slots.lookup name = some (anyTexts texts))
    (depth : Nat) :
    Reader.withDefault (filled slots) name [] (Json.reader.texts depth) = pure texts := by
  rw [Reader.withDefault, lookup_filled distinct slot]
  cases texts with
  | nil => rfl
  | cons text rest => exact texts_strings depth _

/-- A value that is left out is absent. -/
theorem optional_filled {α : Type} {read : Json → Decoded α} (encode : α → Json) {value : Option α}
    (slot : slots.lookup name = some (value.map encode))
    (present : ∀ value, Json.reader.present (encode value) = pure (some (encode value)))
    (each : ∀ value, read (encode value) = pure value) :
    Json.reader.optional (filled slots) name read = pure value := by
  rw [Reader.optional, lookup_filled distinct slot]
  cases value with
  | none => rfl
  | some value => simp [present, each]

end Reading

/-!
## The parts of a report
-/

/-- The slots of a value of a dataset. -/
def Entry.slots (entry : Entry) : List (String × Option Json) :=
  [("name", some (.str entry.name)), ("method", some (.str entry.method)),
    ("rank", some (word entry.rank)), ("tags", anyTexts entry.tags)]

private theorem Entry.toJson_eq (entry : Entry) : entry.toJson = .obj (filled entry.slots) := by
  simp [Entry.toJson, Entry.slots, ifAny_eq]

private theorem Entry.plain_toJson (entry : Entry) : Plain entry.toJson := by
  rw [Entry.toJson_eq]
  refine plain_filled ?_
  simp only [Entry.slots, List.forall_mem_cons]
  exact ⟨plain_some (.str _), plain_some (.str _), plain_some (plain_word _), fun _ => plain_anyTexts,
    List.forall_mem_nil _⟩

private theorem Entry.read_toJson (depth : Nat) (entry : Entry) :
    Entry.read Json.reader depth entry.toJson = pure entry := by
  have distinct : (entry.slots.map Prod.fst).Nodup :=
    (by decide : ["name", "method", "rank", "tags"].Nodup)
  have fields : Json.reader.fields _ ["name", "method", "rank", "tags"] _ = _ :=
    fields_filled distinct depth
  rw [Entry.toJson_eq, Entry.read, fields, pure_bind, required_filled distinct rfl,
    required_filled distinct rfl, required_filled distinct rfl, read_word,
    withDefault_filled distinct rfl]
  rfl

/-- The slots of a dataset. -/
def Dataset.slots (dataset : Dataset) : List (String × Option Json) :=
  [("name", some (.str dataset.name)), ("tags", anyTexts dataset.tags),
    ("attributes", some (listOf Entry.toJson dataset.entries))]

private theorem Dataset.toJson_eq (dataset : Dataset) : dataset.toJson = .obj (filled dataset.slots) := by
  simp [Dataset.toJson, Dataset.slots, ifAny_eq]

private theorem Dataset.plain_toJson (dataset : Dataset) : Plain dataset.toJson := by
  rw [Dataset.toJson_eq]
  refine plain_filled ?_
  simp only [Dataset.slots, List.forall_mem_cons]
  exact ⟨plain_some (.str _), fun _ => plain_anyTexts, plain_some (plain_listOf Entry.plain_toJson _),
    List.forall_mem_nil _⟩

private theorem Dataset.read_toJson (depth : Nat) (dataset : Dataset) :
    Dataset.read Json.reader depth dataset.toJson = pure dataset := by
  have distinct : (dataset.slots.map Prod.fst).Nodup :=
    (by decide : ["name", "tags", "attributes"].Nodup)
  have fields : Json.reader.fields _ ["name", "tags", "attributes"] _ = _ :=
    fields_filled distinct depth
  rw [Dataset.toJson_eq, Dataset.read, fields, pure_bind, required_filled distinct rfl,
    withDefault_filled distinct rfl, required_filled distinct rfl, list_listOf Entry.read_toJson]
  rfl

/-- The slots of a storage schema. -/
def Schema.slots (schema : Schema) : List (String × Option Json) :=
  [("name", some (.str schema.name)), ("version", some (word schema.version)),
    ("tags", anyTexts schema.tags), ("datasets", some (listOf Dataset.toJson schema.datasets))]

private theorem Schema.toJson_eq (schema : Schema) : schema.toJson = .obj (filled schema.slots) := by
  simp [Schema.toJson, Schema.slots, ifAny_eq]

private theorem Schema.plain_toJson (schema : Schema) : Plain schema.toJson := by
  rw [Schema.toJson_eq]
  refine plain_filled ?_
  simp only [Schema.slots, List.forall_mem_cons]
  exact ⟨plain_some (.str _), plain_some (plain_word _), fun _ => plain_anyTexts,
    plain_some (plain_listOf Dataset.plain_toJson _), List.forall_mem_nil _⟩

private theorem Schema.read_toJson (depth : Nat) (schema : Schema) :
    Schema.read Json.reader depth schema.toJson = pure schema := by
  have distinct : (schema.slots.map Prod.fst).Nodup :=
    (by decide : ["name", "version", "tags", "datasets"].Nodup)
  have fields : Json.reader.fields _ ["name", "version", "tags", "datasets"] _ = _ :=
    fields_filled distinct depth
  rw [Schema.toJson_eq, Schema.read, fields, pure_bind, required_filled distinct rfl,
    required_filled distinct rfl, read_word, withDefault_filled distinct rfl,
    required_filled distinct rfl, list_listOf Dataset.read_toJson]
  rfl

/-- The slots of an attribute. -/
def Attribute.slots (attr : Attribute) : List (String × Option Json) :=
  [("name", some (.str attr.name)), ("type", some (.str attr.type)),
    ("offset", some (.str attr.offset)), ("shape", anyTexts attr.shape),
    ("accessor", attr.accessor.map Json.str)]

private theorem Attribute.toJson_eq (attr : Attribute) : attr.toJson = .obj (filled attr.slots) := by
  simp [Attribute.toJson, Attribute.slots, ifAny_eq, ifSome_eq]

private theorem Attribute.plain_toJson (attr : Attribute) : Plain attr.toJson := by
  rw [Attribute.toJson_eq]
  refine plain_filled ?_
  simp only [Attribute.slots, List.forall_mem_cons]
  exact ⟨plain_some (.str _), plain_some (.str _), plain_some (.str _), fun _ => plain_anyTexts,
    plain_map Plain.str _, List.forall_mem_nil _⟩

private theorem Attribute.read_toJson (depth : Nat) (attr : Attribute) :
    Attribute.read Json.reader depth attr.toJson = pure attr := by
  have distinct : (attr.slots.map Prod.fst).Nodup :=
    (by decide : ["name", "type", "offset", "shape", "accessor"].Nodup)
  have fields : Json.reader.fields _ ["name", "type", "offset", "shape", "accessor"] _ = _ :=
    fields_filled distinct depth
  rw [Attribute.toJson_eq, Attribute.read, fields, pure_bind, required_filled distinct rfl,
    required_filled distinct rfl, required_filled distinct rfl, withDefault_filled distinct rfl,
    optional_filled distinct Json.str rfl (fun _ => rfl) (fun _ => rfl)]
  rfl

/-- The slots of a record type. -/
def Record.slots (record : Record) : List (String × Option Json) :=
  [("name", some (.str record.name)), ("type-id", record.typeId.map word),
    ("version", record.version.map word), ("size", some (.str record.size)),
    ("config", anyTexts record.configs), ("tags", anyTexts record.tags),
    ("attributes", some (listOf Attribute.toJson record.attributes)),
    ("schemas", some (listOf Schema.toJson record.schemas))]

private theorem Record.toJson_eq (record : Record) : record.toJson = .obj (filled record.slots) := by
  simp [Record.toJson, Record.slots, ifAny_eq, ifSome_eq]

private theorem Record.plain_toJson (record : Record) : Plain record.toJson := by
  rw [Record.toJson_eq]
  refine plain_filled ?_
  simp only [Record.slots, List.forall_mem_cons]
  exact ⟨plain_some (.str _), plain_map plain_word _, plain_map plain_word _, plain_some (.str _),
    fun _ => plain_anyTexts, fun _ => plain_anyTexts,
    plain_some (plain_listOf Attribute.plain_toJson _),
    plain_some (plain_listOf Schema.plain_toJson _), List.forall_mem_nil _⟩

private theorem Record.read_toJson (depth : Nat) (record : Record) :
    Record.read Json.reader depth record.toJson = pure record := by
  have distinct : (record.slots.map Prod.fst).Nodup :=
    (by decide : Record.fieldNames.Nodup)
  have fields : Json.reader.fields _ Record.fieldNames _ = _ :=
    fields_filled distinct depth
  rw [Record.toJson_eq, Record.read, fields, pure_bind, required_filled distinct rfl,
    optional_filled distinct word rfl (fun _ => rfl) read_word,
    optional_filled distinct word rfl (fun _ => rfl) read_word, required_filled distinct rfl,
    withDefault_filled distinct rfl, withDefault_filled distinct rfl, required_filled distinct rfl,
    list_listOf Attribute.read_toJson, required_filled distinct rfl, list_listOf Schema.read_toJson]
  rfl

/-- The slots of a package. -/
def Package.slots (package : Package) : List (String × Option Json) :=
  [("name", some (.str package.name)), ("types", some (listOf Record.toJson package.records))]

private theorem Package.toJson_eq (package : Package) : package.toJson = .obj (filled package.slots) := by
  simp [Package.toJson, Package.slots]

private theorem Package.plain_toJson (package : Package) : Plain package.toJson := by
  rw [Package.toJson_eq]
  refine plain_filled ?_
  simp only [Package.slots, List.forall_mem_cons]
  exact ⟨plain_some (.str _), plain_some (plain_listOf Record.plain_toJson _), List.forall_mem_nil _⟩

private theorem Package.read_toJson (depth : Nat) (package : Package) :
    Package.read Json.reader depth package.toJson = pure package := by
  have distinct : (package.slots.map Prod.fst).Nodup :=
    (by decide : ["name", "types"].Nodup)
  have fields : Json.reader.fields _ ["name", "types"] _ = _ :=
    fields_filled distinct depth
  rw [Package.toJson_eq, Package.read, fields, pure_bind, required_filled distinct rfl,
    required_filled distinct rfl, list_listOf Record.read_toJson]
  rfl

/-- The slot of a report. -/
def slots (report : Report) : List (String × Option Json) :=
  [("packages", some (listOf Package.toJson report.packages))]

private theorem toJson_eq (report : Report) : report.toJson = .obj (filled report.slots) := by
  simp [toJson, slots]

private theorem plain_toJson (report : Report) : Plain report.toJson := by
  rw [toJson_eq]
  refine plain_filled ?_
  simp only [slots, List.forall_mem_cons]
  exact ⟨plain_some (plain_listOf Package.plain_toJson _), List.forall_mem_nil _⟩

private theorem read_toJson (depth : Nat) (report : Report) :
    read Json.reader depth report.toJson = pure report := by
  have distinct : (report.slots.map Prod.fst).Nodup :=
    (by decide : ["packages"].Nodup)
  have fields : Json.reader.fields _ ["packages"] _ = _ :=
    fields_filled distinct depth
  rw [toJson_eq, read, fields, pure_bind, required_filled distinct rfl, list_listOf Package.read_toJson]
  rfl

/-- A report that is written and read again is the same. -/
theorem ofJsonText?_toJsonText (report : Report) :
    ofJson? report.toJson = some report ∧ ofJsonText? (toJsonText report) = some report := by
  have read : ofJson? report.toJson = some report := by
    change ((read Json.reader _ report.toJson).run 0).map Prod.fst = _
    rw [read_toJson]
    rfl
  refine ⟨read, ?_⟩
  rw [ofJsonText?, toJsonText, (plain_toJson report).parse?_pretty, Option.bind_some, read]

end RecordSchema.Report
