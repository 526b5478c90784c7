import RecordSchema.Proofs.Model.Members
import RecordSchema.Resolution.Lookup

/-!
# A model within another

A model is within another if whatever it declares is declared there too, under the same identifier and
with the same content. Methods alone have other identifiers there: the accessors of all types come before
the methods that are declared. Both models may change alike, and the larger one in what is its own.
-/

set_option autoImplicit false

namespace RecordSchema

def DatasetSource.renumber (move : MethodId → MethodId) : DatasetSource → DatasetSource
  | attr id => .attr id
  | method id => .method (move id)

def DatasetEntry.renumber (move : MethodId → MethodId) (entry : DatasetEntry) : DatasetEntry :=
  { entry with source := entry.source.renumber move }

def Dataset.renumber (move : MethodId → MethodId) (dataset : Dataset) : Dataset :=
  { dataset with entries := dataset.entries.map (DatasetEntry.renumber move) }

def StorageSchema.renumber (move : MethodId → MethodId) (schema : StorageSchema) : StorageSchema :=
  { schema with datasets := schema.datasets.map (Dataset.renumber move) }

def Attribute.renumber (move : MethodId → MethodId) (attr : Attribute) : Attribute :=
  { attr with accessor := attr.accessor.map move }

def Bitfield.renumber (move : MethodId → MethodId) (bitfield : Bitfield) : Bitfield :=
  { bitfield with accessor := bitfield.accessor.map move }

/-- The record type with other identifiers for methods, in its list of them and in its schemas. -/
def Record.renumber (move : MethodId → MethodId) (record : Record) : Record :=
  { record with
    methods := record.methods.map move
    schemas := record.schemas.map (StorageSchema.renumber move) }

theorem StorageSchema.renumber_id : StorageSchema.renumber id = id := by
  have source : DatasetSource.renumber id = id := by
    funext source
    cases source <;> rfl
  have entry : DatasetEntry.renumber id = id := by
    funext entry
    simp only [DatasetEntry.renumber, source, id_eq]
  have dataset : Dataset.renumber id = id := by
    funext dataset
    simp only [Dataset.renumber, entry, List.map_id, id_eq]
  funext schema
  simp only [StorageSchema.renumber, dataset, List.map_id, id_eq]

theorem Record.renumber_id (record : Record) : record.renumber id = record := by
  simp only [Record.renumber, StorageSchema.renumber_id, List.map_id]

/-!
## Methods in range

Only the methods that a declaration refers to matter for how methods are renumbered.
-/

section Congruence

variable {move move' : MethodId → MethodId} {census : Census}
  (same : ∀ id : MethodId, id.index < census.methods → move' id = move id)

include same

private theorem StorageSchema.renumber_congr {schema : StorageSchema}
    (closed : InRange census schema.references) :
    schema.renumber move' = schema.renumber move := by
  have entries : ∀ dataset ∈ schema.datasets, ∀ entry ∈ dataset.entries,
      entry.renumber move' = entry.renumber move := by
    intro dataset held entry listed
    have inside : entry.source.reference.InRange census :=
      inRange_map.mp (inRange_flatMap.mp closed dataset held) entry listed
    cases source : entry.source with
    | attr id => simp only [DatasetEntry.renumber, source, DatasetSource.renumber]
    | method id =>
      rw [source] at inside
      simp only [DatasetEntry.renumber, source, DatasetSource.renumber, same id inside]
  have datasets : schema.datasets.map (Dataset.renumber move') =
      schema.datasets.map (Dataset.renumber move) := by
    refine List.map_congr_left fun dataset held => ?_
    rw [Dataset.renumber, Dataset.renumber, List.map_congr_left (entries dataset held)]
  rw [StorageSchema.renumber, StorageSchema.renumber, datasets]

private theorem Record.renumber_congr {record : Record} (closed : record.Closed census) :
    record.renumber move' = record.renumber move := by
  have schemas := List.map_congr_left fun schema listed =>
    StorageSchema.renumber_congr same (closed.schemas schema listed)
  have methods := List.map_congr_left fun id listed => same id (closed.methods id listed)
  rw [Record.renumber, Record.renumber, schemas, methods]

end Congruence

namespace Model

/-- What a name stands for if no scope around has it. -/
def outermost? (model : Model) (name : String) : Option Meaning :=
  match model.roots.lookup name with
  | some root => some (.member (.package root))
  | none => (Builtin.ofName? name).map .builtin

/-- All that a model declares is declared in another one, and has the same content there. -/
structure Within (move : MethodId → MethodId) (part whole : Model) : Prop where
  census : part.census ≤ whole.census
  package : ∀ id : PackageId, id.index < part.packages.size → whole.package id = part.package id
  record : ∀ id : RecordId, id.index < part.records.size →
    whole.record id = (part.record id).renumber move
  attr : ∀ id : AttributeId, id.index < part.attributes.size →
    whole.attr id = (part.attr id).renumber move
  bitfield : ∀ id : BitfieldId, id.index < part.bitfields.size →
    whole.bitfield id = (part.bitfield id).renumber move
  method : ∀ id : MethodId, id.index < part.methods.size →
    (move id).index < whole.methods.size ∧ whole.method (move id) = part.method id
  enumeration : ∀ id : EnumId, id.index < part.enumerations.size →
    whole.enumeration id = part.enumeration id
  constant : ∀ id : ConstantId, id.index < part.constants.size →
    whole.constant id = part.constant id
  outermost : ∀ name meaning, part.outermost? name = some meaning →
    whole.outermost? name = some meaning

namespace Within

variable {move : MethodId → MethodId} {part whole : Model} (within : Within move part whole)

/-- Only the methods of the smaller model matter for how methods are renumbered. -/
theorem congr {move' : MethodId → MethodId} (within : Within move part whole) (closed : part.Closed)
    (same : ∀ id : MethodId, id.index < part.methods.size → move' id = move id) :
    Within move' part whole :=
  { within with
    record := fun id inside => by
      rw [within.record id inside, Record.renumber_congr same (closed.record inside)]
    attr := fun id inside => by
      have accessor := Option.map_congr fun method known =>
        same method ((closed.attr inside).accessor method known)
      rw [within.attr id inside, Attribute.renumber, Attribute.renumber, accessor]
    bitfield := fun id inside => by
      have accessor := Option.map_congr fun method known =>
        same method (closed.bitfieldAccessor inside method known)
      rw [within.bitfield id inside, Bitfield.renumber, Bitfield.renumber, accessor]
    method := fun id inside => by
      rw [same id inside]
      exact within.method id inside }

/-!
## Changes to the larger model
-/

section Larger

include within

theorem pushPackage (added : Package) : Within move part (whole.pushPackage added) :=
  { within with
    census := Census.le_trans within.census (whole.census_le_pushPackage added)
    package := fun id inside => by
      have old : id.index < whole.packages.size := Nat.lt_of_lt_of_le inside within.census.packages
      rw [package_pushPackage, if_neg (Nat.ne_of_lt old), within.package id inside] }

theorem pushRecord (added : Record) : Within move part (whole.pushRecord added) :=
  { within with
    census := Census.le_trans within.census (whole.census_le_pushRecord added)
    record := fun id inside => by
      have old : id.index < whole.records.size := Nat.lt_of_lt_of_le inside within.census.records
      rw [record_pushRecord, if_neg (Nat.ne_of_lt old), within.record id inside] }

theorem pushAttribute (added : Attribute) : Within move part (whole.pushAttribute added) :=
  { within with
    census := Census.le_trans within.census (whole.census_le_pushAttribute added)
    attr := fun id inside => by
      have old : id.index < whole.attributes.size := Nat.lt_of_lt_of_le inside within.census.attributes
      rw [attr_pushAttribute, if_neg (Nat.ne_of_lt old), within.attr id inside] }

theorem pushBitfield (added : Bitfield) : Within move part (whole.pushBitfield added) :=
  { within with
    census := Census.le_trans within.census (whole.census_le_pushBitfield added)
    bitfield := fun id inside => by
      have old : id.index < whole.bitfields.size := Nat.lt_of_lt_of_le inside within.census.bitfields
      rw [bitfield_pushBitfield, if_neg (Nat.ne_of_lt old), within.bitfield id inside] }

theorem pushMethod (added : Method) : Within move part (whole.pushMethod added) :=
  { within with
    census := Census.le_trans within.census (whole.census_le_pushMethod added)
    method := fun id inside => by
      obtain ⟨there, same⟩ := within.method id inside
      refine ⟨?_, ?_⟩
      · exact Nat.lt_of_lt_of_le there (whole.census_le_pushMethod added).methods
      · rw [method_pushMethod, if_neg (Nat.ne_of_lt there), same] }

theorem pushEnumeration (added : Enumeration) : Within move part (whole.pushEnumeration added) :=
  { within with
    census := Census.le_trans within.census (whole.census_le_pushEnumeration added)
    enumeration := fun id inside => by
      have old : id.index < whole.enumerations.size := Nat.lt_of_lt_of_le inside within.census.enumerations
      rw [enumeration_pushEnumeration, if_neg (Nat.ne_of_lt old), within.enumeration id inside] }

theorem pushConstant (added : Constant) : Within move part (whole.pushConstant added) :=
  { within with
    census := Census.le_trans within.census (whole.census_le_pushConstant added)
    constant := fun id inside => by
      have old : id.index < whole.constants.size := Nat.lt_of_lt_of_le inside within.census.constants
      rw [constant_pushConstant, if_neg (Nat.ne_of_lt old), within.constant id inside] }

theorem modifyPackage {id : PackageId} (outside : part.packages.size ≤ id.index)
    (change : Package → Package) : Within move part (whole.modifyPackage id change) :=
  { within with
    census := (whole.census_modifyPackage id change).symm ▸ within.census
    package := fun other inside => by
      have apart : id ≠ other := fun same => Nat.not_lt_of_le outside (same ▸ inside)
      rw [package_modifyPackage, if_neg fun both => apart both.1, within.package other inside] }

theorem modifyRecord {id : RecordId} (outside : part.records.size ≤ id.index)
    (change : Record → Record) : Within move part (whole.modifyRecord id change) :=
  { within with
    census := (whole.census_modifyRecord id change).symm ▸ within.census
    record := fun other inside => by
      have apart : id ≠ other := fun same => Nat.not_lt_of_le outside (same ▸ inside)
      rw [record_modifyRecord, if_neg fun both => apart both.1, within.record other inside] }

theorem modifyAttribute {id : AttributeId} (outside : part.attributes.size ≤ id.index)
    (change : Attribute → Attribute) : Within move part (whole.modifyAttribute id change) :=
  { within with
    census := (whole.census_modifyAttribute id change).symm ▸ within.census
    attr := fun other inside => by
      have apart : id ≠ other := fun same => Nat.not_lt_of_le outside (same ▸ inside)
      rw [attr_modifyAttribute, if_neg fun both => apart both.1, within.attr other inside] }

theorem modifyBitfield {id : BitfieldId} (outside : part.bitfields.size ≤ id.index)
    (change : Bitfield → Bitfield) : Within move part (whole.modifyBitfield id change) :=
  { within with
    census := (whole.census_modifyBitfield id change).symm ▸ within.census
    bitfield := fun other inside => by
      have apart : id ≠ other := fun same => Nat.not_lt_of_le outside (same ▸ inside)
      rw [bitfield_modifyBitfield, if_neg fun both => apart both.1, within.bitfield other inside] }

theorem modifyEnumeration {id : EnumId} (outside : part.enumerations.size ≤ id.index)
    (change : Enumeration → Enumeration) : Within move part (whole.modifyEnumeration id change) :=
  { within with
    census := (whole.census_modifyEnumeration id change).symm ▸ within.census
    enumeration := fun other inside => by
      have apart : id ≠ other := fun same => Nat.not_lt_of_le outside (same ▸ inside)
      rw [enumeration_modifyEnumeration, if_neg fun both => apart both.1,
        within.enumeration other inside] }

theorem modifyConstant {id : ConstantId} (outside : part.constants.size ≤ id.index)
    (change : Constant → Constant) : Within move part (whole.modifyConstant id change) :=
  { within with
    census := (whole.census_modifyConstant id change).symm ▸ within.census
    constant := fun other inside => by
      have apart : id ≠ other := fun same => Nat.not_lt_of_le outside (same ▸ inside)
      rw [constant_modifyConstant, if_neg fun both => apart both.1, within.constant other inside] }

theorem withMethod {added : Method} (outside : part.records.size ≤ added.owner.index) :
    Within move part (whole.withMethod added) :=
  (within.pushMethod added).modifyRecord outside _

theorem withReadAttribute {added : Attribute} {accessor : Method}
    (outside : part.records.size ≤ added.owner.index)
    (outside' : part.records.size ≤ accessor.owner.index) :
    Within move part (whole.withReadAttribute added accessor) :=
  Within.modifyAttribute
    (Within.withMethod ((within.pushAttribute added).modifyRecord outside _) outside')
    within.census.attributes _

theorem withReadBitfield {added : Bitfield} {accessor : Method}
    (outside : part.attributes.size ≤ added.attr.index)
    (outside' : part.records.size ≤ accessor.owner.index) :
    Within move part (whole.withReadBitfield added accessor) :=
  Within.modifyBitfield
    (Within.withMethod ((within.pushBitfield added).modifyAttribute outside _) outside')
    within.census.bitfields _

end Larger

/-!
## The same change to both
-/

section Both

include within

private theorem pushAttributes (abreast : whole.attributes.size = part.attributes.size)
    (added : Attribute) :
    Within move (part.pushAttribute added) (whole.pushAttribute (added.renumber move)) :=
  { within with
    census := by
      rw [census_pushAttribute, census_pushAttribute]
      exact { within.census with attributes := Nat.succ_le_succ within.census.attributes }
    attr := fun id inside => by
      rw [attr_pushAttribute, attr_pushAttribute, abreast]
      rcases lt_push inside with old | last
      · rw [if_neg (Nat.ne_of_lt old), if_neg (Nat.ne_of_lt old), within.attr id old]
      · rw [if_pos last, if_pos last] }

private theorem pushBitfields (abreast : whole.bitfields.size = part.bitfields.size) (added : Bitfield) :
    Within move (part.pushBitfield added) (whole.pushBitfield (added.renumber move)) :=
  { within with
    census := by
      rw [census_pushBitfield, census_pushBitfield]
      exact { within.census with bitfields := Nat.succ_le_succ within.census.bitfields }
    bitfield := fun id inside => by
      rw [bitfield_pushBitfield, bitfield_pushBitfield, abreast]
      rcases lt_push inside with old | last
      · rw [if_neg (Nat.ne_of_lt old), if_neg (Nat.ne_of_lt old), within.bitfield id old]
      · rw [if_pos last, if_pos last] }

private theorem pushMethods (next : move ⟨part.methods.size⟩ = ⟨whole.methods.size⟩) (added : Method) :
    Within move (part.pushMethod added) (whole.pushMethod added) :=
  { within with
    census := by
      rw [census_pushMethod, census_pushMethod]
      exact { within.census with methods := Nat.succ_le_succ within.census.methods }
    method := fun id inside => by
      rw [method_pushMethod, method_pushMethod]
      rcases lt_push inside with old | last
      · obtain ⟨there, same⟩ := within.method id old
        rw [if_neg (Nat.ne_of_lt there), if_neg (Nat.ne_of_lt old)]
        exact ⟨Nat.lt_of_lt_of_le there (whole.census_le_pushMethod added).methods, same⟩
      · have known : move id = ⟨whole.methods.size⟩ := (congrArg move (MethodId.ext last)).trans next
        rw [known, if_pos rfl, if_pos last]
        exact ⟨by simp [Model.pushMethod], rfl⟩ }

theorem modifyRecords (id : RecordId) {change change' : Record → Record}
    (same : ∀ record, change' (record.renumber move) = (change record).renumber move) :
    Within move (part.modifyRecord id change) (whole.modifyRecord id change') :=
  { within with
    census := by
      rw [census_modifyRecord, census_modifyRecord]
      exact within.census
    record := fun other inside => by
      have old : other.index < part.records.size := by simpa [Model.modifyRecord] using inside
      have old' : other.index < whole.records.size := Nat.lt_of_lt_of_le old within.census.records
      simp only [record_modifyRecord, old, old', and_true, within.record other old]
      split
      · exact same _
      · rfl }

private theorem modifyAttributes (id : AttributeId) {change change' : Attribute → Attribute}
    (same : ∀ attr, change' (attr.renumber move) = (change attr).renumber move) :
    Within move (part.modifyAttribute id change) (whole.modifyAttribute id change') :=
  { within with
    census := by
      rw [census_modifyAttribute, census_modifyAttribute]
      exact within.census
    attr := fun other inside => by
      have old : other.index < part.attributes.size := by simpa [Model.modifyAttribute] using inside
      have old' : other.index < whole.attributes.size := Nat.lt_of_lt_of_le old within.census.attributes
      simp only [attr_modifyAttribute, old, old', and_true, within.attr other old]
      split
      · exact same _
      · rfl }

private theorem modifyBitfields (id : BitfieldId) {change change' : Bitfield → Bitfield}
    (same : ∀ bitfield, change' (bitfield.renumber move) = (change bitfield).renumber move) :
    Within move (part.modifyBitfield id change) (whole.modifyBitfield id change') :=
  { within with
    census := by
      rw [census_modifyBitfield, census_modifyBitfield]
      exact within.census
    bitfield := fun other inside => by
      have old : other.index < part.bitfields.size := by simpa [Model.modifyBitfield] using inside
      have old' : other.index < whole.bitfields.size := Nat.lt_of_lt_of_le old within.census.bitfields
      simp only [bitfield_modifyBitfield, old, old', and_true, within.bitfield other old]
      split
      · exact same _
      · rfl }

theorem modifyEnumerations (id : EnumId) (change : Enumeration → Enumeration) :
    Within move (part.modifyEnumeration id change) (whole.modifyEnumeration id change) :=
  { within with
    census := by
      rw [census_modifyEnumeration, census_modifyEnumeration]
      exact within.census
    enumeration := fun other inside => by
      have old : other.index < part.enumerations.size := by
        simpa [Model.modifyEnumeration] using inside
      have old' : other.index < whole.enumerations.size := Nat.lt_of_lt_of_le old within.census.enumerations
      simp only [enumeration_modifyEnumeration, old, old', and_true, within.enumeration other old] }

theorem modifyConstants (id : ConstantId) (change : Constant → Constant) :
    Within move (part.modifyConstant id change) (whole.modifyConstant id change) :=
  { within with
    census := by
      rw [census_modifyConstant, census_modifyConstant]
      exact within.census
    constant := fun other inside => by
      have old : other.index < part.constants.size := by simpa [Model.modifyConstant] using inside
      have old' : other.index < whole.constants.size := Nat.lt_of_lt_of_le old within.census.constants
      simp only [constant_modifyConstant, old, old', and_true, within.constant other old] }

theorem withMethods (next : move ⟨part.methods.size⟩ = ⟨whole.methods.size⟩) (added : Method) :
    Within move (part.withMethod added) (whole.withMethod added) := by
  refine (within.pushMethods next added).modifyRecords added.owner fun record => ?_
  simp [Record.renumber, next]

theorem withReadAttributes (abreast : whole.attributes.size = part.attributes.size)
    (next : move ⟨part.methods.size⟩ = ⟨whole.methods.size⟩) {added : Attribute}
    (unread : added.accessor = none) (accessor : Method) :
    Within move (part.withReadAttribute added accessor) (whole.withReadAttribute added accessor) := by
  have same : added.renumber move = added := by
    rw [Attribute.renumber, unread]
    cases added
    cases unread
    rfl
  have pushed := within.pushAttributes abreast added
  rw [same] at pushed
  have listed : Within move (part.withAttribute added) (whole.withAttribute added) := by
    refine pushed.modifyRecords added.owner fun record => ?_
    rw [abreast]
    rfl
  rw [Model.withReadAttribute, Model.withReadAttribute, abreast]
  refine (listed.withMethods next accessor).modifyAttributes ⟨part.attributes.size⟩ fun attr => ?_
  simp [Attribute.renumber, next]

theorem withReadBitfields (abreast : whole.bitfields.size = part.bitfields.size)
    (next : move ⟨part.methods.size⟩ = ⟨whole.methods.size⟩) {added : Bitfield}
    (unread : added.accessor = none) (accessor : Method) :
    Within move (part.withReadBitfield added accessor) (whole.withReadBitfield added accessor) := by
  have same : added.renumber move = added := by
    rw [Bitfield.renumber, unread]
    cases added
    cases unread
    rfl
  have pushed := within.pushBitfields abreast added
  rw [same] at pushed
  have listed : Within move (part.withBitfield added) (whole.withBitfield added) := by
    refine pushed.modifyAttributes added.attr fun attr => ?_
    rw [abreast]
    rfl
  rw [Model.withReadBitfield, Model.withReadBitfield, abreast]
  refine (listed.withMethods next accessor).modifyBitfields ⟨part.bitfields.size⟩ fun bitfield => ?_
  simp [Bitfield.renumber, next]

end Both

end Within

end Model

end RecordSchema
