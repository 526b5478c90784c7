import RecordSchema.Model

/-!
# References

The identifiers that a declaration holds, whatever the field, collected in one list for each kind of
declaration, and those of a whole model. Whether an identifier is in range depends on the number of
declarations of its kind alone, so what is in range stays so while a model grows.
-/

set_option autoImplicit false

/-!
## Declarations after a change

What an identifier stands for once one declaration of a model has been changed or added. Changes to
declarations of one kind leave those of the other kinds as they are by definition, so only the
changed kind has a lemma.
-/

namespace RecordSchema

private theorem getD_modify {α : Type} (items : Array α) (position index : Nat) (change : α → α)
    (fallback : α) :
    (items.modify position change).getD index fallback =
      if position = index ∧ index < items.size then change (items.getD index fallback)
      else items.getD index fallback := by
  by_cases inside : index < items.size
  · simp [Array.getD, inside, Array.getElem_modify]
  · simp [Array.getD, inside]

private theorem getD_push {α : Type} (items : Array α) (index : Nat) (added fallback : α) :
    (items.push added).getD index fallback =
      if index = items.size then added else items.getD index fallback := by
  rcases Nat.lt_trichotomy index items.size with inside | same | outside
  · simp [Array.getD, inside, Nat.lt_succ_of_lt inside, Nat.ne_of_lt inside, Array.getElem_push_lt]
  · simp [Array.getD, same]
  · have beyond : ¬ index < items.size + 1 := by omega
    have different : index ≠ items.size := by omega
    simp [Array.getD, beyond, different, Nat.not_lt_of_lt outside]

theorem getD_map {α : Type} (items : Array α) (index : Nat) (change : α → α) {fallback : α}
    (kept : change fallback = fallback) :
    (items.map change).getD index fallback = change (items.getD index fallback) := by
  by_cases inside : index < items.size <;> simp [Array.getD, inside, kept]

namespace Model

variable (model : Model)

@[simp] theorem package_modifyPackage (id other : PackageId) (change : Package → Package) :
    (model.modifyPackage id change).package other =
      if id = other ∧ other.index < model.packages.size then change (model.package other)
      else model.package other := by
  simp only [package, modifyPackage, getD_modify, PackageId.ext_iff]

@[simp] theorem record_modifyRecord (id other : RecordId) (change : Record → Record) :
    (model.modifyRecord id change).record other =
      if id = other ∧ other.index < model.records.size then change (model.record other)
      else model.record other := by
  simp only [record, modifyRecord, getD_modify, RecordId.ext_iff]

@[simp] theorem attr_modifyAttribute (id other : AttributeId) (change : Attribute → Attribute) :
    (model.modifyAttribute id change).attr other =
      if id = other ∧ other.index < model.attributes.size then change (model.attr other)
      else model.attr other := by
  simp only [attr, modifyAttribute, getD_modify, AttributeId.ext_iff]

@[simp] theorem bitfield_modifyBitfield (id other : BitfieldId) (change : Bitfield → Bitfield) :
    (model.modifyBitfield id change).bitfield other =
      if id = other ∧ other.index < model.bitfields.size then change (model.bitfield other)
      else model.bitfield other := by
  simp only [bitfield, modifyBitfield, getD_modify, BitfieldId.ext_iff]

@[simp] theorem enumeration_modifyEnumeration (id other : EnumId)
    (change : Enumeration → Enumeration) :
    (model.modifyEnumeration id change).enumeration other =
      if id = other ∧ other.index < model.enumerations.size then change (model.enumeration other)
      else model.enumeration other := by
  simp only [enumeration, modifyEnumeration, getD_modify, EnumId.ext_iff]

@[simp] theorem constant_modifyConstant (id other : ConstantId) (change : Constant → Constant) :
    (model.modifyConstant id change).constant other =
      if id = other ∧ other.index < model.constants.size then change (model.constant other)
      else model.constant other := by
  simp only [constant, modifyConstant, getD_modify, ConstantId.ext_iff]

/-- The model with one more package; it is listed nowhere yet. The same is meant below by a push of
any other kind. -/
def pushPackage (added : Package) : Model :=
  { model with packages := model.packages.push added }

def pushRecord (added : Record) : Model :=
  { model with records := model.records.push added }

def pushAttribute (added : Attribute) : Model :=
  { model with attributes := model.attributes.push added }

def pushBitfield (added : Bitfield) : Model :=
  { model with bitfields := model.bitfields.push added }

def pushMethod (added : Method) : Model :=
  { model with methods := model.methods.push added }

def pushEnumeration (added : Enumeration) : Model :=
  { model with enumerations := model.enumerations.push added }

def pushConstant (added : Constant) : Model :=
  { model with constants := model.constants.push added }

@[simp] theorem package_pushPackage (added : Package) (id : PackageId) :
    (model.pushPackage added).package id =
      if id.index = model.packages.size then added else model.package id :=
  getD_push ..

@[simp] theorem record_pushRecord (added : Record) (id : RecordId) :
    (model.pushRecord added).record id =
      if id.index = model.records.size then added else model.record id :=
  getD_push ..

@[simp] theorem attr_pushAttribute (added : Attribute) (id : AttributeId) :
    (model.pushAttribute added).attr id =
      if id.index = model.attributes.size then added else model.attr id :=
  getD_push ..

@[simp] theorem bitfield_pushBitfield (added : Bitfield) (id : BitfieldId) :
    (model.pushBitfield added).bitfield id =
      if id.index = model.bitfields.size then added else model.bitfield id :=
  getD_push ..

@[simp] theorem method_pushMethod (added : Method) (id : MethodId) :
    (model.pushMethod added).method id =
      if id.index = model.methods.size then added else model.method id :=
  getD_push ..

@[simp] theorem enumeration_pushEnumeration (added : Enumeration) (id : EnumId) :
    (model.pushEnumeration added).enumeration id =
      if id.index = model.enumerations.size then added else model.enumeration id :=
  getD_push ..

@[simp] theorem constant_pushConstant (added : Constant) (id : ConstantId) :
    (model.pushConstant added).constant id =
      if id.index = model.constants.size then added else model.constant id :=
  getD_push ..

/-- An identifier out of range stands for the default declaration. -/
theorem package_eq_default {id : PackageId} (outside : ¬ id.index < model.packages.size) :
    model.package id = default := by
  simp [package, Array.getD, outside]

theorem record_eq_default {id : RecordId} (outside : ¬ id.index < model.records.size) :
    model.record id = default := by
  simp [record, Array.getD, outside]

theorem attr_eq_default {id : AttributeId} (outside : ¬ id.index < model.attributes.size) :
    model.attr id = default := by
  simp [attr, Array.getD, outside]

theorem method_eq_default {id : MethodId} (outside : ¬ id.index < model.methods.size) :
    model.method id = default := by
  simp [method, Array.getD, outside]

theorem enumeration_eq_default {id : EnumId} (outside : ¬ id.index < model.enumerations.size) :
    model.enumeration id = default := by
  simp [enumeration, Array.getD, outside]

end Model

end RecordSchema

/-!
## Identifiers in declarations
-/

namespace RecordSchema

/-- An identifier of any kind. -/
inductive Reference where
  | package (id : PackageId)
  | record (id : RecordId)
  | attr (id : AttributeId)
  | bitfield (id : BitfieldId)
  | method (id : MethodId)
  | enumeration (id : EnumId)
  | constant (id : ConstantId)
deriving DecidableEq

/-- How many declarations of each kind there are. -/
structure Census where
  packages : Nat
  records : Nat
  attributes : Nat
  bitfields : Nat
  methods : Nat
  enumerations : Nat
  constants : Nat
deriving DecidableEq

/-- No kind has fewer declarations in the second census than in the first. -/
structure Census.AtMost (few many : Census) : Prop where
  packages : few.packages ≤ many.packages
  records : few.records ≤ many.records
  attributes : few.attributes ≤ many.attributes
  bitfields : few.bitfields ≤ many.bitfields
  methods : few.methods ≤ many.methods
  enumerations : few.enumerations ≤ many.enumerations
  constants : few.constants ≤ many.constants

instance : LE Census :=
  ⟨Census.AtMost⟩

/-- Whether an identifier is below the number of declarations of its kind. -/
def Reference.InRange (census : Census) : Reference → Prop
  | package id => id.index < census.packages
  | record id => id.index < census.records
  | attr id => id.index < census.attributes
  | bitfield id => id.index < census.bitfields
  | method id => id.index < census.methods
  | enumeration id => id.index < census.enumerations
  | constant id => id.index < census.constants

instance (census : Census) : (reference : Reference) → Decidable (reference.InRange census)
  | .package id => inferInstanceAs (Decidable (id.index < census.packages))
  | .record id => inferInstanceAs (Decidable (id.index < census.records))
  | .attr id => inferInstanceAs (Decidable (id.index < census.attributes))
  | .bitfield id => inferInstanceAs (Decidable (id.index < census.bitfields))
  | .method id => inferInstanceAs (Decidable (id.index < census.methods))
  | .enumeration id => inferInstanceAs (Decidable (id.index < census.enumerations))
  | .constant id => inferInstanceAs (Decidable (id.index < census.constants))

theorem Reference.InRange.mono {few many : Census} (grown : few ≤ many) {reference : Reference}
    (inRange : reference.InRange few) : reference.InRange many := by
  obtain ⟨packages, records, attributes, bitfields, methods, enumerations, constants⟩ := grown
  cases reference <;> simp only [Reference.InRange] at inRange ⊢ <;> omega

theorem Census.le_refl (census : Census) : census ≤ census := by
  constructor <;> exact Nat.le_refl _

theorem Census.le_trans {few more many : Census} (first : few ≤ more) (second : more ≤ many) :
    few ≤ many where
  packages := Nat.le_trans first.packages second.packages
  records := Nat.le_trans first.records second.records
  attributes := Nat.le_trans first.attributes second.attributes
  bitfields := Nat.le_trans first.bitfields second.bitfields
  methods := Nat.le_trans first.methods second.methods
  enumerations := Nat.le_trans first.enumerations second.enumerations
  constants := Nat.le_trans first.constants second.constants

/-!
## What a declaration refers to
-/

def Operand.references : Operand → List Reference
  | static record _ => [.record record]
  | config record _ => [.record record]
  | _ => []

def Expr.references (expr : Expr) : List Reference :=
  expr.operands.flatMap Operand.references

def TypeRef.references : TypeRef → List Reference
  | record id => [.record id]
  | enumeration id => [.enumeration id]
  | builtin _ => []

def Dimension.references (dimension : Dimension) : List Reference :=
  dimension.count?.toList.flatMap Expr.references

def Member.reference : Member → Reference
  | package id => .package id
  | record id => .record id
  | enumeration id => .enumeration id
  | constant id => .constant id

def Scope.reference : Scope → Reference
  | package id => .package id
  | record id => .record id

def Destination.reference : Destination → Reference
  | attr id => .attr id
  | bitfield id => .bitfield id

def MethodBody.references : MethodBody → List Reference
  | attr id => [.attr id]
  | bitfield id => [.bitfield id]
  | body => body.texts.flatMap Expr.references

def DatasetSource.reference : DatasetSource → Reference
  | attr id => .attr id
  | method id => .method id

def Package.references (package : Package) : List Reference :=
  package.parent.toList.map .package ++ package.members.map (·.2.reference)

def Attribute.references (attr : Attribute) : List Reference :=
  .record attr.owner :: attr.type.references ++ attr.shape.flatMap Dimension.references ++
    attr.bitfields.map .bitfield ++ attr.accessor.toList.map .method ++
    attr.declaredOffset.toList.flatMap Expr.references ++ attr.offset.references ++
    attr.elementSize.references

def Bitfield.references (bitfield : Bitfield) : List Reference :=
  .attr bitfield.attr :: bitfield.type.references ++ bitfield.accessor.toList.map .method

def Argument.references (argument : Argument) : List Reference :=
  argument.type.toList.flatMap TypeRef.references

def Method.references (method : Method) : List Reference :=
  .record method.owner :: method.result.toList.flatMap TypeRef.references ++
    method.arguments.flatMap Argument.references ++ method.body.references

def ConstructorArgument.references (argument : ConstructorArgument) : List Reference :=
  argument.type.references ++ argument.destination.toList.map Destination.reference ++
    argument.expression.toList.flatMap Expr.references

def Initializer.references (init : Initializer) : List Reference :=
  init.destination.reference :: init.expression.references

def Constructor.references (constructor : Constructor) : List Reference :=
  constructor.arguments.flatMap ConstructorArgument.references ++
    constructor.initializers.flatMap Initializer.references

def Constant.references (constant : Constant) : List Reference :=
  constant.scope.reference :: constant.value.references

def Enumerator.references (enumerator : Enumerator) : List Reference :=
  enumerator.value.toList.flatMap Expr.references

def Enumeration.references (enumeration : Enumeration) : List Reference :=
  enumeration.scope.reference :: enumeration.constants.flatMap Enumerator.references

def Dataset.references (dataset : Dataset) : List Reference :=
  dataset.entries.map (·.source.reference)

def StorageSchema.references (schema : StorageSchema) : List Reference :=
  schema.datasets.flatMap Dataset.references

def Record.references (record : Record) : List Reference :=
  Reference.package record.package :: record.base.toList.map Reference.record ++
    record.configs.map Reference.record ++
    record.constants.map (Reference.constant ·.2) ++
    record.enumerations.map (Reference.enumeration ·.2) ++
    record.constructors.flatMap Constructor.references ++ record.attributes.map Reference.attr ++
    record.methods.map Reference.method ++ record.schemas.flatMap StorageSchema.references ++
    record.size.references

namespace Model

/-- How many declarations of each kind a model has. -/
def census (model : Model) : Census where
  packages := model.packages.size
  records := model.records.size
  attributes := model.attributes.size
  bitfields := model.bitfields.size
  methods := model.methods.size
  enumerations := model.enumerations.size
  constants := model.constants.size

/-- Every identifier that is stored anywhere in a model. -/
def references (model : Model) : List Reference :=
  model.packages.toList.flatMap Package.references ++
    model.records.toList.flatMap Record.references ++
    model.attributes.toList.flatMap Attribute.references ++
    model.bitfields.toList.flatMap Bitfield.references ++
    model.methods.toList.flatMap Method.references ++
    model.enumerations.toList.flatMap Enumeration.references ++
    model.constants.toList.flatMap Constant.references ++
    model.roots.map (.package ·.2)

section Census

variable (model : Model)

@[simp] theorem census_modifyPackage (id : PackageId) (change : Package → Package) :
    (model.modifyPackage id change).census = model.census := by
  simp [census, modifyPackage]

@[simp] theorem census_pushPackage (added : Package) :
    (model.pushPackage added).census = { model.census with packages := model.packages.size + 1 } := by
  simp [census, pushPackage]

@[simp] theorem census_modifyRecord (id : RecordId) (change : Record → Record) :
    (model.modifyRecord id change).census = model.census := by
  simp [census, modifyRecord]

@[simp] theorem census_pushRecord (added : Record) :
    (model.pushRecord added).census = { model.census with records := model.records.size + 1 } := by
  simp [census, pushRecord]

@[simp] theorem census_modifyAttribute (id : AttributeId) (change : Attribute → Attribute) :
    (model.modifyAttribute id change).census = model.census := by
  simp [census, modifyAttribute]

@[simp] theorem census_pushAttribute (added : Attribute) :
    (model.pushAttribute added).census = { model.census with attributes := model.attributes.size + 1 } := by
  simp [census, pushAttribute]

@[simp] theorem census_modifyBitfield (id : BitfieldId) (change : Bitfield → Bitfield) :
    (model.modifyBitfield id change).census = model.census := by
  simp [census, modifyBitfield]

@[simp] theorem census_pushBitfield (added : Bitfield) :
    (model.pushBitfield added).census = { model.census with bitfields := model.bitfields.size + 1 } := by
  simp [census, pushBitfield]

@[simp] theorem census_pushMethod (added : Method) :
    (model.pushMethod added).census = { model.census with methods := model.methods.size + 1 } := by
  simp [census, pushMethod]

@[simp] theorem census_modifyEnumeration (id : EnumId) (change : Enumeration → Enumeration) :
    (model.modifyEnumeration id change).census = model.census := by
  simp [census, modifyEnumeration]

@[simp] theorem census_pushEnumeration (added : Enumeration) :
    (model.pushEnumeration added).census = { model.census with enumerations := model.enumerations.size + 1 } := by
  simp [census, pushEnumeration]

@[simp] theorem census_modifyConstant (id : ConstantId) (change : Constant → Constant) :
    (model.modifyConstant id change).census = model.census := by
  simp [census, modifyConstant]

@[simp] theorem census_pushConstant (added : Constant) :
    (model.pushConstant added).census = { model.census with constants := model.constants.size + 1 } := by
  simp [census, pushConstant]

theorem census_le_pushPackage (added : Package) : model.census ≤ (model.pushPackage added).census := by
  rw [census_pushPackage]
  constructor <;> simp [census]

theorem census_le_pushRecord (added : Record) : model.census ≤ (model.pushRecord added).census := by
  rw [census_pushRecord]
  constructor <;> simp [census]

theorem census_le_pushAttribute (added : Attribute) : model.census ≤ (model.pushAttribute added).census := by
  rw [census_pushAttribute]
  constructor <;> simp [census]

theorem census_le_pushBitfield (added : Bitfield) : model.census ≤ (model.pushBitfield added).census := by
  rw [census_pushBitfield]
  constructor <;> simp [census]

theorem census_le_pushMethod (added : Method) : model.census ≤ (model.pushMethod added).census := by
  rw [census_pushMethod]
  constructor <;> simp [census]

theorem census_le_pushEnumeration (added : Enumeration) : model.census ≤ (model.pushEnumeration added).census := by
  rw [census_pushEnumeration]
  constructor <;> simp [census]

theorem census_le_pushConstant (added : Constant) : model.census ≤ (model.pushConstant added).census := by
  rw [census_pushConstant]
  constructor <;> simp [census]

end Census

end Model

/-!
## References in range
-/

/-- Every identifier of a list is in range. -/
def InRange (census : Census) (references : List Reference) : Prop :=
  ∀ reference ∈ references, reference.InRange census

section InRange

variable {census : Census}

@[simp] theorem inRange_nil : InRange census [] := by
  intro reference member
  cases member

@[simp] theorem inRange_cons {first : Reference} {rest : List Reference} :
    InRange census (first :: rest) ↔ first.InRange census ∧ InRange census rest :=
  List.forall_mem_cons

@[simp] theorem inRange_append {left right : List Reference} :
    InRange census (left ++ right) ↔ InRange census left ∧ InRange census right :=
  List.forall_mem_append

@[simp] theorem inRange_map {α : Type} {items : List α} {reference : α → Reference} :
    InRange census (items.map reference) ↔ ∀ item ∈ items, (reference item).InRange census :=
  List.forall_mem_map

@[simp] theorem inRange_flatMap {α : Type} {items : List α} {references : α → List Reference} :
    InRange census (items.flatMap references) ↔ ∀ item ∈ items, InRange census (references item) := by
  simp only [InRange, List.forall_mem_flatMap]

theorem InRange.mono {many : Census} {references : List Reference} (inRange : InRange census references)
    (grown : census ≤ many) : InRange many references :=
  fun reference member => (inRange reference member).mono grown

end InRange

/-!
## The fields of a declaration
-/

/-- The identifiers in the fields of a package are in range. -/
structure Package.Closed (census : Census) (package : Package) : Prop where
  parent : ∀ id ∈ package.parent, id.index < census.packages
  members : ∀ entry ∈ package.members, entry.2.reference.InRange census

/-- The identifiers in the fields of an attribute are in range. -/
structure Attribute.Closed (census : Census) (attr : Attribute) : Prop where
  owner : attr.owner.index < census.records
  type : InRange census attr.type.references
  shape : ∀ dimension ∈ attr.shape, InRange census dimension.references
  bitfields : ∀ id ∈ attr.bitfields, id.index < census.bitfields
  accessor : ∀ id ∈ attr.accessor, id.index < census.methods
  declaredOffset : ∀ offset ∈ attr.declaredOffset, InRange census offset.references
  offset : InRange census attr.offset.references
  elementSize : InRange census attr.elementSize.references

/-- The identifiers in the fields of a record type are in range. -/
structure Record.Closed (census : Census) (record : Record) : Prop where
  package : record.package.index < census.packages
  base : ∀ id ∈ record.base, id.index < census.records
  configs : ∀ id ∈ record.configs, id.index < census.records
  constants : ∀ entry ∈ record.constants, entry.2.index < census.constants
  enumerations : ∀ entry ∈ record.enumerations, entry.2.index < census.enumerations
  constructors : ∀ constructor ∈ record.constructors, InRange census constructor.references
  attributes : ∀ id ∈ record.attributes, id.index < census.attributes
  methods : ∀ id ∈ record.methods, id.index < census.methods
  schemas : ∀ schema ∈ record.schemas, InRange census schema.references
  size : InRange census record.size.references

section Fields

variable {census : Census}

theorem Package.closed_iff {package : Package} :
    package.Closed census ↔ InRange census package.references := by
  simp only [Package.references, inRange_append, inRange_map, Option.mem_toList]
  exact ⟨fun closed => ⟨closed.parent, closed.members⟩, fun ⟨parent, members⟩ => ⟨parent, members⟩⟩

theorem Attribute.closed_iff {attr : Attribute} :
    attr.Closed census ↔ InRange census attr.references := by
  simp only [Attribute.references, inRange_append, inRange_cons, inRange_map, inRange_flatMap,
    Option.mem_toList]
  constructor
  · intro closed
    exact ⟨⟨⟨⟨⟨⟨⟨closed.owner, closed.type⟩, closed.shape⟩, closed.bitfields⟩, closed.accessor⟩,
      closed.declaredOffset⟩, closed.offset⟩, closed.elementSize⟩
  · rintro ⟨⟨⟨⟨⟨⟨⟨owner, type⟩, shape⟩, bitfields⟩, accessor⟩, declaredOffset⟩, offset⟩, elementSize⟩
    exact ⟨owner, type, shape, bitfields, accessor, declaredOffset, offset, elementSize⟩

theorem Record.closed_iff {record : Record} :
    record.Closed census ↔ InRange census record.references := by
  simp only [Record.references, inRange_append, inRange_cons, inRange_map, inRange_flatMap,
    Option.mem_toList]
  constructor
  · intro closed
    exact ⟨⟨⟨⟨⟨⟨⟨⟨⟨closed.package, closed.base⟩, closed.configs⟩, closed.constants⟩,
      closed.enumerations⟩, closed.constructors⟩, closed.attributes⟩, closed.methods⟩,
      closed.schemas⟩, closed.size⟩
  · rintro ⟨⟨⟨⟨⟨⟨⟨⟨⟨package, base⟩, configs⟩, constants⟩, enumerations⟩, constructors⟩, attributes⟩,
      methods⟩, schemas⟩, size⟩
    exact ⟨package, base, configs, constants, enumerations, constructors, attributes, methods, schemas,
      size⟩

end Fields

/-- The identifiers held by the declarations of one kind are in range. -/
def RefersWithin {α : Type} (references : α → List Reference) (census : Census)
    (items : Array α) : Prop :=
  ∀ item ∈ items, InRange census (references item)

namespace RefersWithin

variable {α : Type} {references : α → List Reference} {census : Census} {items : Array α}

theorem push (within : RefersWithin references census items) {added : α}
    (inRange : InRange census (references added)) :
    RefersWithin references census (items.push added) := by
  intro item member
  rcases Array.mem_push.mp member with old | rfl
  · exact within item old
  · exact inRange

/-- A change that keeps identifiers in range may be made anywhere. -/
theorem modify (within : RefersWithin references census items) (position : Nat) {change : α → α}
    (kept : ∀ item, InRange census (references item) → InRange census (references (change item))) :
    RefersWithin references census (items.modify position change) := by
  intro item member
  obtain ⟨index, inside, rfl⟩ := Array.mem_iff_getElem.mp member
  have bound : index < items.size := by simpa using inside
  rw [Array.getElem_modify]
  have old := within items[index] (Array.getElem_mem bound)
  split
  · exact kept _ old
  · exact old

theorem getD (within : RefersWithin references census items) {index : Nat}
    (inside : index < items.size) (fallback : α) :
    InRange census (references (items.getD index fallback)) := by
  simp only [Array.getD, inside, ↓reduceDIte]
  exact within _ (Array.getElem_mem inside)

end RefersWithin

namespace Model

/-- Every identifier stored in a model is in range for a census. The census may be ahead of the
model: a declaration is sometimes listed before it is added. -/
structure ClosedFor (census : Census) (model : Model) : Prop where
  packages : RefersWithin Package.references census model.packages
  records : RefersWithin Record.references census model.records
  attributes : RefersWithin Attribute.references census model.attributes
  bitfields : RefersWithin Bitfield.references census model.bitfields
  methods : RefersWithin Method.references census model.methods
  enumerations : RefersWithin Enumeration.references census model.enumerations
  constants : RefersWithin Constant.references census model.constants
  roots : ∀ entry ∈ model.roots, entry.2.index < census.packages

/-- Every identifier stored in a model is in range. -/
abbrev Closed (model : Model) : Prop :=
  model.ClosedFor model.census

theorem closedFor_iff {census : Census} {model : Model} :
    model.ClosedFor census ↔ InRange census model.references := by
  simp only [references, inRange_append, inRange_flatMap, inRange_map, Array.mem_toList_iff]
  constructor
  · intro closed
    exact ⟨⟨⟨⟨⟨⟨⟨closed.packages, closed.records⟩, closed.attributes⟩, closed.bitfields⟩,
      closed.methods⟩, closed.enumerations⟩, closed.constants⟩, closed.roots⟩
  · rintro ⟨⟨⟨⟨⟨⟨⟨packages, records⟩, attributes⟩, bitfields⟩, methods⟩, enumerations⟩, constants⟩,
      roots⟩
    exact ⟨packages, records, attributes, bitfields, methods, enumerations, constants, roots⟩

theorem ClosedFor.mono {few many : Census} {model : Model} (closed : model.ClosedFor few)
    (grown : few ≤ many) : model.ClosedFor many :=
  closedFor_iff.mpr ((closedFor_iff.mp closed).mono grown)

/-! A change or an addition keeps a model closed if what it stores is in range. -/

namespace ClosedFor

variable {census : Census} {model : Model}

theorem modifyPackage (closed : model.ClosedFor census) (id : PackageId) {change : Package → Package}
    (kept : ∀ item : Package, InRange census item.references → InRange census (change item).references) :
    (model.modifyPackage id change).ClosedFor census :=
  { closed with packages := closed.packages.modify _ kept }

theorem pushPackage (closed : model.ClosedFor census) (added : Package)
    (inRange : InRange census added.references) : (model.pushPackage added).ClosedFor census :=
  { closed with packages := closed.packages.push inRange }

theorem modifyRecord (closed : model.ClosedFor census) (id : RecordId) {change : Record → Record}
    (kept : ∀ item : Record, InRange census item.references → InRange census (change item).references) :
    (model.modifyRecord id change).ClosedFor census :=
  { closed with records := closed.records.modify _ kept }

theorem pushRecord (closed : model.ClosedFor census) (added : Record)
    (inRange : InRange census added.references) : (model.pushRecord added).ClosedFor census :=
  { closed with records := closed.records.push inRange }

theorem modifyAttribute (closed : model.ClosedFor census) (id : AttributeId) {change : Attribute → Attribute}
    (kept : ∀ item : Attribute, InRange census item.references → InRange census (change item).references) :
    (model.modifyAttribute id change).ClosedFor census :=
  { closed with attributes := closed.attributes.modify _ kept }

theorem pushAttribute (closed : model.ClosedFor census) (added : Attribute)
    (inRange : InRange census added.references) : (model.pushAttribute added).ClosedFor census :=
  { closed with attributes := closed.attributes.push inRange }

theorem modifyBitfield (closed : model.ClosedFor census) (id : BitfieldId) {change : Bitfield → Bitfield}
    (kept : ∀ item : Bitfield, InRange census item.references → InRange census (change item).references) :
    (model.modifyBitfield id change).ClosedFor census :=
  { closed with bitfields := closed.bitfields.modify _ kept }

theorem pushBitfield (closed : model.ClosedFor census) (added : Bitfield)
    (inRange : InRange census added.references) : (model.pushBitfield added).ClosedFor census :=
  { closed with bitfields := closed.bitfields.push inRange }

theorem pushMethod (closed : model.ClosedFor census) (added : Method)
    (inRange : InRange census added.references) : (model.pushMethod added).ClosedFor census :=
  { closed with methods := closed.methods.push inRange }

theorem modifyEnumeration (closed : model.ClosedFor census) (id : EnumId) {change : Enumeration → Enumeration}
    (kept : ∀ item : Enumeration, InRange census item.references → InRange census (change item).references) :
    (model.modifyEnumeration id change).ClosedFor census :=
  { closed with enumerations := closed.enumerations.modify _ kept }

theorem pushEnumeration (closed : model.ClosedFor census) (added : Enumeration)
    (inRange : InRange census added.references) : (model.pushEnumeration added).ClosedFor census :=
  { closed with enumerations := closed.enumerations.push inRange }

theorem modifyConstant (closed : model.ClosedFor census) (id : ConstantId) {change : Constant → Constant}
    (kept : ∀ item : Constant, InRange census item.references → InRange census (change item).references) :
    (model.modifyConstant id change).ClosedFor census :=
  { closed with constants := closed.constants.modify _ kept }

theorem pushConstant (closed : model.ClosedFor census) (added : Constant)
    (inRange : InRange census added.references) : (model.pushConstant added).ClosedFor census :=
  { closed with constants := closed.constants.push inRange }

/-! What an identifier in range stands for holds identifiers in range. -/

theorem package (closed : model.ClosedFor census) {id : PackageId}
    (inside : id.index < model.packages.size) : (model.package id).Closed census :=
  Package.closed_iff.mpr (closed.packages.getD inside default)

theorem record (closed : model.ClosedFor census) {id : RecordId}
    (inside : id.index < model.records.size) : (model.record id).Closed census :=
  Record.closed_iff.mpr (closed.records.getD inside default)

theorem attr (closed : model.ClosedFor census) {id : AttributeId}
    (inside : id.index < model.attributes.size) : (model.attr id).Closed census :=
  Attribute.closed_iff.mpr (closed.attributes.getD inside default)

/-! An identifier out of range stands for a declaration without parent, members, base and so on, so
nothing need be known of the one whose field it is. -/

theorem parent (closed : model.ClosedFor census) (id : PackageId) :
    ∀ outer ∈ (model.package id).parent, outer.index < census.packages := by
  by_cases inside : id.index < model.packages.size
  · exact (closed.package inside).parent
  · rw [model.package_eq_default inside]
    intro outer member
    cases member

theorem members (closed : model.ClosedFor census) (id : PackageId) :
    ∀ entry ∈ (model.package id).members, entry.2.reference.InRange census := by
  by_cases inside : id.index < model.packages.size
  · exact (closed.package inside).members
  · rw [model.package_eq_default inside]
    intro entry member
    cases member

private theorem field {α : Type} (closed : model.ClosedFor census) (id : RecordId)
    (list : Record → List α) (empty : list default = []) {good : α → Prop}
    (holds : (model.record id).Closed census → ∀ item ∈ list (model.record id), good item) :
    ∀ item ∈ list (model.record id), good item := by
  by_cases inside : id.index < model.records.size
  · exact holds (closed.record inside)
  · rw [model.record_eq_default inside, empty]
    intro item member
    cases member

theorem base (closed : model.ClosedFor census) (id : RecordId) :
    ∀ base ∈ (model.record id).base, base.index < census.records := by
  by_cases inside : id.index < model.records.size
  · exact (closed.record inside).base
  · rw [model.record_eq_default inside]
    intro base member
    cases member

theorem configs (closed : model.ClosedFor census) (id : RecordId) :
    ∀ config ∈ (model.record id).configs, config.index < census.records :=
  closed.field id Record.configs rfl Record.Closed.configs

theorem recordConstants (closed : model.ClosedFor census) (id : RecordId) :
    ∀ entry ∈ (model.record id).constants, entry.2.index < census.constants :=
  closed.field id Record.constants rfl Record.Closed.constants

theorem recordEnumerations (closed : model.ClosedFor census) (id : RecordId) :
    ∀ entry ∈ (model.record id).enumerations, entry.2.index < census.enumerations :=
  closed.field id Record.enumerations rfl Record.Closed.enumerations

theorem recordAttributes (closed : model.ClosedFor census) (id : RecordId) :
    ∀ attr ∈ (model.record id).attributes, attr.index < census.attributes :=
  closed.field id Record.attributes rfl Record.Closed.attributes

theorem recordMethods (closed : model.ClosedFor census) (id : RecordId) :
    ∀ method ∈ (model.record id).methods, method.index < census.methods :=
  closed.field id Record.methods rfl Record.Closed.methods

theorem bitfieldsOf (closed : model.ClosedFor census) (id : AttributeId) :
    ∀ bitfield ∈ (model.attr id).bitfields, bitfield.index < census.bitfields := by
  by_cases inside : id.index < model.attributes.size
  · exact (closed.attr inside).bitfields
  · rw [model.attr_eq_default inside]
    intro bitfield member
    cases member

theorem bitfieldAttr (closed : model.ClosedFor census) {id : BitfieldId}
    (inside : id.index < model.bitfields.size) :
    (model.bitfield id).attr.index < census.attributes := by
  have held : InRange census (model.bitfield id).references := closed.bitfields.getD inside default
  simp only [Bitfield.references, inRange_append, inRange_cons] at held
  exact held.1.1

theorem bitfieldAccessor (closed : model.ClosedFor census) {id : BitfieldId}
    (inside : id.index < model.bitfields.size) :
    ∀ method ∈ (model.bitfield id).accessor, method.index < census.methods := by
  have held : InRange census (model.bitfield id).references := closed.bitfields.getD inside default
  simp only [Bitfield.references, inRange_append, inRange_map, Option.mem_toList] at held
  exact held.2

theorem methodBody (closed : model.ClosedFor census) {id : MethodId}
    (inside : id.index < model.methods.size) :
    InRange census (model.method id).body.references := by
  have held : InRange census (model.method id).references := closed.methods.getD inside default
  simp only [Method.references, inRange_append] at held
  exact held.2

end ClosedFor

end Model

end RecordSchema
