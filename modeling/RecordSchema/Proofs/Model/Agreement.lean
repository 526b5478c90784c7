import RecordSchema.Model.Navigation
import RecordSchema.Proofs.Model.Linkage

/-!
# Models that agree but for derived fields

Layout, flags, storage and schemas fill in fields of declarations that are there already. Two models
agree if they are the same once those fields are forgotten; then they have the same links, and names
are found in both alike.
-/

set_option autoImplicit false

namespace RecordSchema

/-- Which fields of attributes, record types and methods are forgotten. -/
structure Forget where
  attr : Attribute → Attribute
  record : Record → Record
  method : Method → Method

namespace Forget

/-- What placement fills in. -/
def layout : Forget where
  attr item := { item with offset := default, elementSize := default }
  record item := { item with size := default, align := 1 }
  method item := item

/-- Dependence on config objects. -/
def flags : Forget where
  attr item := { item with configDependent := false }
  record item := { item with configDependent := false }
  method item := { item with configDependent := false }

/-- What is found out after placement: dependence on config objects, and storage. -/
def marks : Forget where
  attr item := { item with configDependent := false, stored := false }
  record item := { item with configDependent := false }
  method item := { item with configDependent := false }

/-- What comes after placement, schemas included. -/
def later : Forget where
  attr item := { item with configDependent := false, stored := false }
  record item := { item with configDependent := false, schemas := [] }
  method item := { item with configDependent := false }

/-- What comes last. -/
def schemas : Forget where
  attr item := item
  record item := { item with schemas := [] }
  method item := item

/-- What comes after the flags: storage and schemas. -/
def storage : Forget where
  attr item := { item with stored := false }
  record item := { item with schemas := [] }
  method item := item

/-- All that is not resolved from declarations of the type's own members. -/
def derived : Forget where
  attr item :=
    { item with offset := default, elementSize := default, configDependent := false, stored := false }
  record item :=
    { item with size := default, align := 1, configDependent := false, schemas := [] }
  method item := { item with configDependent := false }

end Forget

/-- Two models are the same but for the fields that are forgotten. -/
structure Model.Agree (forget : Forget) (before after : Model) : Prop where
  packages : after.packages = before.packages
  bitfields : after.bitfields = before.bitfields
  enumerations : after.enumerations = before.enumerations
  constants : after.constants = before.constants
  roots : after.roots = before.roots
  attributeCount : after.attributes.size = before.attributes.size
  recordCount : after.records.size = before.records.size
  methodCount : after.methods.size = before.methods.size
  attr : ∀ id, forget.attr (after.attr id) = forget.attr (before.attr id)
  record : ∀ id, forget.record (after.record id) = forget.record (before.record id)
  method : ∀ id, forget.method (after.method id) = forget.method (before.method id)

namespace Model.Agree

variable {forget : Forget} {before after : Model}

theorem refl (model : Model) : Agree forget model model := by
  constructor <;> intros <;> rfl

theorem trans {middle : Model} (first : Agree forget before middle)
    (second : Agree forget middle after) : Agree forget before after where
  packages := second.packages.trans first.packages
  bitfields := second.bitfields.trans first.bitfields
  enumerations := second.enumerations.trans first.enumerations
  constants := second.constants.trans first.constants
  roots := second.roots.trans first.roots
  attributeCount := second.attributeCount.trans first.attributeCount
  recordCount := second.recordCount.trans first.recordCount
  methodCount := second.methodCount.trans first.methodCount
  attr id := (second.attr id).trans (first.attr id)
  record id := (second.record id).trans (first.record id)
  method id := (second.method id).trans (first.method id)

theorem symm (agree : Agree forget before after) : Agree forget after before where
  packages := agree.packages.symm
  bitfields := agree.bitfields.symm
  enumerations := agree.enumerations.symm
  constants := agree.constants.symm
  roots := agree.roots.symm
  attributeCount := agree.attributeCount.symm
  recordCount := agree.recordCount.symm
  methodCount := agree.methodCount.symm
  attr id := (agree.attr id).symm
  record id := (agree.record id).symm
  method id := (agree.method id).symm

/-- Who forgets more agrees all the more. -/
theorem coarsen {more : Forget} (agree : Agree forget before after)
    (attr : ∀ item, more.attr (forget.attr item) = more.attr item)
    (record : ∀ item, more.record (forget.record item) = more.record item)
    (method : ∀ item, more.method (forget.method item) = more.method item) :
    Agree more before after :=
  { agree with
    attr := fun id => by rw [← attr, agree.attr, attr]
    record := fun id => by rw [← record, agree.record, record]
    method := fun id => by rw [← method, agree.method, method] }

theorem modifyAttribute (model : Model) (id : AttributeId) {change : Attribute → Attribute}
    (same : ∀ item, forget.attr (change item) = forget.attr item) :
    Agree forget model (model.modifyAttribute id change) :=
  { refl model with
    attributeCount := Array.size_modify ..
    attr := fun other => by
      rw [attr_modifyAttribute]
      split
      · exact same _
      · rfl }

theorem modifyRecord (model : Model) (id : RecordId) {change : Record → Record}
    (same : ∀ item, forget.record (change item) = forget.record item) :
    Agree forget model (model.modifyRecord id change) :=
  { refl model with
    recordCount := Array.size_modify ..
    record := fun other => by
      rw [record_modifyRecord]
      split
      · exact same _
      · rfl }

theorem census (agree : Agree forget before after) : after.census = before.census := by
  simp only [Model.census, agree.packages, agree.bitfields, agree.enumerations, agree.constants,
    agree.attributeCount, agree.recordCount, agree.methodCount]

/-!
## What is not derived
-/

/-- A field of a record type that is not forgotten. -/
theorem recordField {α : Type} (agree : Agree forget before after) (read : Record → α)
    (kept : ∀ item, read (forget.record item) = read item) (id : RecordId) :
    read (after.record id) = read (before.record id) := by
  rw [← kept, agree.record, kept]

theorem attrField {α : Type} (agree : Agree forget before after) (read : Attribute → α)
    (kept : ∀ item, read (forget.attr item) = read item) (id : AttributeId) :
    read (after.attr id) = read (before.attr id) := by
  rw [← kept, agree.attr, kept]

theorem methodField {α : Type} (agree : Agree forget before after) (read : Method → α)
    (kept : ∀ item, read (forget.method item) = read item) (id : MethodId) :
    read (after.method id) = read (before.method id) := by
  rw [← kept, agree.method, kept]

theorem sameLinks (agree : Agree .derived before after) : SameLinks before after where
  census := agree.census
  roots := agree.roots
  parent id := by simp only [Model.package, agree.packages]
  members id := by simp only [Model.package, agree.packages]
  package := agree.recordField Record.package fun _ => rfl
  recordConstants := agree.recordField Record.constants fun _ => rfl
  recordEnumerations := agree.recordField Record.enumerations fun _ => rfl
  attributes := agree.recordField Record.attributes fun _ => rfl
  methods := agree.recordField Record.methods fun _ => rfl
  owner := agree.attrField Attribute.owner fun _ => rfl
  bitfields := agree.attrField Attribute.bitfields fun _ => rfl
  accessor := agree.attrField Attribute.accessor fun _ => rfl
  attr id := by simp only [Model.bitfield, agree.bitfields]
  bitfieldAccessor id := by simp only [Model.bitfield, agree.bitfields]
  methodOwner := agree.methodField Method.owner fun _ => rfl
  body := agree.methodField Method.body fun _ => rfl
  enumerationScope id := by simp only [Model.enumeration, agree.enumerations]
  constantScope id := by simp only [Model.constant, agree.constants]

theorem base (agree : Agree .derived before after) (id : RecordId) :
    (after.record id).base = (before.record id).base :=
  agree.recordField Record.base (fun _ => rfl) id

theorem basesFrom (agree : Agree .derived before after) (fuel : Nat) (seen : List RecordId)
    (id : RecordId) : after.basesFrom fuel seen id = before.basesFrom fuel seen id := by
  induction fuel generalizing seen id with
  | zero => rfl
  | succ fuel ih =>
    simp only [Model.basesFrom, agree.base, ih]

theorem lineage (agree : Agree .derived before after) (id : RecordId) :
    after.lineage id = before.lineage id := by
  rw [Model.lineage, agree.recordCount]
  exact agree.basesFrom _ _ _

theorem findMethod? (agree : Agree .derived before after) (owner : RecordId) (name : String) :
    after.findMethod? owner name = before.findMethod? owner name := by
  have methods := agree.recordField Record.methods fun _ => rfl
  have names := agree.methodField Method.name fun _ => rfl
  simp only [Model.findMethod?, agree.lineage, methods, names]

theorem findAttribute? (agree : Agree .derived before after) (owner : RecordId) (name : String) :
    after.findAttribute? owner name = before.findAttribute? owner name := by
  have attributes := agree.recordField Record.attributes fun _ => rfl
  have names := agree.attrField Attribute.name fun _ => rfl
  simp only [Model.findAttribute?, agree.lineage, attributes, names]

theorem enclosing (agree : Agree forget before after) (id : PackageId) :
    after.enclosing id = before.enclosing id := by
  fun_induction Model.enclosing before id with
  | case1 id none =>
    rw [Model.enclosing, Model.package, agree.packages, ← Model.package, none]
  | case2 id parent found earlier ih =>
    rw [Model.enclosing, Model.package, agree.packages, ← Model.package, found]
    simp only [earlier, dif_pos, ih]
  | case3 id parent found late =>
    rw [Model.enclosing, Model.package, agree.packages, ← Model.package, found]
    simp only [late, dif_neg, not_false_eq_true]

theorem recordPath (agree : Agree .derived before after) (id : RecordId) :
    after.recordPath id = before.recordPath id := by
  have name := agree.recordField Record.name (fun _ => rfl) id
  have package := agree.recordField Record.package (fun _ => rfl) id
  simp only [Model.recordPath, Model.packagePath, Model.packageChain, Model.package, agree.packages,
    agree.enclosing, name, package]

/-- Marks refer to nothing. -/
theorem closed (agree : Agree .marks before after) {census : Census}
    (closed : before.ClosedFor census) : after.ClosedFor census where
  packages := agree.packages ▸ closed.packages
  bitfields := agree.bitfields ▸ closed.bitfields
  enumerations := agree.enumerations ▸ closed.enumerations
  constants := agree.constants ▸ closed.constants
  roots := agree.roots ▸ closed.roots
  attributes := by
    intro item member
    obtain ⟨index, inside, rfl⟩ := Array.mem_iff_getElem.mp member
    have same := agree.attrField Attribute.references (fun _ => rfl) ⟨index⟩
    have held := closed.attributes.getD (agree.attributeCount ▸ inside) default
    change InRange census (before.attr ⟨index⟩).references at held
    rw [← same] at held
    simpa [Model.attr, Array.getD, inside] using held
  records := by
    intro item member
    obtain ⟨index, inside, rfl⟩ := Array.mem_iff_getElem.mp member
    have same := agree.recordField Record.references (fun _ => rfl) ⟨index⟩
    have held := closed.records.getD (agree.recordCount ▸ inside) default
    change InRange census (before.record ⟨index⟩).references at held
    rw [← same] at held
    simpa [Model.record, Array.getD, inside] using held
  methods := by
    intro item member
    obtain ⟨index, inside, rfl⟩ := Array.mem_iff_getElem.mp member
    have same := agree.methodField Method.references (fun _ => rfl) ⟨index⟩
    have held := closed.methods.getD (agree.methodCount ▸ inside) default
    change InRange census (before.method ⟨index⟩).references at held
    rw [← same] at held
    simpa [Model.method, Array.getD, inside] using held

end Model.Agree

end RecordSchema
