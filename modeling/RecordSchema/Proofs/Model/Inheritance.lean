import RecordSchema.Proofs.Build

/-!
# Inherited members

A type that extends another looks a name up among its own members first and then in its base. So it
finds what the base finds, under each name that it does not declare again.
-/

set_option autoImplicit false

namespace RecordSchema.Model

/-- A type that has anything to it is in range. -/
theorem inside_of_ne {α : Type} {model : Model} {id : RecordId} (read : Record → α)
    (different : read (model.record id) ≠ read default) : id.index < model.records.size := by
  by_contra outside
  exact different (congrArg read (model.record_eq_default outside))

theorem inside_of_mem {α : Type} {model : Model} {id : RecordId} (read : Record → List α)
    (none : read default = []) {item : α} (listed : item ∈ read (model.record id)) :
    id.index < model.records.size := by
  refine inside_of_ne read fun same => ?_
  rw [same, none] at listed
  cases listed

/-- The attribute of a name among those that a type declares itself. -/
def ownAttribute? (model : Model) (id : RecordId) (name : String) : Option AttributeId :=
  (model.record id).attributes.find? fun attr => (model.attr attr).name == name

/-- The same for methods, accessors included. -/
def ownMethod? (model : Model) (id : RecordId) (name : String) : Option MethodId :=
  (model.record id).methods.find? fun method => (model.method method).name == name

/-- The names of the attributes and methods that a type declares itself. -/
def ownNames (model : Model) (id : RecordId) : List String :=
  (model.record id).attributes.map (fun attr => (model.attr attr).name) ++
    (model.record id).methods.map fun method => (model.method method).name

theorem own_eq_none_iff {model : Model} {id : RecordId} {name : String} :
    (model.ownAttribute? id name = none ∧ model.ownMethod? id name = none) ↔
      name ∉ model.ownNames id := by
  simp only [ownAttribute?, ownMethod?, ownNames, List.find?_eq_none, List.mem_append, List.mem_map,
    beq_iff_eq, not_or, not_exists, not_and]

namespace Intact

variable {model : Model} (intact : model.Intact) {id base : RecordId}

include intact

theorem inRange_of_base (extended : (model.record id).base = some base) :
    base.index < model.records.size :=
  intact.closed.base id base extended

theorem lineage_of_root (inside : id.index < model.records.size)
    (root : (model.record id).base = none) : model.lineage id = [id] :=
  lineage_eq intact.closed inside (.last root)

theorem lineage_of_base (inside : id.index < model.records.size)
    (extended : (model.record id).base = some base) :
    model.lineage id = id :: model.lineage base :=
  lineage_eq intact.closed inside
    (.more extended (intact.lineage base (intact.inRange_of_base extended)).1)

theorem mem_lineage_self (inside : id.index < model.records.size) : id ∈ model.lineage id := by
  cases found : (model.record id).base with
  | none => simp [intact.lineage_of_root inside found]
  | some base => simp [intact.lineage_of_base inside found]

theorem findAttribute?_of_base (inside : id.index < model.records.size)
    (extended : (model.record id).base = some base) (name : String) :
    model.findAttribute? id name =
      (model.ownAttribute? id name).or (model.findAttribute? base name) := by
  rw [findAttribute?, intact.lineage_of_base inside extended, List.findSome?_cons, ownAttribute?,
    findAttribute?]
  split <;> simp [*]

theorem findMethod?_of_base (inside : id.index < model.records.size)
    (extended : (model.record id).base = some base) (name : String) :
    model.findMethod? id name = (model.ownMethod? id name).or (model.findMethod? base name) := by
  rw [findMethod?, intact.lineage_of_base inside extended, List.findSome?_cons, ownMethod?,
    findMethod?]
  split <;> simp [*]

/-- What holds of types without a base, and of a type if it does of its base, holds of all types. -/
theorem base_induction {motive : RecordId → Prop}
    (root : ∀ id : RecordId, id.index < model.records.size → (model.record id).base = none →
      motive id)
    (extend : ∀ id base : RecordId, id.index < model.records.size →
      (model.record id).base = some base → motive base → motive id)
    (inside : id.index < model.records.size) : motive id := by
  have along : ∀ ids, model.BaseChain id ids → motive id := by
    intro ids chain
    induction chain with
    | @last id ends => exact root id inside ends
    | @more id following rest found _ ih =>
      exact extend id following inside found (ih (intact.inRange_of_base found))
  exact along _ (intact.lineage id inside).1

end Intact

end RecordSchema.Model
