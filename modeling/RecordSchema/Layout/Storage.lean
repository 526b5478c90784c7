import RecordSchema.Model.Navigation
import RecordSchema.SchemaError

/-!
# Stored attributes

The leading attributes of a record type whose place is a number and needs no config object have
storage members. A type stores nothing unless its base stores all of its own attributes.
-/

set_option autoImplicit false

namespace RecordSchema.Layout

/-- Product of the dimensions of a shape from the left, as far as they are numbers. The inner result
is none if one is not a number, the outer if a product is no word. -/
def fixedCount : Int → List Dimension → Option (Option Int)
  | count, [] => some (some count)
  | count, .bounded (.const size) :: rest => do fixedCount (← Word.mul count size) rest
  | _, _ :: _ => some none

/-- Where an attribute starts and stops, if both are numbers. -/
def fixedRange (attr : Attribute) : Option (Option (Int × Int)) :=
  match attr.offset, attr.elementSize with
  | .const offset, .const size => do
    match ← fixedCount 1 attr.shape with
    | none => some none
    | some count =>
      let stop ← Word.add offset (← Word.mul size count)
      some (some (offset, stop))
  | _, _ => some none

/-- Where the attributes of a type end at the latest once this one is stored; none if it is not
stored. -/
def storedStop (attr : Attribute) (stop : Option Int) (range : Option (Int × Int)) : Option Int :=
  match range, stop with
  | some (start, next), some previous =>
    if !attr.configDependent && previous ≤ start then some next else none
  | _, _ => none

/-- Marks the leading attributes that are stored, after a number where the attributes before end. -/
def storeAttributes (model : Model) (storing : Bool) (stop : Option Int) :
    List AttributeId → Option Model
  | [] => some model
  | id :: rest => do
    let attr := model.attr id
    let range ← fixedRange attr
    match if storing then storedStop attr stop range else none with
    | none => some model
    | some next =>
      storeAttributes (model.modifyAttribute id fun current => { current with stored := true })
        true (some next) rest

/-- Marks the stored attributes of one type. -/
def storeRecord (model : Model) (id : RecordId) : Option Model :=
  let record := model.record id
  match record.base with
  | none => storeAttributes model true (some 0) record.attributes
  | some base =>
    let storing := (model.record base).attributes.all fun attr => (model.attr attr).stored
    storeAttributes model storing (model.record base).size.constant? record.attributes

/-- Marks the stored attributes of all types, bases first. -/
def withStorage (model : Model) (order : List RecordId) : Option Model :=
  order.foldlM storeRecord model

end RecordSchema.Layout
