import RecordSchema.Model.Navigation
import RecordSchema.SchemaError

/-!
# Dependence on a config object

An attribute, a method or a record type depends on a config object if an expression of it reads one,
or if it uses an attribute, a method or a type that does. The flags are raised step by step until a
step raises none; a type that depends on a config object must name a config type.
-/

set_option autoImplicit false

namespace RecordSchema.Layout

/-- Whether the member of a name is flagged; attributes go before methods. -/
def memberDepends (model : Model) (owner : RecordId) (name : String) : Bool :=
  match model.findAttribute? owner name with
  | some attr => (model.attr attr).configDependent
  | none =>
    match model.findMethod? owner name with
    | some method => (model.method method).configDependent
    | none => false

/-- Whether an expression reads a config object or a flagged member. -/
def exprDepends (model : Model) (owner : RecordId) (expr : Expr) : Bool :=
  expr.hasConfig || expr.members.any (memberDepends model owner)

def embedsDependent (model : Model) (attr : Attribute) : Bool :=
  match attr.type with
  | .record id => (model.record id).configDependent
  | _ => false

def attributeDepends (model : Model) (attr : Attribute) : Bool :=
  (attr.shape.filterMap Dimension.count?).any (exprDepends model attr.owner) ||
    embedsDependent model attr || exprDepends model attr.owner attr.offset ||
    exprDepends model attr.owner attr.elementSize

def methodDepends (model : Model) (method : Method) : Bool :=
  match method.body with
  | .attr id => (model.attr id).configDependent
  | .bitfield id => (model.attr (model.bitfield id).attr).configDependent
  | body => body.texts.any (exprDepends model method.owner)

def raiseFlags (model : Model) : Model :=
  { model with
    attributes := model.attributes.map fun attr =>
      { attr with configDependent := attr.configDependent || attributeDepends model attr }
    methods := model.methods.map fun method =>
      { method with configDependent := method.configDependent || methodDepends model method }
    records := model.records.mapIdx fun index record =>
      { record with
        configDependent := record.configDependent || exprDepends model ⟨index⟩ record.size } }

/-- How many flags are raised. -/
def flagCount (model : Model) : Nat :=
  model.attributes.countP (·.configDependent) + model.methods.countP (·.configDependent) +
    model.records.countP (·.configDependent)

/-- Raises flags until a step raises none. -/
def raiseAll : Nat → Model → Model
  | 0, model => model
  | fuel + 1, model =>
    let raised := raiseFlags model
    if flagCount raised = flagCount model then model else raiseAll fuel raised

/-- The model with all flags raised. Each step but the last raises one at least. -/
def withDependence (model : Model) : Model :=
  raiseAll (model.attributes.size + model.methods.size + model.records.size + 1) model

/-- Refuses a type without config types that has a flagged attribute. -/
def checkConfigs (model : Model) : Except SchemaError Unit :=
  model.recordIds.forM fun id =>
    let record := model.record id
    if !record.configs.isEmpty then .ok ()
    else
      match (record.attributes.map model.attr).find? (·.configDependent) with
      | none => .ok ()
      | some attr =>
        .error (.missingConfig (model.recordPath id ++ "." ++ attr.name)
          (model.typeRefName attr.type))

end RecordSchema.Layout
