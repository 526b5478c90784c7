import RecordSchema.Layout.ConfigDependence
import RecordSchema.Layout.Placement
import RecordSchema.Layout.Storage
import RecordSchema.Resolution.Constructors
import RecordSchema.Resolution.Headers
import RecordSchema.Resolution.Methods
import RecordSchema.Resolution.StorageSchemas
import RecordSchema.Resolution.Values

/-!
# From documents to a model

The passes over the declarations of a list of units, in the order that decides which of several
faults is reported.
-/

set_option autoImplicit false

namespace RecordSchema

/-- A model, and the remarks that came up on the way to it. -/
structure Built where
  model : Model
  warnings : List Warning

/-- An outcome that cannot overflow among those that can. -/
def orRefuse {α : Type} : Except SchemaError α → Except Fault α
  | .ok value => .ok value
  | .error error => .error (.schema error)

namespace Resolution

/-- Resolves everything but the layout: headers, values, members. -/
def resolveDeclarations (draft : Draft) : Except SchemaError Built := do
  let records := draft.records.toList
  let withHeaders ← records.foldlM resolveHeader draft.model
  checkIdentities withHeaders
  checkInheritance withHeaders
  let withConstants ← draft.constants.toList.foldlM resolveConstant withHeaders
  let withEnumerations ← draft.enumerations.toList.foldlM resolveEnumeration withConstants
  let withAttributes ← records.foldlM resolveAttributes withEnumerations
  let withMethods ← records.foldlM resolveMethods withAttributes
  let (model, warnings) ← records.foldlM resolveConstructors (withMethods, [])
  checkMembers model
  .ok ⟨model, warnings⟩

/-- Lays a resolved model out and finds its dependence on config objects and its stored
attributes. -/
def layOut (model : Model) : Except Fault Model := do
  let order ← Layout.orderOrRefuse model
  let placed ← order.foldlM Layout.placeRecord model
  let flagged := Layout.withDependence placed
  orRefuse (Layout.checkConfigs flagged)
  orOverflow (Layout.withStorage flagged order)

end Resolution

def build (units : List SourceUnit) : Except Fault Built := do
  let draft ← orRefuse (Draft.ofUnits units)
  let resolved ← orRefuse (Resolution.resolveDeclarations draft)
  let laidOut ← Resolution.layOut resolved.model
  let complete ← orRefuse (draft.records.toList.foldlM Resolution.resolveSchemas laidOut)
  .ok ⟨complete, resolved.warnings⟩

end RecordSchema
