import RecordSchema.Expr.Parser
import RecordSchema.Resolution.Lookup
import RecordSchema.Resolution.Names

/-!
# Values of constants and enumerations

The expressions of constants and enumerators. They have no instance and no config object to refer to.
-/

set_option autoImplicit false

namespace RecordSchema.Resolution

/-- The record type that a declaration of a scope belongs to. -/
def scopeOwner : Scope → Option RecordId
  | .package _ => none
  | .record record => some record

def resolveConstant (model : Model) (pending : Pending ConstantId Declaration.Constant) :
    Except SchemaError Model := do
  let some raw := pending.declaration.value | .error (.missingField pending.path "value")
  let owner := scopeOwner (model.constant pending.id).scope
  let value ← Expr.parse ⟨owner, none, pending.path⟩ raw
  if !value.members.isEmpty then .error (.invalidExpression pending.path .instanceInConstant)
  .ok (model.modifyConstant pending.id fun constant => { constant with value })

def enumerationBase (model : Model) (scope : Scope) (path : String) :
    Option String → Except SchemaError Builtin
  | none => .ok .int32
  | some name =>
    match model.lookup? scope name with
    | some (.builtin type) =>
      if type.isInteger then .ok type else .error (.unresolvedReference path name)
    | _ => .error (.unresolvedReference path name)

def addEnumerator (owner : Option RecordId) (path : String) (before : List Enumerator)
    (declaration : Declaration.Constant) : Except SchemaError (List Enumerator) := do
  if Text.allBlank declaration.name then .error (.missingField path "name")
  if before.any (·.name == declaration.name) then .error (.duplicateName path declaration.name)
  let value ← declaration.value.mapM
    (Expr.parse ⟨owner, none, path ++ "." ++ declaration.name⟩)
  .ok (before ++ [⟨declaration.name, value, declaration.comment⟩])

def resolveEnumeration (model : Model) (pending : Pending EnumId Declaration.Enumeration) :
    Except SchemaError Model := do
  let scope := (model.enumeration pending.id).scope
  let base ← enumerationBase model scope pending.path pending.declaration.base
  let constants ← pending.declaration.constants.foldlM
    (addEnumerator (scopeOwner scope) pending.path) []
  .ok (model.modifyEnumeration pending.id fun enumeration => { enumeration with base, constants })

end RecordSchema.Resolution
