import RecordSchema.Model

/-!
# Finding one's way in a model

Paths of declarations, chains of packages and of base types, and members found along a chain of base
types.
-/

set_option autoImplicit false

namespace RecordSchema.Model

/-- A package and the packages around it, the innermost first. A parent that does not come before
its package is none. -/
def enclosing (model : Model) (id : PackageId) : List PackageId :=
  match (model.package id).parent with
  | none => [id]
  | some parent =>
    if _before : parent.index < id.index then id :: model.enclosing parent else [id]
termination_by id.index

/-- The packages from the outermost down to the given one. -/
def packageChain (model : Model) (id : PackageId) : List PackageId :=
  (model.enclosing id).reverse

def packagePath (model : Model) (id : PackageId) : String :=
  ".".intercalate ((model.packageChain id).map fun package => (model.package package).name)

def recordPath (model : Model) (id : RecordId) : String :=
  model.packagePath (model.record id).package ++ "." ++ (model.record id).name

def scopePath (model : Model) : Scope → String
  | .package id => model.packagePath id
  | .record id => model.recordPath id

def typeRefName (model : Model) : TypeRef → String
  | .record id => model.recordPath id
  | .enumeration id =>
    model.scopePath (model.enumeration id).scope ++ "." ++ (model.enumeration id).name
  | .builtin type => type.name

/-- Whether code is generated for a record type: it is neither included nor external, and no package
around it is external. -/
def isEmitted (model : Model) (id : RecordId) : Bool :=
  let record := model.record id
  !record.included && !record.external &&
    (model.enclosing record.package).all fun package => !(model.package package).external

/-- The record types for which code is generated. -/
def emittedRecords (model : Model) : List RecordId :=
  model.recordIds.filter model.isEmitted

/-- Follows base types from the given one until they end or come back to one seen before. -/
def basesFrom (model : Model) : Nat → List RecordId → RecordId → List RecordId
  | 0, _, _ => []
  | fuel + 1, seen, id =>
    if id ∈ seen then []
    else
      match (model.record id).base with
      | none => [id]
      | some base => id :: model.basesFrom fuel (id :: seen) base

/-- A record type, its base, the base of that, and so on. No chain visits more types than there are,
and at most one identifier in it is out of range. -/
def lineage (model : Model) (id : RecordId) : List RecordId :=
  model.basesFrom (model.records.size + 1) [] id

/-- The method of a name that a type has or inherits; the nearest one counts. -/
def findMethod? (model : Model) (id : RecordId) (name : String) : Option MethodId :=
  (model.lineage id).findSome? fun record =>
    (model.record record).methods.find? fun method => (model.method method).name == name

/-- The attribute of a name that a type has or inherits; the nearest one counts. -/
def findAttribute? (model : Model) (id : RecordId) (name : String) : Option AttributeId :=
  (model.lineage id).findSome? fun record =>
    (model.record record).attributes.find? fun attr => (model.attr attr).name == name

def accessorName (model : Model) (attr : Attribute) : String :=
  match attr.accessor with
  | some method => (model.method method).name
  | none => attr.defaultAccessorName

end RecordSchema.Model
