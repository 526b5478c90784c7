/-!
# Identifiers

Every declaration of a model has an identifier: its position in the list of its kind, in the order
in which the declarations were met.
-/

set_option autoImplicit false

namespace RecordSchema

@[ext]
structure PackageId where
  index : Nat
deriving DecidableEq, Inhabited

/-- Position of a record type. -/
@[ext]
structure RecordId where
  index : Nat
deriving DecidableEq, Inhabited

@[ext]
structure AttributeId where
  index : Nat
deriving DecidableEq, Inhabited

@[ext]
structure BitfieldId where
  index : Nat
deriving DecidableEq, Inhabited

@[ext]
structure MethodId where
  index : Nat
deriving DecidableEq, Inhabited

@[ext]
structure EnumId where
  index : Nat
deriving DecidableEq, Inhabited

@[ext]
structure ConstantId where
  index : Nat
deriving DecidableEq, Inhabited

end RecordSchema
