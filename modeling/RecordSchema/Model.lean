import RecordSchema.Expr
import RecordSchema.Tag

/-!
# The resolved model

A model holds the declarations of all kinds in lists of their own; they refer to each other by
identifier. An identifier that is out of range stands for a default declaration, so that looking one
up never fails.
-/

set_option autoImplicit false

namespace RecordSchema

inductive Member where
  | package (id : PackageId)
  | record (id : RecordId)
  | enumeration (id : EnumId)
  | constant (id : ConstantId)
deriving DecidableEq, Inhabited

/-- The owner of an enumeration or constant. -/
inductive Scope where
  | package (id : PackageId)
  | record (id : RecordId)
deriving DecidableEq

instance : Inhabited Scope := ⟨.package default⟩

/-- The types that need no declaration. -/
inductive Builtin where
  | char
  | int8
  | uint8
  | int16
  | uint16
  | int32
  | uint32
  | int64
  | uint64
  | float
  | double
deriving DecidableEq, Inhabited

namespace Builtin

def all : List Builtin :=
  [char, int8, uint8, int16, uint16, int32, uint32, int64, uint64, float, double]

def name : Builtin → String
  | char => "char"
  | int8 => "int8_t"
  | uint8 => "uint8_t"
  | int16 => "int16_t"
  | uint16 => "uint16_t"
  | int32 => "int32_t"
  | uint32 => "uint32_t"
  | int64 => "int64_t"
  | uint64 => "uint64_t"
  | float => "float"
  | double => "double"

def ofName? (text : String) : Option Builtin :=
  all.find? fun builtin => builtin.name == text

def size : Builtin → Nat
  | char | int8 | uint8 => 1
  | int16 | uint16 => 2
  | int32 | uint32 | float => 4
  | int64 | uint64 | double => 8

/-- Whether a type holds integers. -/
def isInteger : Builtin → Bool
  | float | double => false
  | _ => true

def bits (builtin : Builtin) : Nat :=
  builtin.size * 8

end Builtin

/-- A type that a declaration refers to. -/
inductive TypeRef where
  | record (id : RecordId)
  | enumeration (id : EnumId)
  | builtin (type : Builtin)
deriving DecidableEq

instance : Inhabited TypeRef := ⟨.builtin .char⟩

inductive Dimension where
  | bounded (count : Expr)
  | unbounded
deriving DecidableEq

/-- The number of places along a dimension, if it has a bound. -/
def Dimension.count? : Dimension → Option Expr
  | .bounded count => some count
  | .unbounded => none

/-- Who may use a member. -/
inductive Access where
  | publicly
  | protectedly
  | privately
deriving DecidableEq

instance : Inhabited Access := ⟨.publicly⟩

namespace Access

def keyword : Access → String
  | publicly => "public"
  | protectedly => "protected"
  | privately => "private"

def ofKeyword? (text : String) : Option Access :=
  [publicly, protectedly, privately].find? fun access => access.keyword == text

end Access

/-- The number pair under which a record type travels. -/
structure Identity where
  typeId : UInt32
  version : UInt32
deriving DecidableEq, Inhabited

structure Package where
  name : String := ""
  parent : Option PackageId := none
  /-- In the order of their first mention. -/
  members : List (String × Member) := []
  comment : Option String := none
  /-- Whether no primary unit opens the package. -/
  included : Bool := false
  external : Bool := false
  cppName : Option String := none
  tags : RawTags := []
deriving Inhabited

/-- An attribute of a record type. -/
structure Attribute where
  name : String := ""
  owner : RecordId := default
  type : TypeRef := default
  shape : List Dimension := []
  bitfields : List BitfieldId := []
  accessor : Option MethodId := none
  declaredOffset : Option Expr := none
  offset : Expr := default
  elementSize : Expr := default
  access : Access := default
  comment : Option String := none
  tags : RawTags := []
  configDependent : Bool := false
  /-- Whether the attribute is in the leading run of fixed, config-free ones. -/
  stored : Bool := false
deriving Inhabited

namespace Attribute

/-- Number of dimensions. -/
def rank (attr : Attribute) : Nat :=
  attr.shape.length

/-- Name of the storage member. -/
def fieldName (attr : Attribute) : String :=
  if attr.name.toList.head? = some '_' then attr.name else "_" ++ attr.name

/-- Name of the accessor if the declaration gives none. -/
def defaultAccessorName (attr : Attribute) : String :=
  String.ofList (attr.name.toList.dropWhile (· = '_'))

end Attribute

structure Bitfield where
  name : String := ""
  attr : AttributeId := default
  offset : Nat := 0
  width : Nat := 0
  type : TypeRef := default
  accessor : Option MethodId := none
  comment : Option String := none
deriving Inhabited

/-- The lowest bits of a word, as many as the bitfield is wide, and at most 64. -/
def Bitfield.mask (bitfield : Bitfield) : Nat :=
  Nat.pow 2 (min bitfield.width 64) - 1

structure Argument where
  name : String
  type : Option TypeRef
deriving Inhabited

inductive MethodBody where
  | attr (id : AttributeId)
  | bitfield (id : BitfieldId)
  | expressions (bodies : List (String × Expr))
  /-- A statement block, by language. -/
  | code (bodies : List (String × Expr))
  | external
deriving DecidableEq, Inhabited

def MethodBody.texts : MethodBody → List Expr
  | expressions bodies => bodies.map (·.2)
  | code bodies => bodies.map (·.2)
  | _ => []

/-- A method of a record type. -/
structure Method where
  name : String := ""
  owner : RecordId := default
  result : Option TypeRef := none
  rank : Nat := 0
  arguments : List Argument := []
  body : MethodBody := .external
  access : Access := default
  inlined : Bool := false
  comment : Option String := none
  tags : RawTags := []
  configDependent : Bool := false
deriving Inhabited

/-- What a constructor assigns to. -/
inductive Destination where
  | attr (id : AttributeId)
  | bitfield (id : BitfieldId)
deriving DecidableEq, Inhabited

structure ConstructorArgument where
  name : String
  type : TypeRef
  destination : Option Destination
  expression : Option Expr
  method : Option String
deriving Inhabited

/-- An assignment that a constructor makes by itself. -/
structure Initializer where
  destination : Destination
  expression : Expr
deriving Inhabited

/-- A constructor of a record type. -/
structure Constructor where
  arguments : List ConstructorArgument := []
  initializers : List Initializer := []
  auto : Bool := false
  inlined : Bool := false
  external : Bool := false
  forceDefinition : Bool := false
  comment : Option String := none
  tags : RawTags := []
deriving Inhabited

structure Constant where
  name : String := ""
  scope : Scope := default
  value : Expr := default
  comment : Option String := none
deriving Inhabited

structure Enumerator where
  name : String
  value : Option Expr
  comment : Option String
deriving Inhabited

structure Enumeration where
  name : String := ""
  scope : Scope := default
  base : Builtin := .int32
  constants : List Enumerator := []
  comment : Option String := none
deriving Inhabited

/-- Where a stored value comes from. -/
inductive DatasetSource where
  | attr (id : AttributeId)
  | method (id : MethodId)
deriving DecidableEq, Inhabited

structure DatasetEntry where
  name : String
  method : String
  rank : Nat
  tags : RawTags
  source : DatasetSource
deriving Inhabited

/-- Values that are stored together. -/
structure Dataset where
  name : String
  external : Option String := none
  tags : RawTags := []
  entries : List DatasetEntry := []
deriving Inhabited

structure StorageSchema where
  name : String
  version : UInt32
  external : Option String := none
  embedded : Bool := false
  skipProxy : Bool := false
  isDefault : Bool := false
  tags : RawTags := []
  datasets : List Dataset := []
deriving Inhabited

structure Record where
  name : String := ""
  package : PackageId := default
  identity : Option Identity := none
  base : Option RecordId := none
  pack : Option UInt32 := none
  comment : Option String := none
  configs : List RecordId := []
  valueType : Bool := false
  configType : Bool := false
  external : Bool := false
  noSizeof : Bool := false
  cppName : Option String := none
  aliases : List String := []
  tags : RawTags := []
  constants : List (String × ConstantId) := []
  enumerations : List (String × EnumId) := []
  constructors : List Constructor := []
  attributes : List AttributeId := []
  methods : List MethodId := []
  schemas : List StorageSchema := []
  size : Expr := default
  align : Nat := 1
  configDependent : Bool := false
  included : Bool := false
deriving Inhabited

structure Model where
  packages : Array Package := #[]
  records : Array Record := #[]
  attributes : Array Attribute := #[]
  bitfields : Array Bitfield := #[]
  methods : Array Method := #[]
  enumerations : Array Enumeration := #[]
  constants : Array Constant := #[]
  /-- The outermost packages in the order of their first mention. -/
  roots : List (String × PackageId) := []
  /-- Headers that generated code includes. -/
  useHeaders : List String := []
deriving Inhabited

namespace Model

def package (model : Model) (id : PackageId) : Package :=
  model.packages.getD id.index default

/-- The record type of an identifier. -/
def record (model : Model) (id : RecordId) : Record :=
  model.records.getD id.index default

def attr (model : Model) (id : AttributeId) : Attribute :=
  model.attributes.getD id.index default

def bitfield (model : Model) (id : BitfieldId) : Bitfield :=
  model.bitfields.getD id.index default

def method (model : Model) (id : MethodId) : Method :=
  model.methods.getD id.index default

def enumeration (model : Model) (id : EnumId) : Enumeration :=
  model.enumerations.getD id.index default

def constant (model : Model) (id : ConstantId) : Constant :=
  model.constants.getD id.index default

def modifyPackage (model : Model) (id : PackageId) (change : Package → Package) : Model :=
  { model with packages := model.packages.modify id.index change }

def modifyRecord (model : Model) (id : RecordId) (change : Record → Record) : Model :=
  { model with records := model.records.modify id.index change }

def modifyAttribute (model : Model) (id : AttributeId) (change : Attribute → Attribute) : Model :=
  { model with attributes := model.attributes.modify id.index change }

def modifyBitfield (model : Model) (id : BitfieldId) (change : Bitfield → Bitfield) : Model :=
  { model with bitfields := model.bitfields.modify id.index change }

def modifyEnumeration (model : Model) (id : EnumId) (change : Enumeration → Enumeration) : Model :=
  { model with enumerations := model.enumerations.modify id.index change }

def modifyConstant (model : Model) (id : ConstantId) (change : Constant → Constant) : Model :=
  { model with constants := model.constants.modify id.index change }

/-- All record types in order. -/
def recordIds (model : Model) : List RecordId :=
  (List.range model.records.size).map RecordId.mk

def packageIds (model : Model) : List PackageId :=
  (List.range model.packages.size).map PackageId.mk

end Model

end RecordSchema
