import RecordSchema.Expr.Parser
import RecordSchema.Resolution.Lookup
import RecordSchema.Resolution.Names

/-!
# Attributes and bitfields

Resolution of the attributes of a record type in order, each with its shape, its accessor method and
its bitfields, which have accessor methods too.
-/

set_option autoImplicit false

namespace RecordSchema.Resolution

/-- Where the expressions of a record type are read: its config object is of its first config
type. -/
def exprContext (model : Model) (owner : RecordId) (path : String) : Expr.Context :=
  ⟨some owner, (model.record owner).configs.head?, path⟩

/-- The access level that a declaration asks for. -/
def accessOf (path : String) : Option String → Except SchemaError Access
  | none => .ok .publicly
  | some keyword =>
    match Access.ofKeyword? keyword with
    | some access => .ok access
    | none => .error (.unresolvedReference path keyword)

/-- Tags that no rule looks at. -/
def plainTags (tags : List String) : RawTags :=
  (Tag.parseAll tags).foldl (fun found tag => found.insert tag.name tag.argument) []

/-- Adds a method to its owner; its name must be new there. -/
def addMethod (model : Model) (path : String) (method : Method) :
    Except SchemaError (Model × MethodId) :=
  let clash := (model.record method.owner).methods.any fun id =>
    (model.method id).name == method.name
  if clash then .error (.duplicateName path method.name)
  else
    let id : MethodId := ⟨model.methods.size⟩
    let extended := { model with methods := model.methods.push method }
    .ok (extended.modifyRecord method.owner fun record =>
      { record with methods := record.methods ++ [id] }, id)

def resolveDimension (context : Expr.Context) (position : Nat) (raw : String) :
    Except SchemaError Dimension := do
  let text := Text.trim raw
  if text = "*" then
    if position = 0 then .ok .unbounded
    else .error (.invalidShape context.path (.unboundedInside position))
  else if text.isEmpty then .error (.invalidShape context.path (.emptyDimension position))
  else
    let count ← Expr.parse context text
    match count with
    | .const size =>
      if size ≤ 0 then .error (.invalidShape context.path (.nonPositive position size))
      else .ok (.bounded count)
    | _ => .ok (.bounded count)

def resolveShape (context : Expr.Context) (position : Nat) :
    List String → Except SchemaError (List Dimension)
  | [] => .ok []
  | raw :: rest => do
    let dimension ← resolveDimension context position raw
    let dimensions ← resolveShape context (position + 1) rest
    .ok (dimension :: dimensions)

/-- The integer type whose bits an attribute may hand out: it is a scalar of that type. -/
def bitStorage? (attr : Attribute) : Option Builtin :=
  match attr.type, attr.shape with
  | .builtin type, [] => if type.isInteger then some type else none
  | _, _ => none

/-- Bits of a storage word that have been handed out: the name of the bitfield, the first bit, and
the bit after the last. -/
structure PlacedBits where
  name : String
  start : Nat
  stop : Nat

/-- The place of a bitfield that follows the ones placed before. It has at least one bit, ends within
the storage word, and shares no bit with another. -/
def placeBits (attributePath : String) (storage : Builtin) (placed : List PlacedBits)
    (declaration : Declaration.Bitfield) : Except SchemaError PlacedBits := do
  let path := attributePath ++ "." ++ declaration.name
  let some size := declaration.size | .error (.missingField path "size")
  if size = 0 then .error (.invalidShape path .emptyBitfield)
  let following := (placed.getLast?.map (·.stop)).getD 0
  let start := (declaration.offset.map UInt32.toNat).getD following
  let stop := start + size.toNat
  if storage.bits < stop then
    .error (.bitfieldOverflow path (min stop 4294967295) storage.bits)
  match placed.find? fun other => start < other.stop && other.start < stop with
  | some other => .error (.bitfieldOverlap attributePath other.name declaration.name)
  | none => .ok ⟨declaration.name, start, stop⟩

/-- The part of an attribute's resolution that its bitfields share. -/
structure BitfieldContext where
  owner : RecordId
  attr : AttributeId
  access : Access
  storage : Builtin
  path : String

/-- Lists a bitfield with its attribute and gives it an accessor of a name that is new in the record
type. -/
def insertBitfield (model : Model) (owner : RecordId) (access : Access) (path accessorName : String)
    (bitfield : Bitfield) : Except SchemaError Model := do
  let id : BitfieldId := ⟨model.bitfields.size⟩
  let extended := { model with bitfields := model.bitfields.push bitfield }
  let listed := extended.modifyAttribute bitfield.attr fun attr =>
    { attr with bitfields := attr.bitfields ++ [id] }
  let (complete, accessor) ← addMethod listed path
    { name := accessorName, owner, result := some bitfield.type, body := .bitfield id, access,
      comment := bitfield.comment }
  .ok (complete.modifyBitfield id fun current => { current with accessor := some accessor })

/-- Resolves one bitfield and its accessor. -/
def addBitfield (context : BitfieldContext) (state : Model × List PlacedBits)
    (declaration : Declaration.Bitfield) : Except SchemaError (Model × List PlacedBits) := do
  let (model, placed) := state
  let path := context.path ++ "." ++ declaration.name
  let bits ← placeBits context.path context.storage placed declaration
  let type ←
    match declaration.typeName with
    | some name => model.lookupType context.owner path name
    | none => .ok (.builtin context.storage)
  let extended ← insertBitfield model context.owner context.access path
    (declaration.accessor.getD declaration.name)
    { name := declaration.name, attr := context.attr, offset := bits.start,
      width := bits.stop - bits.start, type, comment := declaration.comment }
  .ok (extended, placed ++ [bits])

/-- Resolves the bitfields of an attribute, which must be a scalar integer to have any. -/
def addBitfields (model : Model) (owner : RecordId) (id : AttributeId) (path typeName : String)
    (declarations : List Declaration.Bitfield) : Except SchemaError Model :=
  if declarations.isEmpty then .ok model
  else
    match bitStorage? (model.attr id) with
    | none => .error (.bitfieldStorage path typeName)
    | some storage =>
      (declarations.foldlM (addBitfield ⟨owner, id, (model.attr id).access, storage, path⟩)
        (model, [])).map (·.1)

def readAttribute (model : Model) (owner : RecordId) (path : String)
    (declaration : Declaration.Attribute) : Except SchemaError Attribute := do
  let some typeName := declaration.typeName | .error (.missingField path "type")
  let type ← model.lookupType owner path typeName
  let context := exprContext model owner path
  let shape ← resolveShape context 0 declaration.shape
  let declaredOffset ← declaration.offset.mapM (Expr.parse context)
  let access ← accessOf path declaration.access
  .ok
    { name := declaration.name, owner, type, shape, declaredOffset, access,
      comment := declaration.comment, tags := plainTags declaration.tags }

/-- Lists an attribute with its owner and gives it an accessor of a name that is new there. -/
def insertAttribute (model : Model) (path accessorName : String) (attr : Attribute) :
    Except SchemaError Model := do
  let id : AttributeId := ⟨model.attributes.size⟩
  let extended := { model with attributes := model.attributes.push attr }
  let listed := extended.modifyRecord attr.owner fun record =>
    { record with attributes := record.attributes ++ [id] }
  let (complete, accessor) ← addMethod listed path
    { name := accessorName, owner := attr.owner, result := some attr.type, rank := attr.rank,
      body := .attr id, access := attr.access, comment := attr.comment }
  .ok (complete.modifyAttribute id fun current => { current with accessor := some accessor })

/-- Resolves one attribute with its accessor and its bitfields. -/
def addAttribute (owner : RecordId) (typePath : String) (model : Model)
    (declaration : Declaration.Attribute) : Except SchemaError Model := do
  if Text.allBlank declaration.name then .error (.missingField typePath "name")
  let path := typePath ++ "." ++ declaration.name
  let clash := (model.record owner).attributes.any fun id =>
    (model.attr id).name == declaration.name
  if clash then .error (.duplicateName typePath declaration.name)
  let attr ← readAttribute model owner path declaration
  let id : AttributeId := ⟨model.attributes.size⟩
  let extended ← insertAttribute model path
    (declaration.accessor.getD attr.defaultAccessorName) attr
  addBitfields extended owner id path (declaration.typeName.getD "") declaration.bitfields

def resolveAttributes (model : Model) (pending : Pending RecordId Declaration.Record) :
    Except SchemaError Model :=
  pending.declaration.attributes.foldlM (addAttribute pending.id pending.path) model

end RecordSchema.Resolution
