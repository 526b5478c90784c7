import RecordSchema.Cpp.Class
import RecordSchema.Cpp.Operands
import RecordSchema.Layout.Storage

/-!
# Accessor classes

The backend for classes that overlay the bytes of a record: constants, enumerations, constructors,
accessors, and storage members for the attributes that are stored.
-/

set_option autoImplicit false

namespace RecordSchema.Accessors

open Cpp

/-- The languages whose method bodies are taken, best liked first. -/
def bodyLanguages : List String := ["C++", "Any"]

/-- The body in the best liked language. -/
def pickBody? (bodies : List (String × Expr)) : Option Expr :=
  bodyLanguages.findSome? fun language => bodies.lookup language

/-- The bytes between two neighbours along a dimension: the size of an element times the dimensions
after it. -/
def stride (elementSize : Expr) (dimensions : List Dimension) : Option Expr :=
  (dimensions.filterMap Dimension.count?).foldlM Expr.product elementSize

def addStrides (elementSize : Expr) (position : Nat) (offset : Expr) :
    List Dimension → Option Expr
  | [] => some offset
  | _ :: rest => do
    let step ← stride elementSize rest
    let distance ← Expr.product (.operand (.text ("i" ++ toString position))) step
    addStrides elementSize (position + 1) (← Expr.sum offset distance) rest

/-- The byte offset of the element at the indices `i0`, `i1`, and so on. -/
def elementOffset (attr : Attribute) : Option Expr :=
  addStrides attr.elementSize 0 attr.offset attr.shape

/-- The indices of an element behind a storage member. -/
def subscripts (rank : Nat) : String :=
  String.join ((indexNames rank).map fun index => "[" ++ index ++ "]")

def elementRead (model : Model) (owner : RecordId) (attr : Attribute) : Option String :=
  if attr.stored then some (attr.fieldName ++ subscripts attr.rank)
  else do
    let offset ← elementOffset attr
    some ("*(const " ++ storageType model attr.type ++ "*)(((const char*)this)+" ++
      offset.render (spelling model owner) ++ ")")

def attributeBody (model : Model) (owner : RecordId) (attr : Attribute) : Option String := do
  let read ← elementRead model owner attr
  match attr.type with
  | .enumeration id => some ("return " ++ enumName model id ++ "(" ++ read ++ ");")
  | _ => some ("return " ++ read ++ ";")

def bitfieldBody (model : Model) (bitfield : Bitfield) : String :=
  "return " ++ typeRef model bitfield.type ++ "((" ++
    attributeValue model (model.attr bitfield.attr) ++ " >> " ++ toString bitfield.offset ++
    ") & " ++ Numeral.hexadecimal bitfield.mask ++ ");"

/-- The body of a method, if it has one here. Nothing at all comes of arithmetic that overflows. -/
def methodBody (model : Model) (owner : RecordId) (method : Method) : Option (Option String) :=
  match method.body with
  | .attr id => (attributeBody model owner (model.attr id)).map some
  | .bitfield id => some (some (bitfieldBody model (model.bitfield id)))
  | .expressions bodies =>
    some ((pickBody? bodies).map fun body =>
      "return " ++ body.render (spelling model owner) ++ ";")
  | .code bodies => some ((pickBody? bodies).map (Expr.render (spelling model owner)))
  | .external => some none

def accessorRank? (model : Model) : MethodBody → Option Nat
  | .attr id => some (model.attr id).rank
  | _ => none

/-- The type that a method returns. An accessor returns one element, another method of some rank a
pointer. -/
def resultText (model : Model) (method : Method) : String :=
  match method.result, accessorRank? model method.body with
  | none, _ => "void"
  | some type, some _ => returnType model type
  | some type, none =>
    if 0 < method.rank then "const " ++ typeRef model type ++ "*" else returnType model type

/-- The parameters that select an element. -/
def indexParametersOf (model : Model) (method : Method) : List Parameter :=
  (indexNames ((accessorRank? model method.body).getD 0)).map (Parameter.mk "uint32_t")

def declaredParameters (model : Model) (method : Method) : List Parameter :=
  method.arguments.map fun argument =>
    ⟨(argument.type.map (typeRef model)).getD "uint32_t", argument.name⟩

def signature (model : Model) (method : Method) : Signature where
  result := resultText model method
  name := method.name
  parameters := indexParametersOf model method ++ declaredParameters model method
  template := method.configDependent

def methodMember (model : Model) (owner : RecordId) (method : Method) :
    Option (Access × ClassMember) := do
  let body ← methodBody model owner method
  some (method.access, .method method.comment (signature model method) body method.inlined)

/-- The attribute that an assignment reaches. -/
def destinationAttribute (model : Model) : Destination → Attribute
  | .attr id => model.attr id
  | .bitfield id => model.attr (model.bitfield id).attr

def reachesStorage (model : Model) (destination : Destination) : Bool :=
  (destinationAttribute model destination).stored

/-- Whether a constructor can be defined here: all it assigns to has storage, or the declaration
insists. -/
def isDefinable (model : Model) (constructor : Constructor) : Bool :=
  !constructor.external &&
    (constructor.forceDefinition ||
      (constructor.arguments.all fun argument =>
          (argument.destination.map (reachesStorage model)).getD false) &&
        constructor.initializers.all fun init => reachesStorage model init.destination)

/-- What a constructor assigns, sorted by how it is written. -/
structure Assignments where
  /-- First values of storage members of the class itself, by attribute. -/
  initializers : List (Nat × String) := []
  /-- Bits to be joined, by attribute. -/
  bits : List (Nat × List String) := []
  statements : List String := []

/-- Sets the value of a key in a list whose keys ascend. -/
def setAt {α : Type} (key : Nat) (change : Option α → α) : List (Nat × α) → List (Nat × α)
  | [] => [(key, change none)]
  | entry :: rest =>
    if key < entry.1 then (key, change none) :: entry :: rest
    else if key = entry.1 then (key, change (some entry.2)) :: rest
    else entry :: setAt key change rest

/-- Number of elements of an attribute as far as it is a number, zero otherwise. -/
def elementCount (attr : Attribute) : Option Int :=
  (Layout.fixedCount 1 attr.shape).map fun count => count.getD 0

/-- Assigns a value to a scalar attribute: at once if it is of the class itself, otherwise by a
statement. -/
def assignScalar (owner : RecordId) (id : AttributeId) (attr : Attribute) (value : String)
    (assignments : Assignments) : Assignments :=
  if attr.owner = owner then
    { assignments with
      initializers := setAt id.index (fun _ => value) assignments.initializers }
  else
    { assignments with
      statements := assignments.statements ++ [attr.fieldName ++ " = " ++ value ++ ";"] }

/-- Copies the elements of an array. -/
def assignArray (attr : Attribute) (value : String) (assignments : Assignments) :
    Option Assignments := do
  let count ← elementCount attr
  let zeros := String.join (List.replicate attr.rank "[0]")
  let statement := s!"std::copy({value}, {value}+{count}, &{attr.fieldName}{zeros});"
  some { assignments with statements := assignments.statements ++ [statement] }

def assignBits (bitfield : Bitfield) (value : String) (assignments : Assignments) : Assignments :=
  let term := "((" ++ value ++ ") & " ++ Numeral.hexadecimal bitfield.mask ++ ") << " ++
    toString bitfield.offset
  { assignments with
    bits := setAt bitfield.attr.index (fun terms => terms.getD [] ++ [term]) assignments.bits }

def assign (model : Model) (owner : RecordId) (assignments : Assignments)
    (assignment : Destination × String) : Option Assignments :=
  match assignment.1 with
  | .attr id =>
    let attr := model.attr id
    if 0 < attr.rank then assignArray attr assignment.2 assignments
    else some (assignScalar owner id attr assignment.2 assignments)
  | .bitfield id => some (assignBits (model.bitfield id) assignment.2 assignments)

/-- The destinations of a constructor with the texts assigned to them, in order. An argument without
an expression is assigned itself. -/
def assignmentTexts (model : Model) (owner : RecordId) (constructor : Constructor) :
    List (Destination × String) :=
  let render := Expr.render (spelling model owner)
  constructor.arguments.filterMap (fun argument =>
      argument.destination.map (·, (argument.expression.map render).getD argument.name)) ++
    constructor.initializers.map fun init => (init.destination, render init.expression)

def assignJoined (model : Model) (owner : RecordId) (assignments : Assignments)
    (entry : Nat × List String) : Assignments :=
  let id : AttributeId := ⟨entry.1⟩
  assignScalar owner id (model.attr id) (" | ".intercalate entry.2) assignments

def assignments (model : Model) (owner : RecordId) (constructor : Constructor) :
    Option Assignments := do
  let direct ← (assignmentTexts model owner constructor).foldlM (assign model owner) {}
  some (direct.bits.foldl (assignJoined model owner) direct)

/-- Whether an argument is the source of an array. -/
def fillsArray (model : Model) : Option Destination → Bool
  | some (.attr id) => 0 < (model.attr id).rank
  | _ => false

def constructorParameter (model : Model) (argument : ConstructorArgument) : Parameter where
  type :=
    match argument.type with
    | .record _ => "const " ++ typeRef model argument.type ++ "&"
    | type =>
      if fillsArray model argument.destination then "const " ++ storageType model type ++ "*"
      else typeRef model type
  name := argument.name

/-- Where the body of a constructor stands. -/
def constructorForm (model : Model) (constructor : Constructor) : ConstructorForm :=
  if isDefinable model constructor then
    if constructor.inlined then .inlined else .defined
  else .declared

def constructorMember (model : Model) (owner : RecordId) (constructor : Constructor) :
    Option (Access × ClassMember) :=
  if constructor.auto then some (.publicly, .emptyConstructor constructor.comment)
  else do
    let assigned ← assignments model owner constructor
    some (.publicly, .constructor
      { comment := constructor.comment
        parameters := constructor.arguments.map (constructorParameter model)
        initializers := assigned.initializers.map fun entry =>
          ((model.attr ⟨entry.1⟩).fieldName, entry.2)
        statements := assigned.statements
        form := constructorForm model constructor })

def scopeSpelling (model : Model) : Scope → Operand.Spelling
  | .record owner => spelling model owner
  | .package _ => Operand.Spelling.source

def enumText (model : Model) (enumeration : Enumeration) : EnumText where
  comment := enumeration.comment
  name := enumeration.name
  enumerators := enumeration.constants.map fun constant =>
    ⟨constant.name, constant.value.map (Expr.render (scopeSpelling model enumeration.scope)),
      constant.comment⟩

def identityMembers : Option Identity → List ClassMember
  | none => []
  | some identity =>
    [.identifier "TypeId" identity.typeId "XTC type ID value",
      .identifier "Version" identity.version "XTC type version number"]

def dimensionText : Dimension → String
  | .bounded count => "[" ++ count.source ++ "]"
  | .unbounded => "[]"

def fieldMember (model : Model) (attr : Attribute) : ClassMember :=
  .field (storageType model attr.type) attr.fieldName (String.join (attr.shape.map dimensionText))
    attr.comment

/-- Storage members from a byte on, with padding where an attribute starts later; the padding
members are numbered. -/
def storageMembersFrom (model : Model) (cursor : Int) (padding : Nat) :
    List Attribute → Option (List ClassMember)
  | [] => some []
  | attr :: rest =>
    if attr.stored then do
      let offset := attr.offset.constant?.getD cursor
      let count ← elementCount attr
      let extent ← Word.mul (attr.elementSize.constant?.getD 0) count
      if cursor < offset then
        let gap ← Word.check (offset - cursor)
        let others ← storageMembersFrom model (← Word.add offset extent) (padding + 1) rest
        some (.pad padding gap :: fieldMember model attr :: others)
      else
        let others ← storageMembersFrom model (← Word.add offset extent) padding rest
        some (fieldMember model attr :: others)
    else some []

/-- The storage members of a record type, after the bytes of its base. -/
def storageMembers (model : Model) (record : Record) : Option (List ClassMember) :=
  let start := ((record.base.map fun base => (model.record base).size.constant?).getD none).getD 0
  storageMembersFrom model start 0 (record.attributes.map model.attr)

def sizeMember (model : Model) (id : RecordId) (record : Record) : List ClassMember :=
  if record.noSizeof then []
  else
    [.method none ⟨"uint32_t", "_sizeof", [], record.configDependent⟩
      (some ("return " ++ record.size.render (spelling model id) ++ ";")) false]

def constantMembers (model : Model) (id : RecordId) (record : Record) : List ClassMember :=
  record.constants.map fun entry =>
    let constant := model.constant entry.2
    .constant constant.comment constant.name (constant.value.render (spelling model id))

/-- The class of a record type. Nothing comes of arithmetic that overflows. -/
def classOf (model : Model) (id : RecordId) : Option Cpp.Class := do
  let record := model.record id
  let enumerations := record.enumerations.map fun entry =>
    ClassMember.enumeration (enumText model (model.enumeration entry.2))
  let constructors ← record.constructors.mapM (constructorMember model id)
  let methods ← record.methods.mapM fun method => methodMember model id (model.method method)
  let storage ← storageMembers model record
  let publicly := (Access.publicly, ·)
  some
    { comment := record.comment
      name := className model id
      base := record.base.map (typeName model)
      members :=
        (identityMembers record.identity ++ constantMembers model id record ++ enumerations).map
            publicly ++
          constructors ++ methods ++ (sizeMember model id record).map publicly ++
          storage.map (Access.privately, ·) }

/-- The header that the definitions include if no other is asked for. -/
def defaultHeader : String := "generated.h"

/-- What stands before all classes. -/
def prologue (header : String) (model : Model) : Generated where
  declaration :=
    "#pragma once\n\n#include <stdint.h>\n#include <cstddef>\n#include <algorithm>\n" ++
      includeLines model.useHeaders ++ "\n"
  definition := includeLines [header] ++ "\n"

/-- The lines of a package's constant. -/
def constantText (constant : Constant) : String :=
  docComment "" constant.comment ++
    "enum \x7b " ++ constant.name ++ " = " ++ constant.value.source ++ " \x7d;\n"

/-- The backend for accessor classes; the definitions include the given header. -/
def backend (header : String) : Backend Unit where
  name := "native"
  prologue model := pure (prologue header model)
  visitConstant model id := pure (Generated.declare (constantText (model.constant id)))
  visitEnumeration model id :=
    pure (Generated.declare ((enumText model (model.enumeration id)).render ""))
  visitRecord model id := do
    let text ← Emission.orOverflow (classOf model id)
    pure text.render

/-- The methods that can be called without a config object from outside. -/
def forwardableMethods (model : Model) (id : RecordId) : List Method :=
  ((model.record id).methods.map model.method).filter fun method =>
    method.access == .publicly && !method.configDependent

end RecordSchema.Accessors
