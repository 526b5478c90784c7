import RecordSchema.Resolution.Attributes
import RecordSchema.Warning

/-!
# Constructors

Resolution of the constructors of a record type, and the check that every instance member named in
an expression of a type is there.
-/

set_option autoImplicit false

namespace RecordSchema

/-- The attribute or bitfield of a name that a type has or inherits. Attributes go first; of two
bitfields the one of the nearer type counts, then the one of the earlier attribute. -/
def Model.findDestination? (model : Model) (owner : RecordId) (name : String) :
    Option Destination :=
  match model.findAttribute? owner name with
  | some attr => some (.attr attr)
  | none =>
    (model.lineage owner).findSome? fun record =>
      (model.record record).attributes.findSome? fun attr =>
        ((model.attr attr).bitfields.find? fun id => (model.bitfield id).name == name).map
          Destination.bitfield

def Model.destinationType (model : Model) : Destination → TypeRef
  | .attr id => (model.attr id).type
  | .bitfield id => (model.bitfield id).type

namespace Resolution

def applyConstructorTag (constructor : Constructor) (tag : Tag) : Constructor :=
  match tag.name, tag.argument with
  | "auto", none => { constructor with auto := true }
  | "inline", none => { constructor with inlined := true }
  | "external", none => { constructor with external := true }
  | "force_definition", none => { constructor with forceDefinition := true }
  | name, argument => { constructor with tags := constructor.tags.insert name argument }

def destinationOf (model : Model) (owner : RecordId) (path name : String) :
    Except SchemaError Destination :=
  match model.findDestination? owner name with
  | some destination => .ok destination
  | none => .error (.unknownDestination path name)

/-- Resolves an argument of a constructor. Without a type of its own it has the type of its
destination. -/
def resolveConstructorArgument (model : Model) (owner : RecordId) (path : String)
    (declaration : Declaration.ConstructorArgument) : Except SchemaError ConstructorArgument := do
  let destination ← declaration.destination.mapM (destinationOf model owner path)
  let type ←
    match declaration.typeName, destination with
    | some name, _ => model.lookupType owner path name
    | none, some destination => .ok (model.destinationType destination)
    | none, none => .error (.missingField (path ++ "." ++ declaration.name) "type")
  let expression ← declaration.expression.mapM (Expr.parse (exprContext model owner path))
  .ok ⟨declaration.name, type, destination, expression, declaration.method⟩

/-- Resolves an assignment of a constructor. -/
def resolveInitializer (model : Model) (owner : RecordId) (path : String)
    (declaration : Declaration.Initializer) : Except SchemaError Initializer := do
  let destination ← destinationOf model owner path declaration.destination
  let expression ← Expr.parse (exprContext model owner path) declaration.expression
  .ok ⟨destination, expression⟩

def resolveConstructor (model : Model) (owner : RecordId) (path : String)
    (declaration : Declaration.Constructor) : Except SchemaError Constructor := do
  let arguments ← declaration.arguments.mapM (resolveConstructorArgument model owner path)
  let initializers ← declaration.initializers.mapM (resolveInitializer model owner path)
  .ok ((Tag.parseAll declaration.tags).foldl applyConstructorTag
    { arguments, initializers, comment := declaration.comment })

/-- A constructor with an argument that initializes nothing is worth a remark, unless it is defined
all the same. -/
def remarkOn (path : String) (constructor : Constructor) : List Warning :=
  if !constructor.forceDefinition && constructor.arguments.any (·.destination.isNone) then
    [.idleArgument path]
  else []

def constructorPath (typePath : String) (position : Nat) : String :=
  typePath ++ ".ctor[" ++ toString position ++ "]"

def resolveConstructorsFrom (model : Model) (owner : RecordId) (typePath : String) (position : Nat) :
    List Declaration.Constructor → Except SchemaError (List Constructor × List Warning)
  | [] => .ok ([], [])
  | declaration :: rest => do
    let path := constructorPath typePath position
    let constructor ← resolveConstructor model owner path declaration
    let (others, remarks) ← resolveConstructorsFrom model owner typePath (position + 1) rest
    .ok (constructor :: others, remarkOn path constructor ++ remarks)

def resolveConstructors (state : Model × List Warning)
    (pending : Pending RecordId Declaration.Record) : Except SchemaError (Model × List Warning) := do
  let (model, warnings) := state
  let (constructors, remarks) ←
    resolveConstructorsFrom model pending.id pending.path 0 pending.declaration.constructors
  .ok (model.modifyRecord pending.id fun record => { record with constructors },
    warnings ++ remarks)

def attributeTexts (attr : Attribute) : List Expr :=
  attr.shape.filterMap Dimension.count? ++ attr.declaredOffset.toList

def constructorTexts (constructor : Constructor) : List Expr :=
  constructor.arguments.filterMap (·.expression) ++ constructor.initializers.map (·.expression)

/-- The expressions written in the declaration of a type, each with the path shown for it. -/
def recordTexts (model : Model) (id : RecordId) : List (String × Expr) :=
  let record := model.record id
  let path := model.recordPath id
  let at_ (name : String) (texts : List Expr) := texts.map (path ++ "." ++ name, ·)
  record.attributes.flatMap (fun attr =>
      at_ (model.attr attr).name (attributeTexts (model.attr attr))) ++
    record.methods.flatMap (fun method =>
      at_ (model.method method).name (model.method method).body.texts) ++
    record.constructors.flatMap (fun constructor => at_ "ctor" (constructorTexts constructor))

/-- Whether a type has or inherits an attribute or a method of a name. -/
def hasMember (model : Model) (id : RecordId) (name : String) : Bool :=
  (model.findAttribute? id name).isSome || (model.findMethod? id name).isSome

/-- Refuses an instance member that is not there. -/
def checkMembers (model : Model) : Except SchemaError Unit :=
  model.recordIds.forM fun id =>
    (recordTexts model id).forM fun (path, text) =>
      text.members.forM fun name =>
        if hasMember model id name then .ok () else .error (.unresolvedReference path name)

end Resolution

end RecordSchema
