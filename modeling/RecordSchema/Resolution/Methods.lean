import RecordSchema.Resolution.Attributes

/-!
# Declared methods

Resolution of the methods that a record type declares beside its accessors.
-/

set_option autoImplicit false

namespace RecordSchema.Resolution

/-- The type that a method returns; `void` and no name at all mean none. -/
def resultOf (model : Model) (owner : RecordId) (path : String) :
    Option String → Except SchemaError (Option TypeRef)
  | none => .ok none
  | some name => if name = "void" then .ok none else (model.lookupType owner path name).map some

def resolveArgument (model : Model) (owner : RecordId) (path : String)
    (declaration : Declaration.Argument) : Except SchemaError Argument := do
  let type ← declaration.typeName.mapM (model.lookupType owner path)
  .ok ⟨declaration.name, type⟩

/-- Reads the bodies of a method, one for each language. -/
def parseBodies (context : Expr.Context) (bodies : List (String × String)) :
    Except SchemaError (List (String × Expr)) :=
  bodies.mapM fun body => (Expr.parse context body.2).map (body.1, ·)

/-- The body of a method: expressions, code, or nothing here, but not both. -/
def bodyOf (context : Expr.Context) (declaration : Declaration.Method) :
    Except SchemaError MethodBody :=
  match declaration.expressions, declaration.code with
  | [], [] => .ok .external
  | expressions, [] => (parseBodies context expressions).map MethodBody.expressions
  | [], code => (parseBodies context code).map MethodBody.code
  | _, _ => .error (.invalidExpression context.path .twoBodies)

def applyMethodTag (method : Method) (tag : Tag) : Method :=
  match tag.name, tag.argument with
  | "inline", none => { method with inlined := true }
  | name, argument => { method with tags := method.tags.insert name argument }

def addDeclaredMethod (owner : RecordId) (typePath : String) (model : Model)
    (declaration : Declaration.Method) : Except SchemaError Model := do
  if Text.allBlank declaration.name then .error (.missingField typePath "name")
  let path := typePath ++ "." ++ declaration.name
  let result ← resultOf model owner path declaration.typeName
  let arguments ← declaration.arguments.mapM (resolveArgument model owner path)
  let body ← bodyOf (exprContext model owner path) declaration
  let access ← accessOf path declaration.access
  let method : Method :=
    { name := declaration.name, owner, result, rank := declaration.rank.toNat, arguments, body,
      access, comment := declaration.comment }
  let (extended, _) ← addMethod model path ((Tag.parseAll declaration.tags).foldl applyMethodTag method)
  .ok extended

def resolveMethods (model : Model) (pending : Pending RecordId Declaration.Record) :
    Except SchemaError Model :=
  pending.declaration.methods.foldlM (addDeclaredMethod pending.id pending.path) model

end RecordSchema.Resolution
