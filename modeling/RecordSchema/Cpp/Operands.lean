import RecordSchema.Cpp.Name
import RecordSchema.Expr.Rendering

/-!
# Operands in C++

How the operands of an expression are spelled inside the class of a record type: members of the
instance through `this`, members of the config object through the argument `cfg`.
-/

set_option autoImplicit false

namespace RecordSchema.Cpp

/-- What stands before a member of the instance. -/
def thisObject : String := "this->"

/-- Name of the argument that carries the config object. -/
def configArgument : String := "cfg"

/-- The value of a whole attribute: its storage member if there is one, otherwise a call of its
accessor. -/
def attributeValue (model : Model) (attr : Attribute) : String :=
  if attr.stored then thisObject ++ attr.fieldName
  else
    thisObject ++ model.accessorName attr ++ "(" ++
      (if attr.configDependent then configArgument else "") ++ ")"

/-- Whether a method that a type has or inherits under a name needs the config object. -/
def callNeedsConfig (model : Model) (owner : RecordId) (name : String) : Bool :=
  match model.findMethod? owner name with
  | some method => (model.method method).configDependent
  | none => false

def spelling (model : Model) (owner : RecordId) : Operand.Spelling where
  member name :=
    match model.findAttribute? owner name with
    | some attr => attributeValue model (model.attr attr)
    | none => thisObject ++ name
  call name :=
    (thisObject ++ name, if callNeedsConfig model owner name then some configArgument else none)
  static record name := typeName model record ++ "::" ++ name
  config _ name := configArgument ++ "." ++ name

end RecordSchema.Cpp
