import RecordSchema.Model.Navigation

/-!
# Names in C++

The qualified names under which declarations of a model are known in generated code.
-/

set_option autoImplicit false

namespace RecordSchema.Cpp

def packageNamespace (model : Model) (id : PackageId) : String :=
  (model.package id).cppName.getD (model.package id).name

def namespaceOf (model : Model) (id : PackageId) : String :=
  "::".intercalate ((model.packageChain id).map (packageNamespace model))

def className (model : Model) (id : RecordId) : String :=
  (model.record id).cppName.getD (model.record id).name

def typeName (model : Model) (id : RecordId) : String :=
  namespaceOf model (model.record id).package ++ "::" ++ className model id

def scopeName (model : Model) : Scope → String
  | .package id => namespaceOf model id
  | .record id => typeName model id

def enumName (model : Model) (id : EnumId) : String :=
  scopeName model (model.enumeration id).scope ++ "::" ++ (model.enumeration id).name

def typeRef (model : Model) : TypeRef → String
  | .builtin type => type.name
  | .enumeration id => enumName model id
  | .record id => typeName model id

def storageType (model : Model) : TypeRef → String
  | .enumeration id => (model.enumeration id).base.name
  | type => typeRef model type

def inNamespace (outer : Option String) (name : String) : String :=
  match outer with
  | some outer => if outer.isEmpty then name else outer ++ "::" ++ name
  | none => name

/-- How a value of a type is returned: records by reference, all else by value. -/
def returnType (model : Model) (type : TypeRef) : String :=
  match type with
  | .record _ => "const " ++ typeRef model type ++ "&"
  | _ => typeRef model type

def indexNames (rank : Nat) : List String :=
  (List.range rank).map fun position => "i" ++ toString position

def indexParameters (rank : Nat) : List String :=
  (indexNames rank).map ("uint32_t " ++ ·)

end RecordSchema.Cpp
