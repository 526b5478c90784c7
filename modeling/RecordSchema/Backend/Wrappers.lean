import RecordSchema.Backend.Accessors

/-!
# Scripting wrappers

The backend for classes that forward to the accessor classes and are registered, package by package,
with a scripting runtime.
-/

set_option autoImplicit false

namespace RecordSchema.Wrappers

open Cpp

/-- What the wrappers depend on besides the model. -/
structure Options where
  /-- The header that the definitions include. -/
  header : String := "wrappers.h"
  /-- The namespace around the accessor classes. -/
  nativeNamespace : Option String := none

/-- A method of a wrapper, which calls the method of the same name of the wrapped object. -/
structure Forward where
  result : String
  name : String
  parameters : List Parameter
  /-- What the call passes on. -/
  arguments : List String
  /-- Whether the call gives a value back. -/
  returning : Bool
deriving DecidableEq

/-- The line of a method. -/
def Forward.render (forward : Forward) : String :=
  "  " ++ forward.result ++ " " ++ forward.name ++ "(" ++ renderParameters forward.parameters ++
    ") const \x7b " ++ (if forward.returning then "return " else "") ++ "o->" ++ forward.name ++ "(" ++
    ", ".intercalate forward.arguments ++ "); \x7d\n"

/-- A wrapper class and the class that looks objects up by type. -/
structure Wrapper where
  className : String
  /-- The accessor class, as it is known here. -/
  native : String
  forwards : List Forward
  path : String
  version : Option UInt32
  configType : Bool

def Wrapper.name (wrapper : Wrapper) : String :=
  wrapper.className ++ "_Wrapper"

def Wrapper.classLines (wrapper : Wrapper) : String :=
  "class " ++ wrapper.name ++ " \x7b\n" ++
    "  boost::shared_ptr<" ++ wrapper.native ++ "> o;\n" ++
    "public:\n" ++
    "  " ++ wrapper.name ++ "(boost::shared_ptr<" ++ wrapper.native ++ "> obj) : o(obj) \x7b\x7d\n" ++
    String.join (wrapper.forwards.map Forward.render) ++ "\x7d;\n\n"

/-- The number that a lookup class gives as the version of its type. -/
def Wrapper.versionText (wrapper : Wrapper) : String :=
  match wrapper.version with
  | some version => toString version
  | none => "-1"

/-- The lines of the lookup class. -/
def Wrapper.getterLines (wrapper : Wrapper) : String :=
  "class " ++ wrapper.className ++ "_Getter : public psddl_python::" ++
    (if wrapper.configType then "EnvGetter" else "EventGetter") ++ " \x7b\n" ++
    "public:\n" ++
    "  const char* getTypeName() \x7b return \"" ++ wrapper.path ++ "\"; \x7d\n" ++
    "  int getVersion() \x7b return " ++ wrapper.versionText ++ "; \x7d\n" ++ "\x7d;\n\n"

structure Registration where
  wrapper : String
  className : String
  methods : List String
deriving DecidableEq

def Wrapper.registration (wrapper : Wrapper) : Registration :=
  ⟨wrapper.name, wrapper.className, wrapper.forwards.map Forward.name⟩

def Registration.render (registration : Registration) : String :=
  "  boost::python::class_<" ++ registration.wrapper ++ ">(\"" ++ registration.className ++
    "\", boost::python::no_init)\n" ++
    String.join (registration.methods.map fun method =>
      "    .def(\"" ++ method ++ "\", &" ++ registration.wrapper ++ "::" ++ method ++ ")\n") ++
    "  ;\n"

/-- Number of the indices that a method takes before its own arguments. -/
def indexRank (model : Model) (method : Method) : Nat :=
  match method.body with
  | .attr id => (model.attr id).rank
  | _ => 0

def isAccessor (method : Method) : Bool :=
  match method.body with
  | .attr _ => true
  | _ => false

/-- The type that a method of a wrapper returns. -/
def resultText (model : Model) (method : Method) : String :=
  match method.result with
  | none => "void"
  | some type =>
    if 0 < method.rank && !isAccessor method then "const " ++ typeRef model type ++ "*"
    else returnType model type

/-- The parameter for an argument of a method; one without a type is an index. -/
def parameterOf (model : Model) (argument : Argument) : Parameter where
  type :=
    match argument.type with
    | some type => typeRef model type
    | none => "uint32_t"
  name := argument.name

def forward (model : Model) (method : Method) : Forward :=
  let indices := indexNames (indexRank model method)
  { result := resultText model method
    name := method.name
    parameters :=
      indices.map (Parameter.mk "uint32_t") ++ method.arguments.map (parameterOf model)
    arguments := indices ++ method.arguments.map Argument.name
    returning := method.result.isSome }

def wrapperOf (options : Options) (model : Model) (id : RecordId) : Wrapper :=
  let record := model.record id
  { className := className model id
    native := inNamespace options.nativeNamespace (typeName model id)
    forwards := (Accessors.forwardableMethods model id).map (forward model)
    path := model.recordPath id
    version := record.identity.map Identity.version
    configType := record.configType }

/-- The registrations of the packages that are open, the innermost first. -/
abbrev Registry := List (List Registration)

/-- Adds a registration to the innermost open package. -/
def Registry.add (registration : Registration) : Registry → Registry
  | [] => []
  | innermost :: outer => (innermost ++ [registration]) :: outer

/-- The head of the function that registers the classes of a package. -/
def creationHead : String := "void createWrappers(PyObject* module)"

/-- The function that registers the classes of a package, if it has any. -/
def creation (registrations : List Registration) : Generated :=
  if registrations.isEmpty then {}
  else
    { declaration := creationHead ++ ";\n"
      definition :=
        creationHead ++ "\n\x7b\n" ++
          "  boost::python::scope mod = boost::python::object(boost::python::handle<>(" ++
          "boost::python::borrowed(module)));\n" ++
          String.join (registrations.map Registration.render) ++ "\x7d\n" }

/-- What stands before all wrappers. -/
def prologue (options : Options) (model : Model) : Generated where
  declaration :=
    "#pragma once\n\n#include <boost/python.hpp>\n#include <boost/shared_ptr.hpp>\n" ++
      includeLines ("psddl_python/Getter.h" :: model.useHeaders) ++ "\n"
  definition := includeLines [options.header] ++ "\n"

def leavePackage : Emission Registry Generated := do
  match ← get with
  | [] => throw (.refused (.backend "binding" "package registration stack underflow"))
  | innermost :: outer =>
    set outer
    pure (creation innermost)

/-- The backend for scripting wrappers. A run forgets what an earlier one has registered. -/
def backend (options : Options) : Backend Registry where
  name := "binding"
  prologue model := do
    set ([] : Registry)
    pure (prologue options model)
  enterPackage _ _ := do
    modify fun (registry : Registry) => [] :: registry
    pure {}
  visitRecord model id := do
    let wrapper := wrapperOf options model id
    modify (Registry.add wrapper.registration)
    pure (Generated.declare (wrapper.classLines ++ wrapper.getterLines))
  leavePackage _ _ := leavePackage

end RecordSchema.Wrappers
