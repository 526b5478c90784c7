import RecordSchema.Cpp.Comment
import RecordSchema.Generation

/-!
# Classes in C++

A generated class as a list of members, and its text. What a class declares, and under which name,
can be read off the list; only this module turns it into text.
-/

set_option autoImplicit false

namespace RecordSchema.Cpp

structure Parameter where
  type : String
  name : String
deriving DecidableEq

def Parameter.render (parameter : Parameter) : String :=
  parameter.type ++ " " ++ parameter.name

/-- The text between the parentheses of a function. -/
def renderParameters (parameters : List Parameter) : String :=
  ", ".intercalate (parameters.map Parameter.render)

/-- The head of a member function that does not change its object. -/
structure Signature where
  result : String
  name : String
  parameters : List Parameter
  /-- Whether the function is a template over the type of its config object. -/
  template : Bool
deriving DecidableEq

/-- The parameters of a function, with the config object of a template before the others. -/
def Signature.allParameters (signature : Signature) : List Parameter :=
  if signature.template then ⟨"const Config&", "cfg"⟩ :: signature.parameters
  else signature.parameters

/-- The text of a head, with the name qualified as given. -/
def Signature.render (signature : Signature) (qualifier : String) : String :=
  signature.result ++ " " ++ qualifier ++ signature.name ++ "(" ++
    renderParameters signature.allParameters ++ ") const"

structure EnumeratorText where
  name : String
  value : Option String
  comment : Option String

structure EnumText where
  comment : Option String
  name : String
  enumerators : List EnumeratorText

def EnumeratorText.render (indent : String) (enumerator : EnumeratorText) : String :=
  indent ++ "  " ++ enumerator.name ++ (enumerator.value.map (" = " ++ ·)).getD "" ++ "," ++
    trailingComment " " enumerator.comment ++ "\n"

def EnumText.render (indent : String) (enumeration : EnumText) : String :=
  docComment indent enumeration.comment ++ indent ++ "enum " ++ enumeration.name ++ " \x7b\n" ++
    String.join (enumeration.enumerators.map (EnumeratorText.render indent)) ++ indent ++ "\x7d;\n"

inductive ConstructorForm where
  | declared
  | inlined
  | defined
deriving DecidableEq

structure ConstructorText where
  comment : Option String
  parameters : List Parameter
  /-- Storage members with the texts of their first values. -/
  initializers : List (String × String)
  statements : List String
  form : ConstructorForm

inductive ClassMember where
  /-- A number that identifies the class. -/
  | identifier (name : String) (value : UInt32) (remark : String)
  | constant (comment : Option String) (name value : String)
  | enumeration (text : EnumText)
  | emptyConstructor (comment : Option String)
  | constructor (text : ConstructorText)
  | method (comment : Option String) (signature : Signature) (body : Option String) (inlined : Bool)
  | pad (number : Nat) (bytes : Int)
  | field (type name dimensions : String) (comment : Option String)

/-- A class: its members with their access, in order. -/
structure Class where
  comment : Option String
  name : String
  base : Option String
  members : List (Access × ClassMember)

/-- The initializers before the body of a constructor. -/
def renderInitializers (initializers : List (String × String)) : String :=
  if initializers.isEmpty then ""
  else
    "\n  : " ++ ", ".intercalate (initializers.map fun entry => entry.1 ++ "(" ++ entry.2 ++ ")")

/-- The statements of a body, each on a line of its own. -/
def renderStatements (statements : List String) : String :=
  String.join (statements.map ("\n  " ++ ·))

def ConstructorText.head (text : ConstructorText) (qualified : String) : String :=
  qualified ++ "(" ++ renderParameters text.parameters ++ ")"

def ConstructorText.declaration (className : String) (text : ConstructorText) : String :=
  match text.form with
  | .inlined =>
    docComment "  " text.comment ++ "  " ++ text.head className ++
      renderInitializers text.initializers ++ "\n  \x7b" ++ renderStatements text.statements ++
      "\n  \x7d\n"
  | _ => docComment "  " text.comment ++ "  " ++ text.head className ++ ";\n"

def ConstructorText.definition (className : String) (text : ConstructorText) : String :=
  match text.form with
  | .defined =>
    text.head (className ++ "::" ++ className) ++ renderInitializers text.initializers ++ "\n\x7b" ++
      renderStatements text.statements ++ "\n\x7d\n"
  | _ => ""

/-- Whether the body of a member function stands within the class. -/
def bodyInside (signature : Signature) (inlined : Bool) : Bool :=
  signature.template || inlined

/-- The lines of a member function within its class. -/
def methodDeclaration (comment : Option String) (signature : Signature) (body : Option String)
    (inlined : Bool) : String :=
  let ending :=
    match body with
    | some body => if bodyInside signature inlined then " \x7b " ++ body ++ " \x7d\n" else ";\n"
    | none => ";\n"
  docComment "  " comment ++ (if signature.template then "  template <typename Config>\n" else "") ++
    "  " ++ signature.render "" ++ ending

/-- The lines of a member function outside its class. -/
def methodDefinition (className : String) (signature : Signature) (body : Option String)
    (inlined : Bool) : String :=
  match body with
  | some body =>
    if bodyInside signature inlined then ""
    else signature.render (className ++ "::") ++ "\n\x7b\n  " ++ body ++ "\n\x7d\n"
  | none => ""

def ClassMember.declaration (className : String) : ClassMember → String
  | identifier name value remark =>
    s!"  enum \x7b {name} = {value} /**< {remark} */ \x7d;\n"
  | constant comment name value =>
    docComment "  " comment ++ s!"  enum \x7b {name} = {value} \x7d;\n"
  | enumeration text => text.render "  "
  | emptyConstructor comment => docComment "  " comment ++ s!"  {className}() \x7b\x7d\n"
  | constructor text => text.declaration className
  | method comment signature body inlined => methodDeclaration comment signature body inlined
  | pad number bytes => s!"  char\t__pad{number}[{bytes}];\n"
  | field type name dimensions comment =>
    s!"  {type}\t{name}{dimensions};" ++ trailingComment "\t" comment ++ "\n"

def ClassMember.definition (className : String) : ClassMember → String
  | constructor text => text.definition className
  | method _ signature body inlined => methodDefinition className signature body inlined
  | _ => ""

def Class.membersWith (text : Class) (access : Access) : List ClassMember :=
  text.members.filterMap fun member => if member.1 = access then some member.2 else none

def Class.memberLines (text : Class) (access : Access) : String :=
  String.join ((text.membersWith access).map (ClassMember.declaration text.name))

/-- A section of members under its keyword, left out if it has none. -/
def renderSection (access : Access) (members : String) : String :=
  if members.isEmpty then "" else access.keyword ++ ":\n" ++ members

def Class.render (text : Class) : Generated :=
  { declaration :=
      "\n" ++ docComment "" text.comment ++ "class " ++ text.name ++
        (text.base.map (" : public " ++ ·)).getD "" ++ " \x7b\npublic:\n" ++
        text.memberLines .publicly ++
        renderSection .protectedly (text.memberLines .protectedly) ++
        renderSection .privately (text.memberLines .privately) ++ "\x7d;\n"
    definition := String.join (text.members.map fun member => member.2.definition text.name) }

end RecordSchema.Cpp
