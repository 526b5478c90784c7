import RecordSchema.Model.Navigation
import RecordSchema.SchemaError

/-!
# Looking names up

A dotted name is looked up from a scope. Its first part is sought in the record type and its bases,
in the packages around, among the outermost packages and among the built-in types; each further part
in what the part before stands for.
-/

set_option autoImplicit false

namespace RecordSchema

/-- What a name stands for. -/
inductive Meaning where
  | member (member : Member)
  | builtin (type : Builtin)
deriving DecidableEq

namespace Model

def typeMember? (model : Model) (record : RecordId) (name : String) : Option Member :=
  (((model.record record).enumerations.lookup name).map Member.enumeration).or
    (((model.record record).constants.lookup name).map Member.constant)

/-- What a name stands for in a package or one around it; the innermost counts. -/
def packageMember? (model : Model) (package : PackageId) (name : String) : Option Member :=
  (model.enclosing package).findSome? fun outer => (model.package outer).members.lookup name

/-- What a name without dots stands for in a scope. -/
def scopeMember? (model : Model) (scope : Scope) (name : String) : Option Member :=
  match scope with
  | .package package => model.packageMember? package name
  | .record record =>
    ((model.lineage record).findSome? fun owner => model.typeMember? owner name).or
      (model.packageMember? (model.record record).package name)

def lookupFirst? (model : Model) (scope : Scope) (name : String) : Option Meaning :=
  match model.scopeMember? scope name with
  | some member => some (.member member)
  | none =>
    match model.roots.lookup name with
    | some root => some (.member (.package root))
    | none => (Builtin.ofName? name).map Meaning.builtin

/-- What a part of a name stands for after the parts before it. -/
def lookupIn? (model : Model) (name : String) : Meaning → Option Meaning
  | .member (.package package) => ((model.package package).members.lookup name).map Meaning.member
  | .member (.record record) => (model.typeMember? record name).map Meaning.member
  | _ => none

def lookup? (model : Model) (scope : Scope) (name : String) : Option Meaning :=
  match (Text.splitOnChar '.' (Text.trimBlanks name.toList)).map String.ofList with
  | [] => none
  | first :: rest =>
    rest.foldl (fun found part => found.bind (model.lookupIn? part)) (model.lookupFirst? scope first)

def lookupRecord? (model : Model) (owner : RecordId) (name : String) : Option RecordId :=
  match model.lookup? (.record owner) name with
  | some (.member (.record found)) => some found
  | _ => none

def lookupType? (model : Model) (owner : RecordId) (name : String) : Option TypeRef :=
  match model.lookup? (.record owner) name with
  | some (.member (.record found)) => some (.record found)
  | some (.member (.enumeration found)) => some (.enumeration found)
  | some (.builtin type) => some (.builtin type)
  | _ => none

def lookupType (model : Model) (owner : RecordId) (path name : String) :
    Except SchemaError TypeRef :=
  match model.lookupType? owner name with
  | some found => .ok found
  | none => .error (.unresolvedReference path name)

end Model

end RecordSchema
