import RecordSchema.Declaration
import RecordSchema.Model.Navigation
import RecordSchema.SchemaError

/-!
# Names of declarations

The first pass over the documents. It gives every package, record type, enumeration and constant its
identifier and its name in a scope, and keeps the declarations that are still to be resolved.
-/

set_option autoImplicit false

namespace RecordSchema

/-- A declaration that has its identifier and its path but is not resolved yet. -/
structure Pending (identifier declaration : Type) where
  id : identifier
  declaration : declaration
  path : String

/-- A model whose names are known, with the declarations that give the rest. -/
structure Draft where
  model : Model := {}
  records : Array (Pending RecordId Declaration.Record) := #[]
  constants : Array (Pending ConstantId Declaration.Constant) := #[]
  enumerations : Array (Pending EnumId Declaration.Enumeration) := #[]

namespace Draft

/-- The parts of a dotted package name, blanks at their ends and empty parts left out. -/
def segments (name : String) : List String :=
  ((Text.splitOnChar '.' name.toList).map Text.trimBlanks).filterMap fun part =>
    if part.isEmpty then none else some (String.ofList part)

def insertMember (model : Model) (package : PackageId) (name : String) (member : Member) :
    Except SchemaError Model :=
  match (model.package package).members.lookup name with
  | some _ => .error (.duplicateName (model.packagePath package) name)
  | none =>
    .ok (model.modifyPackage package fun current =>
      { current with members := current.members ++ [(name, member)] })

/-- Refuses a name that a constant or enumeration of a record type has. -/
def checkFree (model : Model) (record : RecordId) (name : String) : Except SchemaError Unit :=
  let current := model.record record
  if (current.constants.lookup name).isSome || (current.enumerations.lookup name).isSome then
    .error (.duplicateName (model.recordPath record) name)
  else .ok ()

/-- The package of a name among the outermost ones or in a parent, if there is one. A name that
stands for something else is refused. -/
def packageNamed (model : Model) (parent : Option PackageId) (name : String) :
    Except SchemaError (Option PackageId) :=
  match parent with
  | none => .ok (model.roots.lookup name)
  | some outer =>
    match (model.package outer).members.lookup name with
    | none => .ok none
    | some (.package found) => .ok (some found)
    | some _ => .error (.duplicateName (model.packagePath outer) name)

/-- Adds a package without members. -/
def addPackage (model : Model) (parent : Option PackageId) (name : String) (included : Bool) :
    Model × PackageId :=
  let id : PackageId := ⟨model.packages.size⟩
  let extended := { model with packages := model.packages.push { name, parent, included } }
  match parent with
  | none => ({ extended with roots := extended.roots ++ [(name, id)] }, id)
  | some outer =>
    (extended.modifyPackage outer fun current =>
      { current with members := current.members ++ [(name, .package id)] }, id)

/-- Opens a package, which may exist already. A package that a primary unit opens is not included. -/
def openPackage (model : Model) (parent : Option PackageId) (name : String) (included : Bool) :
    Except SchemaError (Model × PackageId) := do
  match ← packageNamed model parent name with
  | some found =>
    if included then .ok (model, found)
    else .ok (model.modifyPackage found fun current => { current with included := false }, found)
  | none => .ok (addPackage model parent name included)

/-- Opens packages one inside the other; the result is the innermost, or none for no names. -/
def openSegments (included : Bool) (model : Model) (parent : Option PackageId) :
    List String → Except SchemaError (Model × Option PackageId)
  | [] => .ok (model, parent)
  | name :: rest => do
    let (opened, id) ← openPackage model parent name included
    openSegments included opened (some id) rest

def applyPackageTag (package : Package) (tag : Tag) : Package :=
  match tag.name, tag.argument with
  | "external", _ => { package with external := true }
  | "cpp_name", some name => { package with cppName := some name }
  | name, argument => { package with tags := package.tags.insert name argument }

def annotatePackage (comment : Option String) (tags : List String) (package : Package) : Package :=
  (Tag.parseAll tags).foldl applyPackageTag { package with comment := comment.or package.comment }

def addConstant (scope : Scope) (ownerPath : String) (draft : Draft)
    (declaration : Declaration.Constant) : Except SchemaError Draft := do
  if Text.allBlank declaration.name then .error (.missingField ownerPath "name")
  let id : ConstantId := ⟨draft.model.constants.size⟩
  let named ←
    match scope with
    | .package package => insertMember draft.model package declaration.name (.constant id)
    | .record record => do
      checkFree draft.model record declaration.name
      .ok (draft.model.modifyRecord record fun current =>
        { current with constants := current.constants ++ [(declaration.name, id)] })
  let constant : Constant := { name := declaration.name, scope, comment := declaration.comment }
  .ok { draft with
    model := { named with constants := named.constants.push constant }
    constants := draft.constants.push ⟨id, declaration, ownerPath ++ "." ++ declaration.name⟩ }

def addEnumeration (scope : Scope) (ownerPath : String) (draft : Draft)
    (declaration : Declaration.Enumeration) : Except SchemaError Draft := do
  let name := declaration.name.getD ""
  if Text.allBlank name then .error (.missingField ownerPath "name")
  let id : EnumId := ⟨draft.model.enumerations.size⟩
  let named ←
    match scope with
    | .package package => insertMember draft.model package name (.enumeration id)
    | .record record => do
      checkFree draft.model record name
      .ok (draft.model.modifyRecord record fun current =>
        { current with enumerations := current.enumerations ++ [(name, id)] })
  let enumeration : Enumeration := { name, scope, comment := declaration.comment }
  .ok { draft with
    model := { named with enumerations := named.enumerations.push enumeration }
    enumerations := draft.enumerations.push ⟨id, declaration, ownerPath ++ "." ++ name⟩ }

/-- Names a record type in a package; what is in it comes later. -/
def nameRecord (package : PackageId) (included : Bool) (draft : Draft)
    (declaration : Declaration.Record) : Except SchemaError Draft := do
  if Text.allBlank declaration.name then
    .error (.missingField (draft.model.packagePath package) "name")
  let id : RecordId := ⟨draft.model.records.size⟩
  let named ← insertMember draft.model package declaration.name (.record id)
  let record : Record :=
    { name := declaration.name, package, pack := declaration.pack, comment := declaration.comment,
      included }
  .ok { draft with model := { named with records := named.records.push record } }

/-- Names a record type in a package, and its constants and enumerations in it. -/
def addRecord (package : PackageId) (included : Bool) (draft : Draft)
    (declaration : Declaration.Record) : Except SchemaError Draft := do
  let id : RecordId := ⟨draft.model.records.size⟩
  let path := draft.model.packagePath package ++ "." ++ declaration.name
  let extended ← nameRecord package included draft declaration
  let withConstants ← declaration.constants.foldlM (addConstant (.record id) path) extended
  let complete ← declaration.enumerations.foldlM (addEnumeration (.record id) path) withConstants
  .ok { complete with records := complete.records.push ⟨id, declaration, path⟩ }

mutual

/-- Opens the packages of a declaration and names what it declares: constants, enumerations, nested
packages, record types. -/
def addPackageDeclaration (included : Bool) (parent : Option PackageId) (draft : Draft) :
    Declaration.Package → Except SchemaError Draft
  | .mk name comment tags constants enumerations packages records => do
    match ← openSegments included draft.model parent (segments name) with
    | (_, none) => .error (.missingField "" "name")
    | (opened, some id) =>
      if (segments name).isEmpty then .error (.missingField (opened.packagePath id) "name")
      let path := opened.packagePath id
      let annotated := { draft with model := opened.modifyPackage id (annotatePackage comment tags) }
      let withConstants ← constants.foldlM (addConstant (.package id) path) annotated
      let withEnumerations ← enumerations.foldlM (addEnumeration (.package id) path) withConstants
      let withPackages ← addPackageDeclarations included (some id) withEnumerations packages
      records.foldlM (addRecord id included) withPackages

/-- Opens the packages of several declarations in order. -/
def addPackageDeclarations (included : Bool) (parent : Option PackageId) (draft : Draft) :
    List Declaration.Package → Except SchemaError Draft
  | [] => .ok draft
  | declaration :: rest => do
    let extended ← addPackageDeclaration included parent draft declaration
    addPackageDeclarations included parent extended rest

end

/-- Adds a header to those that generated code includes, once. -/
def addHeader (model : Model) (header : String) : Model :=
  if header ∈ model.useHeaders then model
  else { model with useHeaders := model.useHeaders ++ [header] }

/-- Names what a unit declares. The headers of a primary unit's imports are included by generated
code. -/
def addUnit (draft : Draft) (source : SourceUnit) : Except SchemaError Draft := do
  let extended ← addPackageDeclarations source.included none draft source.document.packages
  if source.included then .ok extended
  else
    let headers := source.document.imports.flatMap (·.headers)
    .ok { extended with model := headers.foldl addHeader extended.model }

def ofUnits (units : List SourceUnit) : Except SchemaError Draft :=
  units.foldlM addUnit {}

end Draft

end RecordSchema
