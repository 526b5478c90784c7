import RecordSchema.Cpp.Name
import RecordSchema.Generation

/-!
# The traversal of a model

A backend meets the declarations of a model package by package, in a fixed order. What its hooks give
is written in that order, within the namespaces of the packages, up to the first fault.
-/

set_option autoImplicit false

namespace RecordSchema

namespace Traversal

/-- What stands where a namespace is opened, in both texts. -/
def opening (name : String) : Generated :=
  let line := "namespace " ++ name ++ " \x7b\n"
  ⟨line, line⟩

/-- What stands where a namespace is closed, in both texts. -/
def closing (name : String) : Generated :=
  let line := "\x7d // namespace " ++ name ++ "\n"
  ⟨line, line⟩

/-- The generated code so far and the namespaces that are open, the innermost first. -/
structure Output where
  generated : Generated := {}
  scopes : List String := []

namespace Output

variable {σ : Type}

/-- Adds the outcome of a hook. -/
def add (output : Output) (hook : Emission σ Generated) : Emission σ Output := do
  let text ← hook
  pure { output with generated := output.generated ++ text }

def openNamespace (output : Output) (name : String) : Output :=
  ⟨output.generated ++ opening name, name :: output.scopes⟩

def closeNamespace (output : Output) : Emission σ Output :=
  match output.scopes with
  | name :: scopes => pure ⟨output.generated ++ closing name, scopes⟩
  | [] => throw (.refused (.unbalancedScope 0))

/-- Does something within a namespace, or as it is. -/
def within (output : Output) (name : Option String) (inner : Output → Emission σ Output) :
    Emission σ Output :=
  match name with
  | some name => do
    let output ← inner (output.openNamespace name)
    output.closeNamespace
  | none => inner output

/-- Refuses to go on unless so many namespaces are open. -/
def expectDepth (output : Output) (depth : Nat) : Emission σ Output :=
  if output.scopes.length = depth then pure output
  else throw (.refused (.unbalancedScope output.scopes.length))

end Output

section Walk

variable {σ : Type} (model : Model) (backend : Backend σ)

/-- Refers to the record types of a package and of those in it. -/
def referToPackage : Nat → Output → PackageId → Emission σ Output
  | 0, output, _ => pure output
  | fuel + 1, output, id =>
    (model.package id).members.foldlM (fun output member =>
      match member.2 with
      | .package nested => referToPackage fuel output nested
      | .record record => output.add (backend.referenceRecord model record)
      | _ => pure output) output

def visitConstant (output : Output) : Member → Emission σ Output
  | .constant id => output.add (backend.visitConstant model id)
  | _ => pure output

def visitEnumeration (output : Output) : Member → Emission σ Output
  | .enumeration id => output.add (backend.visitEnumeration model id)
  | _ => pure output

def visitRecord (output : Output) (id : RecordId) : Emission σ Output :=
  if model.isEmitted id then output.add (backend.visitRecord model id)
  else output.add (backend.referenceRecord model id)

/-- Goes on to a record type, or down into a package. -/
def visitOther (descend : Output → PackageId → Emission σ Output) (output : Output) :
    Member → Emission σ Output
  | .package nested => descend output nested
  | .record id => visitRecord model backend output id
  | _ => pure output

/-- Goes through the members of a package: constants, enumerations, then nested packages and record
types. -/
def visitPackage (descend : Output → PackageId → Emission σ Output) (id : PackageId)
    (output : Output) : Emission σ Output := do
  let members := (model.package id).members.map (·.2)
  let output ← output.add (backend.enterPackage model id)
  let output ← members.foldlM (visitConstant model backend) output
  let output ← members.foldlM (visitEnumeration model backend) output
  let output ← members.foldlM (visitOther model backend descend) output
  output.add (backend.leavePackage model id)

/-- Goes through a package, within its namespace; one that is included or external is only referred
to. As many namespaces have to be open afterwards as before. -/
def walkPackage : Nat → Output → PackageId → Emission σ Output
  | 0, output, _ => pure output
  | fuel + 1, output, id =>
    let package := model.package id
    if package.included || package.external then
      referToPackage model backend (fuel + 1) output id
    else do
      let name := if backend.brackets then some (Cpp.packageNamespace model id) else none
      let after ← output.within name (visitPackage model backend (walkPackage fuel) id)
      after.expectDepth output.scopes.length

/-- Goes through the packages of a model. No package is nested more deeply than there are packages. -/
def walkModel (output : Output) : Emission σ Output := do
  let output ← model.roots.foldlM (fun output root =>
    walkPackage model backend model.packages.size output root.2) output
  output.add (backend.finish model)

/-- Runs a backend over a model. The namespaces are closed before the epilogue. -/
def run (outer : Option String) : Emission σ Generated := do
  let output ← ({} : Output).add (backend.prologue model)
  let output ← output.within outer (walkModel model backend)
  let output ← output.expectDepth 0
  let output ← output.add (backend.epilogue model)
  pure output.generated

end Walk

end Traversal

end RecordSchema
