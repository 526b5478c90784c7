import RecordSchema.Model
import RecordSchema.Warning

/-!
# Generated code

What a backend makes of a model, piece by piece, and what can go wrong on the way.
-/

set_option autoImplicit false

namespace RecordSchema

/-- The two texts of generated code. -/
structure Generated where
  declaration : String := ""
  definition : String := ""
deriving DecidableEq, Inhabited

instance : Append Generated where
  append first second :=
    ⟨first.declaration ++ second.declaration, first.definition ++ second.definition⟩

def Generated.declare (text : String) : Generated := ⟨text, ""⟩

def includeLines (headers : List String) : String :=
  String.join (headers.map fun header => "#include \"" ++ header ++ "\"\n")

/-- Why code cannot be generated. -/
inductive GenerationError where
  /-- A backend refuses the model. -/
  | backend (name reason : String)
  /-- A namespace is closed that was not opened, or left open. -/
  | unbalancedScope (depth : Nat)
deriving DecidableEq

/-- The words for a refusal. -/
def GenerationError.message : GenerationError → String
  | backend name reason => s!"backend '{name}': {reason}"
  | unbalancedScope depth => s!"unbalanced namespace scopes: {depth} left open"

/-- Why generation ends early: a refusal, or a number leaves the range of a signed 64-bit word. -/
inductive GenerationFault where
  | refused (error : GenerationError)
  | overflow
deriving DecidableEq

/-- What one step of a backend with a state gives: the text it adds, or a fault. The state is kept in
either case. -/
abbrev Emission (σ α : Type) := ExceptT GenerationFault (StateM σ) α

/-- A backend: what it adds to the generated code at each step of a traversal. -/
structure Backend (σ : Type) where
  name : String
  /-- Whether packages are wrapped in namespaces. -/
  brackets : Bool := true
  prologue : Model → Emission σ Generated := fun _ => pure {}
  enterPackage : Model → PackageId → Emission σ Generated := fun _ _ => pure {}
  visitConstant : Model → ConstantId → Emission σ Generated := fun _ _ => pure {}
  visitEnumeration : Model → EnumId → Emission σ Generated := fun _ _ => pure {}
  visitRecord : Model → RecordId → Emission σ Generated := fun _ _ => pure {}
  /-- A record type that is not emitted but may be referred to. -/
  referenceRecord : Model → RecordId → Emission σ Generated := fun _ _ => pure {}
  leavePackage : Model → PackageId → Emission σ Generated := fun _ _ => pure {}
  /-- After the last package, within the outermost namespace. -/
  finish : Model → Emission σ Generated := fun _ => pure {}
  /-- After the outermost namespace. -/
  epilogue : Model → Emission σ Generated := fun _ => pure {}

/-- Word arithmetic in a step of a backend. -/
def Emission.orOverflow {σ α : Type} : Option α → Emission σ α
  | some value => pure value
  | none => throw .overflow

end RecordSchema
