/-!
# Faults of schema documents

Each way in which declarations can fail to form a model, with the data that its message shows. The
message texts are written here and nowhere else.
-/

set_option autoImplicit false

namespace RecordSchema

/-- What can be wrong with an expression. -/
inductive ExpressionFault where
  | empty
  | withoutDot (placeholder source : String)
  /-- A placeholder whose dot no name follows. -/
  | withoutName (placeholder source : String)
  /-- The placeholder of the declaring type where there is none. -/
  | outsideType (source : String)
  | instanceInConstant
  | twoBodies
deriving DecidableEq

/-- What can be wrong with the shape of an attribute. -/
inductive ShapeFault where
  | unboundedInside (dimension : Nat)
  | emptyDimension (dimension : Nat)
  | nonPositive (dimension : Nat) (size : Int)
  | emptyBitfield
  /-- An attribute placed after one without a bound. -/
  | afterUnbounded (previous : String)
deriving DecidableEq

/-- Why a list of schema documents is refused. -/
inductive SchemaError where
  | missingField (path field : String)
  | unresolvedReference (path name : String)
  | unknownDestination (path destination : String)
  | duplicateIdentity (typeId version : UInt32) (first second : String)
  | duplicateSchema (path name : String) (version : UInt32)
  | duplicateName (path name : String)
  | bitfieldOverflow (path : String) (stop width : Nat)
  | bitfieldOverlap (path first second : String)
  | bitfieldStorage (path storage : String)
  | inheritanceCycle (path : String) (chain : List String)
  | unknownBase (path base : String)
  | missingConfig (path source : String)
  | layoutCycle (path : String) (cycle : List String)
  | invalidShape (path : String) (fault : ShapeFault)
  | invalidExpression (path : String) (fault : ExpressionFault)
deriving DecidableEq

/-- The rough kind of a refusal. -/
inductive ErrorClass where
  | structural
  | reference
  | identity
  | inheritance
deriving DecidableEq

def ErrorClass.name : ErrorClass → String
  | structural => "Structural"
  | reference => "Reference"
  | identity => "Identity"
  | inheritance => "Inheritance"

def ExpressionFault.reason : ExpressionFault → String
  | empty => "empty expression"
  | withoutDot placeholder source =>
    s!"placeholder {placeholder} must be followed by '.member' in '{source}'"
  | withoutName placeholder source => s!"placeholder {placeholder} without member name in '{source}'"
  | outsideType source => s!"\x7btype\x7d used outside of a type in '{source}'"
  | instanceInConstant => "constants cannot refer to \x7bself\x7d"
  | twoBodies => "method declares both expr and code bodies"

def ShapeFault.reason : ShapeFault → String
  | unboundedInside dimension =>
    s!"dimension {dimension} is unbounded; only the leading dimension may be"
  | emptyDimension dimension => s!"dimension {dimension} is empty"
  | nonPositive dimension size => s!"dimension {dimension} has size {size}"
  | emptyBitfield => "bitfield width is zero"
  | afterUnbounded previous => s!"attribute follows unbounded attribute '{previous}'"

namespace SchemaError

/-- The dotted path of the declaration at fault. -/
def path : SchemaError → String
  | missingField path _ => path
  | unresolvedReference path _ => path
  | unknownDestination path _ => path
  | duplicateIdentity _ _ _ second => second
  | duplicateSchema path _ _ => path
  | duplicateName path _ => path
  | bitfieldOverflow path _ _ => path
  | bitfieldOverlap path _ _ => path
  | bitfieldStorage path _ => path
  | inheritanceCycle path _ => path
  | unknownBase path _ => path
  | missingConfig path _ => path
  | layoutCycle path _ => path
  | invalidShape path _ => path
  | invalidExpression path _ => path

def errorClass : SchemaError → ErrorClass
  | unresolvedReference .. | unknownDestination .. | missingConfig .. => .reference
  | duplicateIdentity .. => .identity
  | inheritanceCycle .. | unknownBase .. => .inheritance
  | _ => .structural

/-- The message shown for a refusal. -/
def message : SchemaError → String
  | missingField path field => s!"{path}: missing required field '{field}'"
  | unresolvedReference path name => s!"{path}: unresolved reference '{name}'"
  | unknownDestination path destination =>
    s!"{path}: constructor destination '{destination}' is not an attribute or bitfield of the type"
  | duplicateIdentity typeId version first second =>
    s!"type id {typeId} version {version} is declared by both {first} and {second}"
  | duplicateSchema path name version =>
    s!"{path}: schema '{name}' version {version} declared more than once"
  | duplicateName path name => s!"{path}: name '{name}' already declared in this scope"
  | bitfieldOverflow path stop width =>
    s!"{path}: bitfield ends at bit {stop} but storage holds {width} bits"
  | bitfieldOverlap path first second => s!"{path}: bitfields '{first}' and '{second}' overlap"
  | bitfieldStorage path storage =>
    s!"{path}: bitfield storage must be a scalar integer, found '{storage}'"
  | inheritanceCycle path chain =>
    s!"{path}: inheritance cycle " ++ " -> ".intercalate chain
  | unknownBase path base => s!"{path}: base '{base}' is not a declared type"
  | missingConfig path source =>
    s!"{path}: expression '{source}' needs a config object but the type declares no config types"
  | layoutCycle path cycle => s!"{path}: layout dependency cycle between " ++ ", ".intercalate cycle
  | invalidShape path fault => s!"{path}: invalid shape: " ++ fault.reason
  | invalidExpression path fault => s!"{path}: invalid expression: " ++ fault.reason

end SchemaError

/-- Why no model comes of a list of documents: they are refused, or a number leaves the range of a
signed 64-bit word on the way. -/
inductive Fault where
  | schema (error : SchemaError)
  | overflow
deriving DecidableEq

/-- An outcome of word arithmetic as an outcome of building. -/
def orOverflow {α : Type} : Option α → Except Fault α
  | some value => .ok value
  | none => .error .overflow

/-- A refusal as an outcome of building. -/
def refuse {α : Type} (error : SchemaError) : Except Fault α :=
  .error (.schema error)

end RecordSchema
