import RecordSchema.Backend.Dispatcher
import RecordSchema.Backend.StorageClasses
import RecordSchema.Backend.Wrappers
import RecordSchema.Traversal

/-!
# Generators

The backends by name, with the options they share, and what comes of running one of them or several
side by side.
-/

set_option autoImplicit false

namespace RecordSchema

/-- The backends that there are. -/
inductive Generator where
  | accessors
  | wrappers
  | storageClasses
  | numberDispatcher
  | nameDispatcher
deriving DecidableEq

/-- What generated code depends on besides the model. -/
structure GenerationOptions where
  /-- The header that definitions include; every backend has one of its own. -/
  header : Option String := none
  /-- The namespace around all that is generated. -/
  outerNamespace : Option String := none
  /-- The namespace around the interfaces of the record types. -/
  interfaceNamespace : Option String := none
  /-- The namespace around the accessor classes. -/
  nativeNamespace : Option String := none
  /-- Type numbers for which a dispatcher does nothing. -/
  ignored : List UInt32 := []
  /-- How many names may share a hash value without a warning. -/
  threshold : Option Nat := none

/-- What comes of running a backend. -/
structure GenerationRun where
  result : Except GenerationFault Generated
  warnings : List Warning
  selected : Option (NameHash × Nat)

namespace GenerationOptions

def forWrappers (options : GenerationOptions) : Wrappers.Options :=
  let plain : Wrappers.Options := {}
  { header := options.header.getD plain.header
    nativeNamespace := options.nativeNamespace }

def forStorageClasses (options : GenerationOptions) : StorageClasses.Options :=
  let plain : StorageClasses.Options := {}
  { header := options.header.getD plain.header
    interfaceNamespace := options.interfaceNamespace.getD plain.interfaceNamespace }

def forDispatcher (options : GenerationOptions) : Dispatcher.Options :=
  let plain : Dispatcher.Options := {}
  { header := options.header.getD plain.header
    interfaceNamespace := options.interfaceNamespace.getD plain.interfaceNamespace
    nativeNamespace := options.nativeNamespace
    ignored := options.ignored
    threshold := options.threshold.getD plain.threshold }

end GenerationOptions

namespace Generator

/-- All backends. -/
def all : List Generator :=
  [accessors, wrappers, storageClasses, numberDispatcher, nameDispatcher]

def name : Generator → String
  | accessors => "native"
  | wrappers => "binding"
  | storageClasses => "schema"
  | numberDispatcher => "dispatch"
  | nameDispatcher => "dispatch-hash"

def ofName? (text : String) : Option Generator :=
  all.find? fun generator => generator.name == text

/-- Runs a backend from a fresh state, and says what is to be told of the state it ends in. -/
def runWith {σ : Type} (model : Model) (outer : Option String) (start : σ)
    (remarks : σ → List Warning × Option (NameHash × Nat)) (backend : Backend σ) : GenerationRun :=
  let (result, state) := (Traversal.run model backend outer).run.run start
  let (warnings, selected) := remarks state
  ⟨result, warnings, selected⟩

/-- Runs a backend that has nothing to tell besides the code. -/
def runQuietly {σ : Type} (model : Model) (outer : Option String) (start : σ)
    (backend : Backend σ) : GenerationRun :=
  runWith model outer start (fun _ => ([], none)) backend

def runDispatcher (model : Model) (outer : Option String) (backend : Backend Dispatcher.State) :
    GenerationRun :=
  runWith model outer {} (fun state => (state.warnings, state.selected)) backend

/-- Runs a backend over a model. -/
def run (model : Model) (options : GenerationOptions) (generator : Generator) : GenerationRun :=
  let outer := options.outerNamespace
  match generator with
  | accessors =>
    runQuietly model outer () (Accessors.backend (options.header.getD Accessors.defaultHeader))
  | wrappers => runQuietly model outer [] (Wrappers.backend options.forWrappers)
  | storageClasses =>
    runQuietly model outer () (StorageClasses.backend options.forStorageClasses)
  | numberDispatcher => runDispatcher model outer (Dispatcher.byNumber options.forDispatcher)
  | nameDispatcher => runDispatcher model outer (Dispatcher.byName options.forDispatcher)

/-- What a backend that runs beside others contributes: its name and its code. One whose arithmetic
leaves its range is known no more. -/
def contribution (model : Model) (options : GenerationOptions) (generator : Generator) :
    String × Except GenerationError Generated :=
  match (generator.run model options).result with
  | .ok text => (generator.name, .ok text)
  | .error (.refused error) => (generator.name, .error error)
  | .error .overflow => ("unknown", .error (.backend "unknown" "backend thread panicked"))

/-- Runs several backends side by side; one that fails does not stop the others. -/
def runAll (model : Model) (options : GenerationOptions) (generators : List Generator) :
    List (String × Except GenerationError Generated) :=
  generators.map (contribution model options)

end Generator

end RecordSchema
