import RecordSchema.CommandLine.Invocation
import RecordSchema.Decoding.Yaml
import RecordSchema.Disk.Directories
import RecordSchema.Loader
import RecordSchema.Report.Encoding
import RecordSchema.Resolution

/-!
# Running a command

A command reads documents, builds their model and writes what it makes of the model. What it tells on
the way is kept in order; it ends with a code, and with a report of the error if there was one.
-/

set_option autoImplicit false

namespace RecordSchema.CommandLine

/-- Why a command that runs comes to no good end. -/
inductive Failure where
  | error (message : String) (causes : List String)
  /-- A number leaves the range of a signed 64-bit word. -/
  | overflow
deriving DecidableEq

/-- What a command does; what it tells is kept also when it fails. -/
abbrev Execution (m : Type → Type) := ExceptT Failure (StateT String m)

/-- How a command ends. -/
structure Outcome where
  code : UInt32
  /-- What it tells. -/
  output : String := ""
  errors : String := ""
deriving DecidableEq

/-! ### Error reports -/

/-- A message whose lines after the first stand under its beginning. -/
def indentLines (indent : Nat) (message : String) : String :=
  String.ofList (message.toList.flatMap fun character =>
    if character = '\n' then '\n' :: List.replicate indent ' ' else [character])

def numberColumn (number : Nat) : String :=
  String.ofList (List.replicate (5 - (toString number).length) ' ') ++ toString number

/-- One cause among several. -/
def numberedCause (cause : String × Nat) : String :=
  "\n" ++ numberColumn cause.2 ++ ": " ++ indentLines 7 cause.1

/-- The causes below an error. They are numbered if there are several. -/
def causeLines : List String → String
  | [] => ""
  | [cause] => "\n\nCaused by:\n    " ++ indentLines 4 cause
  | causes => "\n\nCaused by:" ++ String.join (causes.zipIdx.map numberedCause)

def errorReport (message : String) (causes : List String) : String :=
  "Error: " ++ message ++ causeLines causes ++ "\n"

/-! ### The parts of a command -/

variable {m : Type → Type} [Monad m] [MonadDisk m]

namespace Execution

def say (line : String) : Execution m Unit :=
  modify fun told => told ++ line ++ "\n"

/-- Tells a line to those who want to know. -/
def sayIf (verbose : Bool) (line : String) : Execution m Unit :=
  if verbose then say line else pure ()

/-- An operation on a path whose refusal ends the command. -/
def onDisk {α : Type} (context : String) (operation : m (Except DiskError α)) :
    Execution m α := do
  match ← operation with
  | .ok value => pure value
  | .error error => throw (.error context [error.message])

/-- Loads a document with what it imports. -/
def loadFile (directories : List String) (loader : Loader) (path : String) :
    Execution m Loader := do
  let loading : Loading m Unit := Loading.load directories path
  let (result, loader) ← (loading.run.run loader : m (Except LoadError Unit × Loader))
  match result with
  | .ok () => pure loader
  | .error error => throw (.error s!"failed to load {path}" error.causes)

/-- Whether a document was named, or only imported by another. -/
def roleName (included : Bool) : String :=
  if included then "import" else "primary"

/-- Loads all documents that are named, with what they import. -/
def loadFiles (inputs : Inputs) : Execution m Loader := do
  sayIf inputs.verbose "[~] Loading schema documents and resolving imports..."
  inputs.directories.forM fun directory => sayIf inputs.verbose s!"    include: {directory}"
  let loader ← inputs.files.foldlM (loadFile inputs.directories) {}
  sayIf inputs.verbose s!"[~] Loaded {loader.units.size} file(s) total (including imports)"
  loader.units.toList.forM fun unit =>
    sayIf inputs.verbose s!"    - {unit.path} ({roleName unit.included})"
  pure loader

/-- Loads the documents and builds their model. -/
def loadModel (inputs : Inputs) : Execution m Model := do
  let loader ← loadFiles inputs
  match RecordSchema.build loader.sources with
  | .error .overflow => throw .overflow
  | .error (.schema error) =>
    say s!"[✗] {error.errorClass.name} error: {error.message}"
    throw (.error error.message [])
  | .ok built =>
    let model := built.model
    let emitted := model.emittedRecords.length
    sayIf inputs.verbose
      (s!"[✓] Model built: {model.packages.size} package(s), " ++
        s!"{model.recordIds.length} type(s), {emitted} emitted")
    pure model

def writeFile (path text : String) : Execution m Unit :=
  onDisk s!"failed to write {path}" (MonadDisk.writeText path text)

def makeDirectoryOf (path : String) : Execution m Unit :=
  match Path.parent? path with
  | none => pure ()
  | some directory =>
    if directory.isEmpty then pure ()
    else onDisk s!"failed to create {directory}" (MonadDisk.ensureDirectories directory)

end Execution

/-! ### Generating code -/

/-- How a backend is called when the work is told. -/
def backendTitle : Generator → String
  | .accessors => "Native"
  | .wrappers => "Binding"
  | .storageClasses => "Schema"
  | .numberDispatcher => "Dispatch"
  | .nameDispatcher => "DispatchHash"

def withoutTrailingSlashes (text : String) : String :=
  String.ofList (text.toList.reverse.dropWhile (· = '/')).reverse

/-- How the definitions include the declarations: by the name of their file, within a directory if
one is given. -/
def headerPath (declaration : String) (directory : Option String) : String :=
  let name := (Path.fileName? declaration).getD declaration
  match directory with
  | none => name
  | some directory =>
    if directory.isEmpty then name else withoutTrailingSlashes directory ++ "/" ++ name

namespace GenerateCommand

def options (settings : GenerateCommand) : GenerationOptions where
  header := some (headerPath settings.declaration settings.includePrefix)
  outerNamespace := settings.outerNamespace
  interfaceNamespace := settings.interfaceNamespace
  nativeNamespace := settings.nativeNamespace
  ignored := settings.ignored

/-- The lines that tell what is going to be done. -/
def summary (settings : GenerateCommand) : List String :=
  ["DDL Generator - Code Generation Tool",
    "====================================",
    "",
    "[~] Configuration:",
    s!"  Backend: {backendTitle settings.generator}",
    s!"  Declaration file: {settings.declaration}",
    s!"  Definition file: {settings.definition}",
    s!"  Input files: {settings.files.length}"] ++
    settings.files.map (fun file => s!"    - {file}") ++ [""]

def generate (settings : GenerateCommand) (model : Model) : Execution m Generated :=
  match (settings.generator.run model settings.options).result with
  | .ok text => pure text
  | .error .overflow => throw .overflow
  | .error (.refused error) =>
    throw (.error s!"backend '{settings.generator.name}' failed" [error.message])

/-- Writes one of the two files of generated code. -/
def writeResult (settings : GenerateCommand) (path text : String) : Execution m Unit := do
  Execution.makeDirectoryOf path
  Execution.writeFile path text
  Execution.sayIf settings.verbose s!"[✓] Wrote {path}"

/-- Generates code, or shows the report of the model if that is wanted. Nothing is written before all
code is generated. -/
def run (settings : GenerateCommand) : Execution m Unit := do
  settings.summary.forM (Execution.sayIf settings.verbose)
  let model ← Execution.loadModel settings.toInputs
  if settings.showReport then
    Execution.say (Report.ofModel model).toYamlText
  else
    Execution.sayIf settings.verbose
      s!"\n[*] Starting code generation for {backendTitle settings.generator}..."
    let generated ← settings.generate model
    settings.writeResult settings.declaration generated.declaration
    settings.writeResult settings.definition generated.definition
    Execution.say "[✓] Code generation complete"

end GenerateCommand

/-! ### Showing a report -/

def ReportFormat.write (format : ReportFormat) (report : Report) : String :=
  match format with
  | yaml => report.toYamlText
  | json => report.toJsonText

/-- Shows the report of the model. -/
def ReportCommand.run (settings : ReportCommand) : Execution m Unit := do
  let model ← Execution.loadModel settings.toInputs
  let text := settings.format.write (Report.ofModel model)
  match settings.output with
  | none => Execution.say text
  | some path =>
    Execution.writeFile path text
    Execution.say s!"[✓] Report written to {path}"

/-! ### The command line -/

/-- Runs a command. -/
def Invocation.run : Invocation → Execution m Unit
  | .generate settings => settings.run
  | .report settings => settings.run

/-- How an execution ends. -/
def Outcome.ofExecution (result : Except Failure Unit) (told : String) : Outcome :=
  match result with
  | .ok () => { code := 0, output := told }
  | .error (.error message causes) =>
    { code := 1, output := told, errors := errorReport message causes }
  | .error .overflow => { code := 101, output := told, errors := "arithmetic overflow\n" }

/-- What is told to those who ask how the program is used. -/
def usage : String :=
  "Usage:\n" ++
    "  codegen -f FILE... [-I DIR]... -b BACKEND --decl PATH --def PATH [OPTION]...\n" ++
    "  dump -f FILE... [-I DIR]... [--format yaml|json] [-o PATH] [-v]\n" ++
    "Backends: " ++ ", ".intercalate (Generator.all.map Generator.name) ++ "\n" ++
    "Options of codegen: --include-prefix PREFIX, --top-namespace NS, --interface-ns NS,\n" ++
    "  --native-ns NS, --ignore-type-id ID, --dump-schema, -v\n"

/-- How a command line ends that runs no command. -/
def Outcome.ofStop : Stop → Outcome
  | .help => { code := 0, output := usage }
  | .misuse => { code := 2, errors := usage }

/-- Runs a command line. -/
def run (arguments : List String) : m Outcome := do
  match Invocation.parse arguments with
  | .error stop => pure (Outcome.ofStop stop)
  | .ok invocation =>
    let execution : Execution m Unit := invocation.run
    let (result, told) ← execution.run.run ""
    pure (Outcome.ofExecution result told)

end RecordSchema.CommandLine
