import RecordSchema.CommandLine.Arguments
import RecordSchema.Generator
import RecordSchema.Text.Numeral

/-!
# What a command line asks for

There are two commands: one generates code, the other shows the report of a model.
-/

set_option autoImplicit false

namespace RecordSchema.CommandLine

inductive ReportFormat where
  | yaml
  | json
deriving DecidableEq

/-- What both commands need to know: the documents, and how much to tell of the work. -/
structure Inputs where
  files : List String
  /-- Where imported files are searched. -/
  directories : List String
  verbose : Bool

structure GenerateCommand extends Inputs where
  generator : Generator
  declaration : String
  /-- The path of the file for the definitions. -/
  definition : String
  includePrefix : Option String
  outerNamespace : Option String
  interfaceNamespace : Option String
  nativeNamespace : Option String
  ignored : List UInt32
  showReport : Bool

structure ReportCommand extends Inputs where
  format : ReportFormat
  /-- The path of the file for the report, if it is to be written to one. -/
  output : Option String

inductive Invocation where
  | generate (settings : GenerateCommand)
  | report (settings : ReportCommand)

/-- Paths have at least one character. -/
def isPath (text : String) : Bool :=
  !text.isEmpty

def typeNumber? (text : String) : Option UInt32 :=
  match Numeral.word? text.toList with
  | some value => if 0 ≤ value ∧ value < 4294967296 then some value.toNat.toUInt32 else none
  | none => none

namespace ReportFormat

def name : ReportFormat → String
  | yaml => "yaml"
  | json => "json"

def ofName? (text : String) : Option ReportFormat :=
  [yaml, json].find? fun format => format.name == text

end ReportFormat

/-- The parameters of both commands. -/
def inputParameters : List Parameter :=
  [{ long := "files", short := some 'f', accepts := some isPath, repeatable := true },
    { long := "include-dir", short := some 'I', accepts := some isPath, repeatable := true },
    { long := "verbose", short := some 'v', accepts := none }]

def generateParameters : List Parameter :=
  inputParameters ++
    [{ long := "backend", short := some 'b',
       accepts := some fun text => (Generator.ofName? text).isSome },
      { long := "decl", accepts := some isPath },
      { long := "def", accepts := some isPath },
      { long := "include-prefix", accepts := some fun _ => true },
      { long := "top-namespace", accepts := some fun _ => true },
      { long := "interface-ns", accepts := some fun _ => true },
      { long := "native-ns", accepts := some fun _ => true },
      { long := "ignore-type-id", accepts := some fun text => (typeNumber? text).isSome,
        repeatable := true },
      { long := "dump-schema", accepts := none }]

def reportParameters : List Parameter :=
  inputParameters ++
    [{ long := "format", accepts := some fun text => (ReportFormat.ofName? text).isSome },
      { long := "output", short := some 'o', accepts := some isPath }]

def orMisuse {α : Type} : Option α → Except Stop α
  | some value => .ok value
  | none => .error .misuse

/-- The inputs among the parameters; there is at least one file. -/
def Inputs.ofScan (scan : Scan) : Except Stop Inputs := do
  let files := scan.values "files"
  if files.isEmpty then .error .misuse
  else
    .ok
      { files
        directories := scan.values "include-dir"
        verbose := scan.isGiven "verbose" }

def GenerateCommand.parse (arguments : List String) : Except Stop GenerateCommand := do
  let scan ← Scan.takeAll generateParameters {} arguments
  let inputs ← Inputs.ofScan scan
  .ok
    { toInputs := inputs
      generator := ← orMisuse (Generator.ofName? (← scan.required "backend"))
      declaration := ← scan.required "decl"
      definition := ← scan.required "def"
      includePrefix := scan.value? "include-prefix"
      outerNamespace := scan.value? "top-namespace"
      interfaceNamespace := scan.value? "interface-ns"
      nativeNamespace := scan.value? "native-ns"
      ignored := (scan.values "ignore-type-id").filterMap typeNumber?
      showReport := scan.isGiven "dump-schema" }

/-- Reads the arguments of the command to show a report, in YAML unless they say otherwise. -/
def ReportCommand.parse (arguments : List String) : Except Stop ReportCommand := do
  let scan ← Scan.takeAll reportParameters {} arguments
  let inputs ← Inputs.ofScan scan
  .ok
    { toInputs := inputs
      format := ← orMisuse (ReportFormat.ofName? ((scan.value? "format").getD ReportFormat.yaml.name))
      output := scan.value? "output" }

def generateName : String := "codegen"

def reportName : String := "dump"

/-- Help is given for the program and for each of its commands, help included. -/
def parseHelp : List String → Stop
  | [] => .help
  | [name] => if [generateName, reportName, helpName].contains name then .help else .misuse
  | _ => .misuse

/-- Whether an argument in the place of a command asks for help. -/
def asksHelp (text : String) : Bool :=
  match Argument.ofString text with
  | .long name value => name = helpName && value.isNone
  | .short letters => letters.head? = some helpLetter
  | _ => false

/-- Reads a command line. -/
def Invocation.parse : List String → Except Stop Invocation
  | [] => .error .misuse
  | command :: arguments =>
    if command = generateName then (GenerateCommand.parse arguments).map .generate
    else if command = reportName then (ReportCommand.parse arguments).map .report
    else if command = helpName then .error (parseHelp arguments)
    else if asksHelp command then .error .help
    else .error .misuse

end RecordSchema.CommandLine
