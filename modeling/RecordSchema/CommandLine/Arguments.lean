/-!
# Arguments of a command

Arguments name parameters by a long name after two dashes or by a letter after one. A flag stands
alone; any other parameter takes a value, attached to its name or in the next argument. The arguments
are gone through in order, and the first that asks for help or that cannot be understood decides.
-/

set_option autoImplicit false

namespace RecordSchema.CommandLine

structure Parameter where
  long : String
  short : Option Char := none
  /-- Which values it takes; a flag takes none at all. -/
  accepts : Option (String → Bool)
  /-- Whether it may be given more than once. -/
  repeatable : Bool := false

/-- Why a command is not run. -/
inductive Stop where
  | help
  /-- The arguments are not understood. -/
  | misuse
deriving DecidableEq

/-- The parameters found so far, by their long names, with their values; the last one comes first. -/
structure Scan where
  found : List (String × String) := []
  /-- A parameter that still waits for its value. -/
  pending : Option Parameter := none

inductive Argument where
  /-- Two dashes alone: no parameter comes after them. -/
  | escape
  | long (name : String) (value : Option String)
  /-- Letters, of which one that takes a value has the rest for it. -/
  | short (letters : List Char)
  | plain (text : String)
deriving DecidableEq

/-- Reads a name and what follows it after an equals sign. -/
def splitValue : List Char → List Char × Option (List Char)
  | [] => ([], none)
  | '=' :: rest => ([], some rest)
  | character :: rest =>
    let (name, value) := splitValue rest
    (character :: name, value)

/-- The form of an argument. A dash alone is a value. -/
def Argument.ofString (text : String) : Argument :=
  match text.toList with
  | ['-', '-'] => .escape
  | '-' :: '-' :: rest =>
    let (name, value) := splitValue rest
    .long (String.ofList name) (value.map String.ofList)
  | '-' :: letter :: rest => .short (letter :: rest)
  | _ => .plain text

/-- The long name of the parameter that asks for help. -/
def helpName : String := "help"

def helpLetter : Char := 'h'

namespace Scan

/-- Nothing may wait for a value where another parameter begins. -/
def settled (scan : Scan) : Except Stop Unit :=
  if scan.pending.isSome then .error .misuse else .ok ()

def askHelp (scan : Scan) : Except Stop Scan := do
  scan.settled
  .error .help

/-- Notes a parameter, unless it was given before and may not be repeated. -/
def note (scan : Scan) (parameter : Parameter) (value : String) : Except Stop Scan :=
  if !parameter.repeatable && (scan.found.lookup parameter.long).isSome then .error .misuse
  else .ok { found := (parameter.long, value) :: scan.found }

def giveFlag (scan : Scan) (parameter : Parameter) : Except Stop Scan := do
  scan.settled
  scan.note parameter ""

def giveValue (scan : Scan) (parameter : Parameter) (accepts : String → Bool) (value : String) :
    Except Stop Scan :=
  if accepts value then scan.note parameter value else .error .misuse

/-- Gives a parameter that takes a value, which is attached or comes next. -/
def give (scan : Scan) (parameter : Parameter) (accepts : String → Bool) :
    Option String → Except Stop Scan
  | some value => do
    scan.settled
    scan.giveValue parameter accepts value
  | none => do
    scan.settled
    .ok { scan with pending := some parameter }

def takeLong (parameters : List Parameter) (scan : Scan) (name : String) (value : Option String) :
    Except Stop Scan :=
  if name = helpName then
    if value.isSome then .error .misuse else scan.askHelp
  else
    match parameters.find? fun parameter => parameter.long = name with
    | none => .error .misuse
    | some parameter =>
      match parameter.accepts with
      | some accepts => scan.give parameter accepts value
      | none => if value.isSome then .error .misuse else scan.giveFlag parameter

/-- The value attached to a letter, if there is any; an equals sign may stand before it. -/
def attached? : List Char → Option String
  | [] => none
  | '=' :: rest => some (String.ofList rest)
  | rest => some (String.ofList rest)

def takeShort (parameters : List Parameter) (scan : Scan) : List Char → Except Stop Scan
  | [] => .ok scan
  | letter :: rest =>
    if letter = helpLetter then scan.askHelp
    else
      match parameters.find? fun parameter => parameter.short = some letter with
      | none => .error .misuse
      | some parameter =>
        match parameter.accepts with
        | some accepts => scan.give parameter accepts (attached? rest)
        | none => do takeShort parameters (← scan.giveFlag parameter) rest

/-- Takes a value for the parameter that waits for one. -/
def takePlain (scan : Scan) (text : String) : Except Stop Scan :=
  match scan.pending with
  | none => .error .misuse
  | some parameter =>
    match parameter.accepts with
    | none => .error .misuse
    | some accepts => { scan with pending := none }.giveValue parameter accepts text

/-- Takes all arguments of a command. -/
def takeAll (parameters : List Parameter) (scan : Scan) : List String → Except Stop Scan
  | [] => do
    scan.settled
    .ok scan
  | text :: rest =>
    match Argument.ofString text with
    | .escape => do
      scan.settled
      if rest.isEmpty then .ok scan else .error .misuse
    | .long name value => do takeAll parameters (← scan.takeLong parameters name value) rest
    | .short letters => do takeAll parameters (← scan.takeShort parameters letters) rest
    | .plain text => do takeAll parameters (← scan.takePlain text) rest

/-- All values of a parameter, in the order in which they are given. -/
def values (scan : Scan) (name : String) : List String :=
  (scan.found.filter fun entry => entry.1 = name).reverse.map Prod.snd

/-- The value of a parameter that is not repeated. -/
def value? (scan : Scan) (name : String) : Option String :=
  scan.found.lookup name

def isGiven (scan : Scan) (name : String) : Bool :=
  (scan.value? name).isSome

/-- The value of a parameter that has to be given. -/
def required (scan : Scan) (name : String) : Except Stop String :=
  match scan.value? name with
  | some value => .ok value
  | none => .error .misuse

end Scan

end RecordSchema.CommandLine
