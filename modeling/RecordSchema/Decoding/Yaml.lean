import RecordSchema.Decoding.Declarations
import RecordSchema.Report.Decoding
import RecordSchema.Yaml.Document
import RecordSchema.Yaml.Printer

/-!
# Documents in YAML

How the nodes of a YAML document are read. Scalars of any style are texts; numbers are written plain;
an empty plain scalar also stands for an object or list with nothing in it. Following aliases is
limited, so that a document cannot grow without bound.
-/

set_option autoImplicit false

namespace RecordSchema.Yaml

/-- How deeply lists and objects may be nested. -/
def nestingLimit : Nat := 128

/-- The tag for the absence of a value. -/
def nullTag : String := "tag:yaml.org,2002:null"

def intTag : String := "tag:yaml.org,2002:int"

/-- The plain scalars that stand for the absence of a value. -/
def nullWords : List String := ["null", "Null", "NULL", "~"]

/-- The digits after a marker for a base, with their base. -/
def radixDigits? : List Char → Option (Nat × List Char)
  | '0' :: 'x' :: digits => some (16, digits)
  | '0' :: 'o' :: digits => some (8, digits)
  | '0' :: 'b' :: digits => some (2, digits)
  | _ => none

/-- The value of digits in a base; there is at least one. -/
def digitsIn? (base : Nat) (digits : List Char) : Option Nat :=
  if digits.isEmpty then none else Numeral.natural? Numeral.hexDigit? base 0 digits

/-- Whether a numeral of several digits begins with a zero, which makes it a text. -/
def hasLeadingZero : List Char → Bool
  | '0' :: _ :: _ => true
  | _ => false

/-- The value of a numeral: with a marker for its base, or decimal without leading zeros; a plus sign
may stand before it. -/
def numeral? (text : String) : Option Nat :=
  let digits := match text.toList with
    | '+' :: rest => rest
    | characters => characters
  match radixDigits? digits with
  | some (base, rest) => digitsIn? base rest
  | none => if hasLeadingZero digits then none else digitsIn? 10 digits

/-- Counts a step from an alias to its node. Too many of them are refused. -/
def countJump (limit : Nat) : Decoded Unit := do
  let jumps ← get
  if limit ≤ jumps then Decoded.refuse else set (jumps + 1)

/-- The nodes of a document by their number, and how many aliases may be followed. -/
structure Anchors where
  nodes : List (Nat × Node Nat)
  limit : Nat

/-- The anchors of a document. Of several nodes with one number the last counts. -/
def Anchors.ofRoot (root : Node Nat) : Anchors where
  nodes := root.anchored.reverse
  limit := 100 * root.size

/-- The node that an alias stands for; any other node stands for itself. -/
def resolve (anchors : Anchors) : Node Nat → Decoded (Node Nat)
  | .alias target => do
    countJump anchors.limit
    match anchors.nodes.lookup target with
    | some node => pure node
    | none => Decoded.refuse
  | node => pure node

def isBlankNode : Node Nat → Bool
  | .scalar _ _ .plain text => text.isEmpty
  | _ => false

def scalarText (anchors : Anchors) (node : Node Nat) : Decoded String := do
  match ← resolve anchors node with
  | .scalar _ _ _ text => pure text
  | _ => Decoded.refuse

/-- The entries of a mapping, with the texts of their keys. -/
def mappingEntries (anchors : Anchors) (depth : Nat) (node : Node Nat) :
    Decoded (List (String × Node Nat)) := do
  match ← resolve anchors node with
  | .mapping _ entries =>
    if depth = 0 then Decoded.refuse
    else entries.mapM fun entry => do pure (← scalarText anchors entry.1, entry.2)
  | node => if isBlankNode node then pure [] else Decoded.refuse

/-- The fields among the given ones, unless one of these is repeated. -/
def declaredFields (names : List String) (entries : List (String × Node Nat)) :
    Decoded (List (String × Node Nat)) :=
  let declared := entries.filter fun entry => names.contains entry.1
  let found : List String := declared.map Prod.fst
  if found.Nodup then pure declared else Decoded.refuse

def sequenceItems (anchors : Anchors) (depth : Nat) (node : Node Nat) :
    Decoded (List (Node Nat)) := do
  match ← resolve anchors node with
  | .sequence _ items => if depth = 0 then Decoded.refuse else pure items
  | node => if isBlankNode node then pure [] else Decoded.refuse

/-- Whether a scalar may be a number: a plain one, or a literal block that says it is. -/
def mayBeNumber (style : ScalarStyle) (tag : Option String) : Bool :=
  style == .plain || (style == .literal && tag == some intTag)

/-- A number below 2^32. -/
def scalarWord (anchors : Anchors) (node : Node Nat) : Decoded UInt32 := do
  match ← resolve anchors node with
  | .scalar _ tag style text =>
    match if mayBeNumber style tag then numeral? text else none with
    | some value => if value < 4294967296 then pure value.toUInt32 else Decoded.refuse
    | none => Decoded.refuse
  | _ => Decoded.refuse

/-- The node itself unless it is a plain scalar that is empty or says that there is no value. A tag
decides by itself, and one that says so must agree with its text. -/
def presentNode (anchors : Anchors) (node : Node Nat) : Decoded (Option (Node Nat)) := do
  match ← resolve anchors node with
  | .scalar anchor tag .plain text =>
    let value := Node.scalar anchor tag .plain text
    match tag with
    | none => pure (if text.isEmpty || nullWords.contains text then none else some value)
    | some tag =>
      if tag = nullTag then if nullWords.contains text then pure none else Decoded.refuse
      else pure (some value)
  | value => pure (some value)

def reader (anchors : Anchors) : Reader (Node Nat) where
  fields depth names node := do declaredFields names (← mappingEntries anchors depth node)
  items := sequenceItems anchors
  entries := mappingEntries anchors
  text := scalarText anchors
  word := scalarWord anchors
  present := presentNode anchors

def decode? {α : Type} (read : Reader (Node Nat) → Nat → Node Nat → Decoded α) (text : String) :
    Option α := do
  let root ← parse? text
  let (value, _) ← (read (reader (Anchors.ofRoot root)) nestingLimit root).run 0
  some value

end Yaml

def Declaration.Document.ofYamlText? (text : String) : Option Declaration.Document :=
  Yaml.decode? Declaration.Document.read text

namespace Report

def ofYamlText? (text : String) : Option Report :=
  Yaml.decode? Report.read text

def toYamlText (report : Report) : String :=
  Yaml.render report.toJson

end Report

end RecordSchema
