/-!
# Reading documents in any notation

Declarations and reports are read from nodes of a document. A reader says what a notation offers: the
fields of an object, the items of a list, texts and numbers. Every reader counts the aliases it has
followed, and is told how many containers may still be nested.
-/

set_option autoImplicit false

namespace RecordSchema

/-- Something read from a document, or nothing if the document does not have the form. The state is
the number of aliases followed. -/
abbrev Decoded (α : Type) := StateT Nat Option α

/-- Nothing can be read. -/
def Decoded.refuse {α : Type} : Decoded α :=
  fun _ => none

/-- How the nodes of a notation are read. The number given first is how many containers may be
nested from here on. -/
structure Reader (ν : Type) where
  /-- The fields of an object among the given ones; none of these is repeated. -/
  fields : Nat → List String → ν → Decoded (List (String × ν))
  items : Nat → ν → Decoded (List ν)
  /-- The entries of an object whatever their names. -/
  entries : Nat → ν → Decoded (List (String × ν))
  text : ν → Decoded String
  /-- A number below 2^32. -/
  word : ν → Decoded UInt32
  /-- The node itself, unless it stands for the absence of a value. -/
  present : ν → Decoded (Option ν)

namespace Reader

variable {ν α : Type}

def required (fields : List (String × ν)) (name : String) (read : ν → Decoded α) : Decoded α :=
  match fields.lookup name with
  | some node => read node
  | none => Decoded.refuse

/-- A field that may be left out. -/
def optional (reader : Reader ν) (fields : List (String × ν)) (name : String)
    (read : ν → Decoded α) : Decoded (Option α) :=
  match fields.lookup name with
  | none => pure none
  | some node => do
    match ← reader.present node with
    | none => pure none
    | some node => some <$> read node

/-- A field with a value of its own if it is left out. -/
def withDefault (fields : List (String × ν)) (name : String) (default : α)
    (read : ν → Decoded α) : Decoded α :=
  match fields.lookup name with
  | none => pure default
  | some node => read node

/-- The items of a list, each read with what nesting is left. -/
def list (reader : Reader ν) (depth : Nat) (read : Nat → ν → Decoded α) (node : ν) :
    Decoded (List α) := do
  (← reader.items depth node).mapM (read (depth - 1))

def texts (reader : Reader ν) (depth : Nat) (node : ν) : Decoded (List String) :=
  reader.list depth (fun _ => reader.text) node

/-- The texts of an object by the name of their field. -/
def textMap (reader : Reader ν) (depth : Nat) (node : ν) : Decoded (List (String × String)) := do
  (← reader.entries depth node).mapM fun entry => do pure (entry.1, ← reader.text entry.2)

end Reader

end RecordSchema
