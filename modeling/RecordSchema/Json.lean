/-!
# JSON values

The values of JSON documents. Fields keep the order of the text. Numbers without fraction and
exponent are integers; all others keep their spelling, since no reader here asks for their value.
-/

set_option autoImplicit false

namespace RecordSchema

inductive Json where
  | null
  | bool (value : Bool)
  | int (value : Int)
  | real (spelling : String)
  | str (text : String)
  /-- A string with an escape for half a surrogate pair: well formed, but it denotes no text. -/
  | unpaired
  | arr (items : List Json)
  | obj (fields : List (String × Json))
deriving Inhabited, BEq

namespace Json

/-- A natural number as a value. -/
def nat (value : Nat) : Json := .int value

def strings (texts : List String) : Json := .arr (texts.map .str)

def optional {α : Type} (encode : α → Json) : Option α → Json
  | none => .null
  | some value => encode value

def field? (name : String) : Json → Option Json
  | .obj fields => fields.lookup name
  | _ => none

mutual

/-- How deeply arrays and objects are nested in a value. -/
def depth : Json → Nat
  | .arr items => depthOfItems items + 1
  | .obj fields => depthOfFields fields + 1
  | _ => 0

def depthOfItems : List Json → Nat
  | [] => 0
  | item :: rest => max (depth item) (depthOfItems rest)

def depthOfFields : List (String × Json) → Nat
  | [] => 0
  | (_, value) :: rest => max (depth value) (depthOfFields rest)

end

end Json

end RecordSchema
