import RecordSchema.Json
import RecordSchema.Yaml.ScalarStyle

/-!
# Writing YAML

A value in block style: fields and items on lines of their own, with two blanks of indentation for
what an object holds. The items of a list stand under the name of its field.
-/

set_option autoImplicit false

namespace RecordSchema.Yaml

/-- Blanks at the start of a line. -/
def margin (indent : Nat) : String :=
  String.ofList (List.replicate indent ' ')

/-- A scalar after the mark before it, to the end of its line. -/
def renderText (indent : Nat) (text : String) : String :=
  " " ++ String.ofList (scalarLines (indent + 2) text.toList)

/-- A value on one line after the mark before it. -/
def renderSimple (indent : Nat) : Json → String
  | .null => " null\n"
  | .bool true => " true\n"
  | .bool false => " false\n"
  | .int value => " " ++ toString value ++ "\n"
  | .real spelling => " " ++ spelling ++ "\n"
  | .str text => renderText indent text
  | .unpaired => renderText indent ""
  | .arr _ => " []\n"
  | .obj _ => " \x7b\x7d\n"

mutual

/-- A value as the value of a field in an object with an indentation. -/
def renderField (indent : Nat) : Json → String
  | .arr (item :: rest) => "\n" ++ renderItems indent (item :: rest)
  | .obj (field :: rest) => "\n" ++ renderFields (indent + 2) (field :: rest)
  | value => renderSimple indent value

/-- The fields of an object, each on a line of its own. -/
def renderFields (indent : Nat) : List (String × Json) → String
  | [] => ""
  | (name, value) :: rest =>
    margin indent ++ name ++ ":" ++ renderField indent value ++ renderFields indent rest

/-- The items of a list, each after a hyphen on a line of its own. -/
def renderItems (indent : Nat) : List Json → String
  | [] => ""
  | item :: rest => margin indent ++ "-" ++ renderItem indent item ++ renderItems indent rest

/-- A value as an item of a list with an indentation. What it holds starts on the line of the
hyphen. -/
def renderItem (indent : Nat) : Json → String
  | .arr (item :: rest) =>
    " -" ++ renderItem (indent + 2) item ++ renderItems (indent + 2) rest
  | .obj ((name, value) :: rest) =>
    " " ++ name ++ ":" ++ renderField (indent + 2) value ++ renderFields (indent + 2) rest
  | value => renderSimple indent value

end

/-- A value as a document of its own. Field names are taken to be plain scalars. -/
def render : Json → String
  | .arr (item :: rest) => renderItems 0 (item :: rest)
  | .obj (field :: rest) => renderFields 0 (field :: rest)
  | value => String.ofList ((renderSimple 0 value).toList.drop 1)

end RecordSchema.Yaml
