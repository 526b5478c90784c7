import RecordSchema.Json
import RecordSchema.Text.Numeral

/-!
# Writing JSON

Two forms of one value: on one line, and spread over lines with an indentation of two blanks.
-/

set_option autoImplicit false

namespace RecordSchema.Json

def escapeChar (character : Char) : List Char :=
  if character = '\x22' then ['\\', '\x22']
  else if character = '\\' then ['\\', '\\']
  else if character = '\x08' then ['\\', 'b']
  else if character = '\x0c' then ['\\', 'f']
  else if character = '\n' then ['\\', 'n']
  else if character = '\r' then ['\\', 'r']
  else if character = '\t' then ['\\', 't']
  else if character.toNat < 0x20 then '\\' :: 'u' :: (Numeral.fourHexDigits character.toNat).toList
  else [character]

/-- A text between quotes. Only quotes, backslashes and control characters are escaped. -/
def quote (text : String) : String :=
  String.ofList ('\x22' :: text.toList.flatMap escapeChar ++ ['\x22'])

/-- The text of a value that is neither a list nor an object. -/
def renderScalar : Json → String
  | .null => "null"
  | .bool true => "true"
  | .bool false => "false"
  | .int value => toString value
  | .real spelling => spelling
  | .str text => quote text
  | .unpaired => "\"\""
  | .arr _ => "[]"
  | .obj _ => "\x7b\x7d"

mutual

/-- A value on one line, without blanks. -/
def compact : Json → String
  | .arr items => "[" ++ ",".intercalate (compactItems items) ++ "]"
  | .obj fields => "\x7b" ++ ",".intercalate (compactFields fields) ++ "\x7d"
  | value => renderScalar value

def compactItems : List Json → List String
  | [] => []
  | item :: rest => compact item :: compactItems rest

/-- The fields of an object on one line each. -/
def compactFields : List (String × Json) → List String
  | [] => []
  | (name, value) :: rest => (quote name ++ ":" ++ compact value) :: compactFields rest

end

/-- Lines between a bracket and its partner, each indented, with commas between them. -/
def block (opening closing : String) (indent : Nat) (entries : List String) : String :=
  let margin := String.ofList (List.replicate (indent + 2) ' ')
  let outer := String.ofList (List.replicate indent ' ')
  opening ++ "\n" ++ ",\n".intercalate (entries.map (margin ++ ·)) ++ "\n" ++ outer ++ closing

mutual

/-- A value over several lines; what it holds is indented by two blanks more than itself. -/
def prettyAt (indent : Nat) : Json → String
  | .arr [] => "[]"
  | .obj [] => "\x7b\x7d"
  | .arr (item :: rest) =>
    block "[" "]" indent (prettyAt (indent + 2) item :: prettyItems (indent + 2) rest)
  | .obj ((name, value) :: rest) =>
    block "\x7b" "\x7d" indent
      ((quote name ++ ": " ++ prettyAt (indent + 2) value) :: prettyFields (indent + 2) rest)
  | value => renderScalar value

/-- The items of a list, each over several lines. -/
def prettyItems (indent : Nat) : List Json → List String
  | [] => []
  | item :: rest => prettyAt indent item :: prettyItems indent rest

/-- The fields of an object, each over several lines. -/
def prettyFields (indent : Nat) : List (String × Json) → List String
  | [] => []
  | (name, value) :: rest =>
    (quote name ++ ": " ++ prettyAt indent value) :: prettyFields indent rest

end

/-- A value over several lines. -/
def pretty (value : Json) : String :=
  prettyAt 0 value

end RecordSchema.Json
