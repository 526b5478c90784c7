import RecordSchema.Json
import RecordSchema.Text.Numeral

/-!
# Reading JSON

A reader of one JSON text. It follows the grammar of RFC 8259: blanks are space, tab, line feed and
carriage return, control characters do not stand in strings, and nothing follows the value.
-/

set_option autoImplicit false

namespace RecordSchema.Json.Parser

/-- The four characters that may stand between tokens. -/
def isBlank (character : Char) : Bool :=
  character == ' ' || character == '\t' || character == '\n' || character == '\r'

def skipBlanks (input : List Char) : List Char :=
  input.dropWhile isBlank

/-- Reads the code of four hexadecimal digits. -/
def fourHexDigits? : List Char → Option (Nat × List Char)
  | first :: second :: third :: fourth :: rest => do
    let high := (← Numeral.hexDigit? first) * 16 + (← Numeral.hexDigit? second)
    let low := (← Numeral.hexDigit? third) * 16 + (← Numeral.hexDigit? fourth)
    some (high * 256 + low, rest)
  | _ => none

def shortEscape? : Char → Option Char
  | '\x22' => some '\x22'
  | '\\' => some '\\'
  | '/' => some '/'
  | 'b' => some '\x08'
  | 'f' => some '\x0c'
  | 'n' => some '\n'
  | 'r' => some '\r'
  | 't' => some '\t'
  | _ => none

/-- What an escaped code stands for: a character, or half of a pair that has no other half. -/
structure Escaped where
  character : Option Char
  rest : List Char

/-- Reads the code after `\u`, together with the second half of a surrogate pair. -/
def unicodeEscape? (input : List Char) : Option Escaped := do
  let (code, rest) ← fourHexDigits? input
  if 0xD800 ≤ code ∧ code ≤ 0xDBFF then
    match rest with
    | '\\' :: 'u' :: more =>
      let (second, after) ← fourHexDigits? more
      if 0xDC00 ≤ second ∧ second ≤ 0xDFFF then
        some ⟨some (Char.ofNat (0x10000 + (code - 0xD800) * 0x400 + (second - 0xDC00))), after⟩
      else some ⟨none, rest⟩
    | _ => some ⟨none, rest⟩
  else if 0xDC00 ≤ code ∧ code ≤ 0xDFFF then some ⟨none, rest⟩
  else some ⟨some (Char.ofNat code), rest⟩

/-- Reads a string after its opening quote. The characters read so far are in reverse; `none` in
their place says that an unpaired half of a surrogate pair was met. -/
def string? : Nat → Option (List Char) → List Char → Option (Option String × List Char)
  | 0, _, _ => none
  | _ + 1, _, [] => none
  | fuel + 1, reversed, character :: rest =>
    if character = '\x22' then some (reversed.map fun read => String.ofList read.reverse, rest)
    else if character = '\\' then
      match rest with
      | 'u' :: digits => do
        let escaped ← unicodeEscape? digits
        string? fuel (do some ((← escaped.character) :: (← reversed))) escaped.rest
      | letter :: after => do
        let meant ← shortEscape? letter
        string? fuel (reversed.map (meant :: ·)) after
      | [] => none
    else if character.toNat < 0x20 then none
    else string? fuel (reversed.map (character :: ·)) rest

/-- Splits a run of digits off. -/
def digits (input : List Char) : List Char × List Char :=
  (input.takeWhile Char.isDigit, input.dropWhile Char.isDigit)

/-- Reads the digits before a fraction: a zero, or a numeral that does not begin with one. -/
def wholePart? (input : List Char) : Option (List Char × List Char) :=
  match digits input with
  | ([], _) => none
  | ('0' :: _ :: _, _) => none
  | found => some found

def fraction? (input : List Char) : Option (List Char × List Char) :=
  match input with
  | '.' :: after =>
    match digits after with
    | ([], _) => none
    | (found, rest) => some ('.' :: found, rest)
  | _ => some ([], input)

def exponent? (input : List Char) : Option (List Char × List Char) :=
  match input with
  | marker :: after =>
    if marker = 'e' ∨ marker = 'E' then
      let (sign, numeral) :=
        match after with
        | '+' :: more => (['+'], more)
        | '-' :: more => (['-'], more)
        | _ => ([], after)
      match digits numeral with
      | ([], _) => none
      | (found, rest) => some (marker :: (sign ++ found), rest)
    else some ([], input)
  | [] => some ([], input)

/-- Reads a number. A negative zero is not an integer. -/
def number? (input : List Char) : Option (Json × List Char) := do
  let (negative, unsigned) :=
    match input with
    | '-' :: rest => (true, rest)
    | _ => (false, input)
  let (whole, afterWhole) ← wholePart? unsigned
  let (fraction, afterFraction) ← fraction? afterWhole
  let (exponent, rest) ← exponent? afterFraction
  let value ← Numeral.decimal? whole
  if fraction.isEmpty && exponent.isEmpty && !(negative && value == 0) then
    some (.int (if negative then -(value : Int) else value), rest)
  else
    let sign := if negative then ['-'] else []
    some (.real (String.ofList (sign ++ whole ++ fraction ++ exponent)), rest)

/-- Skips a literal word. -/
def word? : List Char → List Char → Option (List Char)
  | [], input => some input
  | expected :: more, character :: rest => if character = expected then word? more rest else none
  | _ :: _, [] => none

/-- Reads a value that is neither an array nor an object. -/
def scalar? (input : List Char) : Option (Json × List Char) :=
  match input with
  | 'n' :: rest => (word? ['u', 'l', 'l'] rest).map (.null, ·)
  | 't' :: rest => (word? ['r', 'u', 'e'] rest).map (.bool true, ·)
  | 'f' :: rest => (word? ['a', 'l', 's', 'e'] rest).map (.bool false, ·)
  | '\x22' :: rest => do
    let (text, after) ← string? (rest.length + 1) (some []) rest
    match text with
    | some text => some (.str text, after)
    | none => some (.unpaired, after)
  | _ => number? input

/-- Reads the name of a field and the colon after it. -/
def fieldName? (input : List Char) : Option (String × List Char) := do
  match skipBlanks input with
  | '\x22' :: rest =>
    let (name, after) ← string? (rest.length + 1) (some []) rest
    match skipBlanks after with
    | ':' :: more => some (← name, more)
    | _ => none
  | _ => none

mutual

/-- Reads a value after the blanks before it. -/
def value? : Nat → List Char → Option (Json × List Char)
  | 0, _ => none
  | fuel + 1, input =>
    match skipBlanks input with
    | '[' :: rest =>
      match skipBlanks rest with
      | ']' :: after => some (.arr [], after)
      | _ => (items? fuel rest).map fun (items, after) => (.arr items, after)
    | '{' :: rest =>
      match skipBlanks rest with
      | '}' :: after => some (.obj [], after)
      | _ => (fields? fuel rest).map fun (fields, after) => (.obj fields, after)
    | start => scalar? start

/-- Reads the items of an array that has at least one, up to the closing bracket. -/
def items? : Nat → List Char → Option (List Json × List Char)
  | 0, _ => none
  | fuel + 1, input => do
    let (item, rest) ← value? fuel input
    match skipBlanks rest with
    | ',' :: more =>
      let (items, after) ← items? fuel more
      some (item :: items, after)
    | ']' :: after => some ([item], after)
    | _ => none

/-- Reads the fields of an object that has at least one, up to the closing brace. -/
def fields? : Nat → List Char → Option (List (String × Json) × List Char)
  | 0, _ => none
  | fuel + 1, input => do
    let (name, start) ← fieldName? input
    let (value, rest) ← value? fuel start
    match skipBlanks rest with
    | ',' :: more =>
      let (fields, after) ← fields? fuel more
      some ((name, value) :: fields, after)
    | '}' :: after => some ([(name, value)], after)
    | _ => none

end

end Parser

/-- Reads a text that is one JSON value between blanks. Two steps for each character suffice. -/
def parse? (text : String) : Option Json := do
  let input := text.toList
  let (value, rest) ← Parser.value? (2 * input.length + 2) input
  if (Parser.skipBlanks rest).isEmpty then some value else none

end RecordSchema.Json
