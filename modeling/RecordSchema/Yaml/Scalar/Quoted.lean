import RecordSchema.Text.Numeral
import RecordSchema.Yaml.Scalar.Plain

/-!
# Quoted scalars

Between single quotes only the quote itself is special: it is written twice. Between double quotes a
backslash begins an escape.
-/

set_option autoImplicit false

namespace RecordSchema.Yaml.Quoted

/-- The character that a letter after a backslash stands for. -/
def escapeOf? : Char → Option Char
  | '0' => some '\x00'
  | 'a' => some '\x07'
  | 'b' => some '\x08'
  | 't' => some '\t'
  | '\t' => some '\t'
  | 'n' => some '\n'
  | 'v' => some '\x0b'
  | 'f' => some '\x0c'
  | 'r' => some '\r'
  | 'e' => some '\x1b'
  | ' ' => some ' '
  | '\x22' => some '\x22'
  | '/' => some '/'
  | '\\' => some '\\'
  | 'N' => some '\u0085'
  | '_' => some '\u00a0'
  | 'L' => some '\u2028'
  | 'P' => some '\u2029'
  | _ => none

/-- How many hexadecimal digits follow a letter after a backslash. -/
def codeLength? : Char → Option Nat
  | 'x' => some 2
  | 'u' => some 4
  | 'U' => some 8
  | _ => none

/-- The character of a code; surrogates and numbers out of range have none. -/
def characterOf? (code : Nat) : Option Char :=
  if (0xD800 ≤ code ∧ code ≤ 0xDFFF) ∨ 0x10FFFF < code then none else some (Char.ofNat code)

/-- Reads the character of an escape after its backslash. -/
def escape? (cursor : Cursor) : Option (Char × Cursor) := do
  let letter ← cursor.head?
  let next := cursor.skip 1
  match escapeOf? letter with
  | some meant => some (meant, next)
  | none =>
    let length ← codeLength? letter
    let digits := next.rest.take length
    if digits.length < length then none
    else
      let code ← Numeral.natural? Numeral.hexDigit? 16 0 digits
      some (← characterOf? code, next.skip length)

/-- Why a run of characters ends. -/
inductive Ending where
  /-- A blank, a line break, the closing quote or the end of the text. -/
  | here
  | escapedBreak

/-- Reads characters up to a blank, a line break or the closing quote. -/
def run? (single : Bool) : Nat → List Char → Cursor → Option (List Char × Ending × Cursor)
  | 0, reversed, cursor => some (reversed.reverse, .here, cursor)
  | fuel + 1, reversed, cursor =>
    match cursor.rest with
    | [] => some (reversed.reverse, .here, cursor)
    | character :: rest =>
      if isSpace character then some (reversed.reverse, .here, cursor)
      else if single then
        if character = '\x27' then
          if rest.head? = some '\x27' then run? single fuel ('\x27' :: reversed) (cursor.skip 2)
          else some (reversed.reverse, .here, cursor)
        else run? single fuel (character :: reversed) (cursor.skip 1)
      else if character = '\x22' then some (reversed.reverse, .here, cursor)
      else if character = '\\' then
        match (cursor.skip 1).lineBreak? with
        | some (_, next) => some (reversed.reverse, .escapedBreak, next)
        | none => do
          let (meant, next) ← escape? (cursor.skip 1)
          run? single fuel (meant :: reversed) next
      else run? single fuel (character :: reversed) (cursor.skip 1)

/-- The gap with which the blanks after a run begin. -/
def Ending.gap : Ending → Gap
  | here => {}
  | escapedBreak => Gap.escaped

/-- Reads runs and the gaps between them up to the closing quote. -/
def runs? (single : Bool) : Nat → List Char → Cursor → Option Scanned
  | 0, _, _ => none
  | fuel + 1, text, cursor =>
    if cursor.atMarker || cursor.rest.isEmpty then none
    else do
      let (run, ending, next) ← run? single cursor.rest.length [] cursor
      if next.head? = some (if single then '\x27' else '\x22') then
        some { text := text ++ run, next := next.skip 1 }
      else
        let (gap, start) ← Gap.scan 0 ending.gap next
        runs? single fuel (text ++ run ++ gap.fold) start

/-- Reads a quoted scalar at its opening quote. -/
def scan? (single : Bool) (cursor : Cursor) : Option Scanned :=
  runs? single (cursor.rest.length + 1) [] (cursor.skip 1)

end RecordSchema.Yaml.Quoted
