import RecordSchema.Text.Numeral
import RecordSchema.Yaml.Character

/-!
# Styles of scalars

A text can be written in four ways: plain, between single quotes, between double quotes, and as a
literal block. Which of them are open to a text depends on its characters; the simplest one that
reads back as a text is taken.
-/

set_option autoImplicit false

namespace RecordSchema.Yaml

/-- How a scalar is written. -/
inductive ScalarStyle where
  | plain
  | singleQuoted
  | doubleQuoted
  | literal
  | folded
deriving DecidableEq, Inhabited

namespace ScalarStyle

def neighbours (text : List Char) : List (Option Char × Char × Option Char) :=
  let before := none :: text.map some
  let after := (text.drop 1).map some ++ [none]
  before.zip (text.zip after)

/-- Whether a neighbour is a blank, a line break or none at all. -/
def isGap : Option Char → Bool
  | none => true
  | some character => isSpace character

/-- The characters that a plain scalar cannot begin with. -/
def indicators : List Char :=
  ['#', ',', '[', ']', '\x7b', '\x7d', '&', '*', '!', '|', '>', '\x27', '\x22', '%', '@', '\x60']

/-- Whether a character keeps a text from being written plain where it stands. -/
def isIndicator (place : Option Char × Char × Option Char) : Bool :=
  let (before, character, after) := place
  (before.isNone && (character ∈ indicators || ((character = '?' || character = '-') && isGap after))) ||
    (character = ':' && isGap after) || (character = '#' && isGap before)

def beginsLikeMarker : List Char → Bool
  | '-' :: '-' :: '-' :: _ => true
  | '.' :: '.' :: '.' :: _ => true
  | _ => false

def hasUnprintable (text : List Char) : Bool :=
  text.any fun character => !isPrintable character

/-- Whether a character of one kind is followed at once by one of another kind. -/
def hasSequence (first second : Char → Bool) (text : List Char) : Bool :=
  (text.zip (text.drop 1)).any fun (left, right) => first left && second right

def isPlainSpace (character : Char) : Bool :=
  character == ' '

/-- Whether a character is the space or ends a line. -/
def isMargin (character : Char) : Bool :=
  character == ' ' || isBreak character

/-- Whether the line breaks or spaces of a text would be lost between quotes. -/
def needsEscape (text : List Char) : Bool :=
  hasUnprintable text || hasSequence isPlainSpace isBreak text

def allowsPlain (text : List Char) : Bool :=
  !(needsEscape text || text.any isBreak || beginsLikeMarker text ||
    (text.head?.map isMargin).getD false || (text.getLast?.map isMargin).getD false ||
    (neighbours text).any isIndicator)

def allowsSingleQuotes (text : List Char) : Bool :=
  !(needsEscape text || hasSequence isBreak isPlainSpace text)

def allowsBlock (text : List Char) : Bool :=
  !(text.isEmpty || needsEscape text || text.getLast? = some ' ')

/-- The texts that some reader takes for a truth value or for nothing, in lower case. -/
def ambiguousWords : List String :=
  ["y", "yes", "n", "no", "on", "off", "true", "false", "null", "nil", "~"]

/-- Whether a text written plain might be taken for something else than a text. -/
def isAmbiguous (text : List Char) : Bool :=
  match text with
  | [] => true
  | first :: _ =>
    first.isDigit || first == '-' || first == '.' || first == '+' ||
      ambiguousWords.contains (String.ofList (text.map Char.toLower))

def ofText (text : List Char) : ScalarStyle :=
  if text.contains '\n' then if allowsBlock text then literal else doubleQuoted
  else if !isAmbiguous text && allowsPlain text then plain
  else if allowsSingleQuotes text then singleQuoted
  else doubleQuoted

end ScalarStyle

/-- Writes a text that stands between single quotes; lines after the first are indented. -/
def singleQuotedLines (margin : List Char) : Bool → List Char → List Char
  | atStart, [] => if atStart then margin else []
  | atStart, character :: rest =>
    if isBreak character then character :: singleQuotedLines margin true rest
    else
      let written := if character = '\x27' then ['\x27', '\x27'] else [character]
      (if atStart then margin else []) ++ written ++ singleQuotedLines margin false rest

/-- The letter that stands for a character after a backslash. -/
def escapeLetter? : Char → Option Char
  | '\x00' => some '0'
  | '\x07' => some 'a'
  | '\x08' => some 'b'
  | '\t' => some 't'
  | '\n' => some 'n'
  | '\x0b' => some 'v'
  | '\x0c' => some 'f'
  | '\r' => some 'r'
  | '\x1b' => some 'e'
  | '\x22' => some '\x22'
  | '\\' => some '\\'
  | '\u0085' => some 'N'
  | '\u00a0' => some '_'
  | '\u2028' => some 'L'
  | '\u2029' => some 'P'
  | _ => none

/-- Upper-case hexadecimal digits of a number, at least as many as asked for. -/
def hexDigits (width value : Nat) : List Char :=
  let digits := (Nat.toDigits 16 value).map Char.toUpper
  List.replicate (width - digits.length) '0' ++ digits

/-- A character after a backslash: by its letter, or by its code in two, four or eight digits. -/
def escaped (character : Char) : List Char :=
  let code := character.toNat
  match escapeLetter? character with
  | some letter => ['\\', letter]
  | none =>
    if code ≤ 0xFF then '\\' :: 'x' :: hexDigits 2 code
    else if code ≤ 0xFFFF then '\\' :: 'u' :: hexDigits 4 code
    else '\\' :: 'U' :: hexDigits 8 code

def doubleQuotedChar (character : Char) : List Char :=
  if !isPrintable character || isBreak character || character = '\x22' || character = '\\' then
    escaped character
  else [character]

/-- The lines of a literal block. Lines that are not empty are indented. -/
def literalLines (margin : List Char) : Bool → List Char → List Char
  | _, [] => []
  | atStart, character :: rest =>
    if isBreak character then character :: literalLines margin true rest
    else (if atStart then margin else []) ++ character :: literalLines margin false rest

/-- What follows the bar of a literal block: the indentation if the first line does not show it. -/
def indentationHint : List Char → List Char
  | [] => []
  | first :: _ => if ScalarStyle.isMargin first then ['2'] else []

/-- What follows the bar of a literal block: whether line breaks at the end are dropped or kept. -/
def chompingHint (text : List Char) : List Char :=
  match text.reverse with
  | [] => ['-']
  | [only] => if isBreak only then ['+'] else ['-']
  | last :: previous :: _ =>
    if !isBreak last then ['-'] else if isBreak previous then ['+'] else []

/-- A literal block, with its final line break if the text has none. -/
def literalBlock (margin text : List Char) : List Char :=
  '|' :: indentationHint text ++ chompingHint text ++ '\n' :: literalLines margin true text ++
    (if (text.getLast?.map isBreak).getD false then [] else ['\n'])

/-- A text as a scalar with the line break after it; lines after the first are indented. -/
def scalarLines (indent : Nat) (text : List Char) : List Char :=
  let margin := List.replicate indent ' '
  match ScalarStyle.ofText text with
  | .plain => text ++ ['\n']
  | .singleQuoted => '\x27' :: singleQuotedLines margin false text ++ ['\x27', '\n']
  | .literal => literalBlock margin text
  | _ => '\x22' :: text.flatMap doubleQuotedChar ++ ['\x22', '\n']

end RecordSchema.Yaml
