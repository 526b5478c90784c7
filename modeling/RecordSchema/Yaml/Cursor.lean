import RecordSchema.Yaml.Character

/-!
# Places in a text

A cursor is what is still to be read of a text, together with the place that has been reached. Lines
and columns are counted from zero. Line breaks read as text are all line feeds, but for the line and
paragraph separators.
-/

set_option autoImplicit false

namespace RecordSchema.Yaml

/-- A place in a text and what follows it. -/
structure Cursor where
  rest : List Char
  /-- How many characters have been read. -/
  index : Nat := 0
  line : Nat := 0
  column : Nat := 0
deriving Inhabited

namespace Cursor

def head? (cursor : Cursor) : Option Char :=
  cursor.rest.head?

def peek? (cursor : Cursor) (distance : Nat) : Option Char :=
  cursor.rest[distance]?

/-- Whether the character at the cursor is one of some kind; there is none at the end. -/
def at? (cursor : Cursor) (kind : Char → Bool) : Bool :=
  (cursor.head?.map kind).getD false

def missingOr (kind : Char → Bool) : Option Char → Bool
  | none => true
  | some character => kind character

/-- Whether the cursor is at a blank, at a line break or at the end. -/
def atGap (cursor : Cursor) : Bool :=
  missingOr isSpace cursor.head?

def atLineEnd (cursor : Cursor) : Bool :=
  missingOr isBreak cursor.head?

/-- Whether a blank, a line break or the end is at a distance from the cursor. -/
def gapAt (cursor : Cursor) (distance : Nat) : Bool :=
  missingOr isSpace (cursor.peek? distance)

/-- Moves over characters of one line. -/
def skip (cursor : Cursor) (count : Nat) : Cursor :=
  { cursor with
    rest := cursor.rest.drop count
    index := cursor.index + count
    column := cursor.column + count }

/-- Moves over characters of one line as long as they are of some kind. -/
def skipWhile (cursor : Cursor) (kind : Char → Bool) : Cursor :=
  cursor.skip (cursor.rest.takeWhile kind).length

/-- Splits the characters of some kind off. -/
def take (cursor : Cursor) (kind : Char → Bool) : List Char × Cursor :=
  (cursor.rest.takeWhile kind, cursor.skipWhile kind)

def nextLine (cursor : Cursor) (length : Nat) (rest : List Char) : Cursor where
  rest := rest
  index := cursor.index + length
  line := cursor.line + 1
  column := 0

/-- Reads a line break, if there is one: what it stands for, and the start of the next line. A
carriage return and a line feed are one break. -/
def lineBreak? (cursor : Cursor) : Option (Char × Cursor) :=
  match cursor.rest with
  | '\r' :: '\n' :: rest => some ('\n', cursor.nextLine 2 rest)
  | character :: rest =>
    if isBreak character then
      let meant := if character = '\u2028' ∨ character = '\u2029' then character else '\n'
      some (meant, cursor.nextLine 1 rest)
    else none
  | [] => none

/-- Whether the line at the cursor is a mark between documents: three hyphens or three dots. -/
def atMarker (cursor : Cursor) : Bool :=
  cursor.column == 0 && cursor.gapAt 3 &&
    match cursor.rest with
    | '-' :: '-' :: '-' :: _ => true
    | '.' :: '.' :: '.' :: _ => true
    | _ => false

end Cursor

end RecordSchema.Yaml
