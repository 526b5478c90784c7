import RecordSchema.Yaml.Scalar.Gap

/-!
# Plain scalars

A scalar without quotes ends where a mark of the notation begins, and may go on over lines that are
indented deeply enough.
-/

set_option autoImplicit false

namespace RecordSchema.Yaml

/-- A scalar that has been read and what comes after it. -/
structure Scanned where
  text : List Char
  next : Cursor
  /-- Whether line breaks have been read behind the text. -/
  broken : Bool := false

namespace Plain

/-- The marks that end a plain scalar between brackets. -/
def flowMarks : List Char := [',', '[', ']', '\x7b', '\x7d']

/-- Whether a colon between brackets has a mark after it that it cannot have. -/
def isStrayColon (flow : Bool) (character : Char) (after : Option Char) : Bool :=
  flow && character == ':' && ((after.map fun mark => ('?' :: flowMarks).contains mark).getD false)

/-- Whether a plain scalar ends at a character. -/
def isEnd (flow : Bool) (character : Char) (after : Option Char) : Bool :=
  (character == ':' && Cursor.missingOr isSpace after) || (flow && flowMarks.contains character)

/-- Reads a word up to a blank, a line break or a mark. -/
def word? (flow : Bool) : List Char → Option (List Char)
  | [] => some []
  | character :: rest =>
    if isSpace character then some []
    else if isStrayColon flow character rest.head? then none
    else if isEnd flow character rest.head? then some []
    else (word? flow rest).map (character :: ·)

/-- Whether nothing of a plain scalar can begin here. -/
def isOver (cursor : Cursor) : Bool :=
  cursor.atMarker || cursor.at? (· == '#')

/-- Reads words with the gaps before them. -/
def words? (flow : Bool) (margin : Nat) : Nat → List Char → Gap → Cursor → Option Scanned
  | 0, text, gap, cursor => some ⟨text, cursor, gap.isBroken⟩
  | fuel + 1, text, gap, cursor =>
    if isOver cursor then some ⟨text, cursor, gap.isBroken⟩
    else do
      let word ← word? flow cursor.rest
      let next := cursor.skip word.length
      let text := if word.isEmpty then text else text ++ gap.fold ++ word
      if next.at? isSpace then
        let (after, start) ← Gap.scan margin {} next
        if !flow && start.column < margin then some ⟨text, start, after.isBroken⟩
        else words? flow margin fuel text after start
      else some ⟨text, next, word.isEmpty && gap.isBroken⟩

/-- Reads a plain scalar whose further lines start at a column or after it. -/
def scan? (flow : Bool) (margin : Nat) (cursor : Cursor) : Option Scanned :=
  words? flow margin (cursor.rest.length + 1) [] {} cursor

end Plain

end RecordSchema.Yaml
