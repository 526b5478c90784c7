import RecordSchema.Text.Numeral
import RecordSchema.Yaml.Cursor
import RecordSchema.Yaml.Token

/-!
# Directives, anchors and tags

The parts of a document that are about its nodes and not in them: names of nodes, tags that say what
a node is, and the directives before a document.
-/

set_option autoImplicit false

namespace RecordSchema.Yaml.Property

/-- What may follow the name of an anchor besides blanks. -/
def anchorEnds : List Char := ['?', ':', ',', ']', '\x7d', '%', '@', '\x60']

/-- Reads the name of an anchor or alias after its mark. -/
def anchorName? (cursor : Cursor) : Option (String × Cursor) :=
  let (name, next) := cursor.take isWord
  if name.isEmpty || !(next.atGap || next.at? anchorEnds.contains) then none
  else some (String.ofList name, next)

/-- Characters that may stand in the address of a tag besides letters and digits. -/
def addressMarks : List Char :=
  [';', '/', '?', ':', '@', '&', '=', '+', '$', '.', '!', '~', '*', '\x27', '(', ')']

/-- Whether a character may stand in the address of a tag; some may only between angle brackets. -/
def isAddress (bracketed : Bool) (character : Char) : Bool :=
  isWord character || addressMarks.contains character ||
    (bracketed && (character == ',' || character == '[' || character == ']'))

/-- Reads one byte written as a percent sign and two hexadecimal digits. -/
def escapedByte? (cursor : Cursor) : Option (Nat × Cursor) :=
  match cursor.rest with
  | '%' :: high :: low :: _ => do
    some ((← Numeral.hexDigit? high) * 16 + (← Numeral.hexDigit? low), cursor.skip 3)
  | _ => none

/-- How many bytes follow the first byte of a character, and the bits that it contributes. -/
def leadingByte? (byte : Nat) : Option (Nat × Nat) :=
  if byte < 0x80 then some (0, byte)
  else if byte < 0xC0 then none
  else if byte < 0xE0 then some (1, byte - 0xC0)
  else if byte < 0xF0 then some (2, byte - 0xE0)
  else if byte < 0xF8 then some (3, byte - 0xF0)
  else none

/-- Reads the bytes of a character after the first one. -/
def furtherBytes? : Nat → Nat → Cursor → Option (Nat × Cursor)
  | 0, code, cursor => some (code, cursor)
  | count + 1, code, cursor => do
    let (byte, next) ← escapedByte? cursor
    if 0x80 ≤ byte && byte < 0xC0 then furtherBytes? count (code * 64 + (byte - 0x80)) next else none

/-- Reads a character that is written byte by byte. -/
def escapedCharacter? (cursor : Cursor) : Option (Char × Cursor) := do
  let (first, next) ← escapedByte? cursor
  let (count, bits) ← leadingByte? first
  let (code, rest) ← furtherBytes? count bits next
  some (Char.ofNat code, rest)

def address? (bracketed : Bool) : Nat → List Char → Cursor → Option (List Char × Cursor)
  | 0, reversed, cursor => some (reversed.reverse, cursor)
  | fuel + 1, reversed, cursor =>
    match cursor.head? with
    | none => some (reversed.reverse, cursor)
    | some character =>
      if character = '%' then do
        let (meant, next) ← escapedCharacter? cursor
        address? bracketed fuel (meant :: reversed) next
      else if isAddress bracketed character then
        address? bracketed fuel (character :: reversed) (cursor.skip 1)
      else some (reversed.reverse, cursor)

def someAddress? (bracketed : Bool) (cursor : Cursor) : Option (List Char × Cursor) := do
  let (address, next) ← address? bracketed (cursor.rest.length + 1) [] cursor
  if address.isEmpty then none else some (address, next)

/-- Reads an exclamation mark and the word after it, with the second mark if there is one. -/
def handle? (cursor : Cursor) : Option (List Char × Cursor) :=
  if cursor.at? (· == '!') then
    let (word, next) := (cursor.skip 1).take isWord
    if next.at? (· == '!') then some ('!' :: word ++ ['!'], next.skip 1)
    else some ('!' :: word, next)
  else none

/-- Whether a handle is closed by a second exclamation mark. -/
def isClosed (handle : List Char) : Bool :=
  1 < handle.length && handle.getLast? == some '!'

/-- Reads a tag between angle brackets. -/
def bracketedTag? (cursor : Cursor) : Option (Token × Cursor) := do
  let (address, next) ← someAddress? true (cursor.skip 2)
  if next.at? (· == '>') then some (.tag "" (String.ofList address), next.skip 1) else none

/-- Reads a tag of a handle and a suffix. What follows a single exclamation mark is all suffix; a mark
that stands alone is a tag of its own. -/
def shortTag? (cursor : Cursor) : Option (Token × Cursor) := do
  let (handle, next) ← handle? cursor
  if isClosed handle then
    let (suffix, rest) ← someAddress? false next
    some (.tag (String.ofList handle) (String.ofList suffix), rest)
  else
    let (more, rest) ← address? false (next.rest.length + 1) [] next
    let suffix := handle.drop 1 ++ more
    if suffix.isEmpty then some (.tag "" "!", rest)
    else some (.tag "!" (String.ofList suffix), rest)

/-- Reads a tag at its exclamation mark. A blank follows it, or a comma between brackets. -/
def tag? (flow : Bool) (cursor : Cursor) : Option (Token × Cursor) := do
  let (tag, next) ← if cursor.peek? 1 = some '<' then bracketedTag? cursor else shortTag? cursor
  if (flow && next.at? (· == ',')) || next.atGap then some (tag, next) else none

/-- Reads a number of at most nine digits. -/
def versionNumber? (cursor : Cursor) : Option (Nat × Cursor) := do
  let (digits, next) := cursor.take Char.isDigit
  if 9 < digits.length then none else some (← Numeral.decimal? digits, next)

/-- Reads the two numbers of a version. -/
def version? (cursor : Cursor) : Option (Token × Cursor) := do
  let (major, next) ← versionNumber? (cursor.skipWhile isBlank)
  if next.at? (· == '.') then
    let (minor, rest) ← versionNumber? (next.skip 1)
    some (.version major minor, rest)
  else none

/-- Reads a handle and what it stands for. -/
def tagHandle? (cursor : Cursor) : Option (Token × Cursor) := do
  let (handle, next) ← handle? (cursor.skipWhile isBlank)
  if (isClosed handle || handle = ['!']) && next.at? isBlank then
    let (meaning, rest) ← someAddress? true (next.skipWhile isBlank)
    if rest.atGap then some (.tagHandle (String.ofList handle) (String.ofList meaning), rest) else none
  else none

def directiveValue? (name : String) (cursor : Cursor) : Option (Token × Cursor) :=
  if name = "YAML" then version? cursor
  else if name = "TAG" then tagHandle? cursor
  else none

/-- Reads a directive at its percent sign, and the rest of its line. -/
def directive? (cursor : Cursor) : Option (Token × Cursor) := do
  let (name, next) := (cursor.skip 1).take isWord
  if name.isEmpty || !next.atGap then none
  else
    let (token, after) ← directiveValue? (String.ofList name) next
    let rest := after.skipWhile isBlank
    let stop := if rest.at? (· == '#') then rest.skipWhile fun character => !isBreak character else rest
    if stop.atLineEnd then some (token, (stop.lineBreak?.map Prod.snd).getD stop) else none

end RecordSchema.Yaml.Property
