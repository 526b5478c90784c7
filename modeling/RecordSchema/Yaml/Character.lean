/-!
# Characters of YAML

Line breaks, blanks, and the characters that can be written without an escape.
-/

set_option autoImplicit false

namespace RecordSchema.Yaml

/-- Whether a character ends a line: line feed, carriage return, next line, line separator or paragraph
separator. -/
def isBreak (character : Char) : Bool :=
  character == '\n' || character == '\r' || character == '\u0085' || character == '\u2028' ||
    character == '\u2029'

/-- Whether a character is a space or a tab. -/
def isBlank (character : Char) : Bool :=
  character == ' ' || character == '\t'

/-- Whether a character ends a token: a blank or a line break. -/
def isSpace (character : Char) : Bool :=
  isBlank character || isBreak character

/-- Letters, digits, the underscore and the hyphen of ASCII: the characters of anchors and tag
handles. -/
def isWord (character : Char) : Bool :=
  character.isAlphanum || character == '_' || character == '-'

/-- Whether a character may be written as it is: line feeds and the visible characters of the basic
plane, without the byte order mark. -/
def isPrintable (character : Char) : Bool :=
  let code := character.toNat
  code == 0x0A || (0x20 ≤ code && code ≤ 0x7E) || (0xA0 ≤ code && code ≤ 0xD7FF) ||
    (0xE000 ≤ code && code ≤ 0xFFFD && code != 0xFEFF)

end RecordSchema.Yaml
