import RecordSchema.SortedMap
import RecordSchema.Text.Blank

/-!
# Tags

A tag qualifies a declaration. It is a name, or a name with one argument in parentheses. Names that
differ only in `-` and `_` are the same name.
-/

set_option autoImplicit false

namespace RecordSchema

/-- A parsed tag: its normalized name and, if it was written with a parenthesis, its argument. -/
structure Tag where
  name : String
  argument : Option String
deriving DecidableEq, Inhabited

namespace Tag

/-- The spelling under which tag names are compared: trimmed, with `_` for `-`. -/
def normalizeCharacters (name : List Char) : List Char :=
  (Text.trimBlanks name).map fun character => if character = '-' then '_' else character

/-- The spelling under which tag names are compared. -/
def normalizeName (name : String) : String :=
  String.ofList (normalizeCharacters name.toList)

/-- What stands after the opening parenthesis, less the closing one. An argument that is never
closed extends to the end. -/
def argumentOf (inner : List Char) : List Char :=
  Text.trimBlanks (if inner.getLast? = some ')' then inner.dropLast else inner)

/-- The tag written by a text without outer blanks. -/
def ofTrimmed (text : List Char) : Tag :=
  match text.dropWhile (· ≠ '(') with
  | [] => ⟨String.ofList (normalizeCharacters text), none⟩
  | _ :: inner =>
    ⟨String.ofList (normalizeCharacters (text.takeWhile (· ≠ '('))),
      some (String.ofList (argumentOf inner))⟩

/-- Reads a tag; a blank text is none. -/
def parse? (raw : String) : Option Tag :=
  match Text.trimBlanks raw.toList with
  | [] => none
  | text => some (ofTrimmed text)

/-- The tags of a list of raw texts, blank ones left out. -/
def parseAll (raw : List String) : List Tag :=
  raw.filterMap parse?

/-- The written form of a tag. -/
def render (tag : Tag) : String :=
  match tag.argument with
  | some argument => tag.name ++ "(" ++ argument ++ ")"
  | none => tag.name

end Tag

/-- Tags that no rule has consumed, by name. -/
abbrev RawTags := SortedMap (Option String)

namespace RawTags

/-- The written form of every tag, in order. -/
def render (tags : RawTags) : List String :=
  tags.map fun entry => Tag.render ⟨entry.1, entry.2⟩

end RawTags

end RecordSchema
