/-!
# White space

The blank characters, trimming at both ends, and the lines of a text. Everything here works on the
characters of a text, so that laws are statements about lists.
-/

set_option autoImplicit false

namespace RecordSchema.Text

/-- The characters that have the Unicode property White_Space. -/
def isBlank (character : Char) : Bool :=
  let code := character.toNat
  (9 ≤ code && code ≤ 13) || code == 0x20 || code == 0x85 || code == 0xA0 || code == 0x1680 ||
    (0x2000 ≤ code && code ≤ 0x200A) || code == 0x2028 || code == 0x2029 || code == 0x202F ||
    code == 0x205F || code == 0x3000

/-- Every blank that core knows of is one here; the property has more of them. -/
theorem isBlank_of_isWhitespace {character : Char} (blank : character.isWhitespace = true) :
    isBlank character = true := by
  simp only [Char.isWhitespace, Bool.or_eq_true, decide_eq_true_eq] at blank
  rcases blank with ((rfl | rfl) | rfl) | rfl <;> decide

def dropBlanks (characters : List Char) : List Char :=
  characters.dropWhile isBlank

def dropTrailingBlanks (characters : List Char) : List Char :=
  (characters.reverse.dropWhile isBlank).reverse

/-- Characters without the blanks at either end. -/
def trimBlanks (characters : List Char) : List Char :=
  dropTrailingBlanks (dropBlanks characters)

/-- Text without leading and trailing blanks. -/
def trim (text : String) : String :=
  String.ofList (trimBlanks text.toList)

/-- Text without trailing blanks. -/
def trimEnd (text : String) : String :=
  String.ofList (dropTrailingBlanks text.toList)

def allBlank (text : String) : Bool :=
  text.toList.all isBlank

/-- Splits at every occurrence of a separator; the pieces are one more than the separators. -/
def splitOnChar (separator : Char) : List Char → List (List Char)
  | [] => [[]]
  | character :: rest =>
    if character = separator then [] :: splitOnChar separator rest
    else
      match splitOnChar separator rest with
      | [] => [[character]]
      | piece :: pieces => (character :: piece) :: pieces

/-- A carriage return belongs to the line feed after it; one that stands alone is text. -/
def dropCarriageReturn (line : List Char) : List Char :=
  match line.getLast? with
  | some '\r' => line.dropLast
  | _ => line

/-- All pieces but the last end in a line feed; an empty last piece is no line. -/
def linesOfPieces : List (List Char) → List (List Char)
  | [] => []
  | [final] => if final.isEmpty then [] else [final]
  | piece :: next :: rest => dropCarriageReturn piece :: linesOfPieces (next :: rest)

/-- The lines of a text, without their ends. -/
def lines (text : String) : List String :=
  (linesOfPieces (splitOnChar '\n' text.toList)).map String.ofList

/-- Letters, digits and the underscore of ASCII: the characters of a member name. -/
def isWordChar (character : Char) : Bool :=
  character.isAlphanum || character == '_'

end RecordSchema.Text
