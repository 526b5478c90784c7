import RecordSchema.Yaml.Cursor

/-!
# Gaps between words

In a scalar of several lines, what stands between two words is folded: one line break becomes a
space, further ones are kept, and blanks around them are dropped.
-/

set_option autoImplicit false

namespace RecordSchema.Yaml

/-- What stands between two words. -/
structure Gap where
  /-- Blanks before any line break. -/
  blanks : List Char := []
  /-- The first line break; one that has been escaped is empty. -/
  first : Option (List Char) := none
  /-- Further line breaks. -/
  further : List Char := []
deriving Inhabited

namespace Gap

/-- A gap that begins with an escaped line break. -/
def escaped : Gap :=
  { first := some [] }

/-- Whether a gap goes over a line break. -/
def isBroken (gap : Gap) : Bool :=
  gap.first.isSome

def fold (gap : Gap) : List Char :=
  match gap.first with
  | none => gap.blanks
  | some ['\n'] => if gap.further.isEmpty then [' '] else gap.further
  | some first => first ++ gap.further

/-- Adds a line break. -/
def addBreak (gap : Gap) (meant : Char) : Gap :=
  match gap.first with
  | none => { gap with blanks := [], first := some [meant] }
  | some _ => { gap with further := gap.further ++ [meant] }

def addBlank (gap : Gap) (character : Char) : Gap :=
  if gap.isBroken then gap else { gap with blanks := gap.blanks ++ [character] }

/-- Reads blanks and line breaks. A tab in front of the given column of a later line is refused. -/
def read (margin : Nat) : Nat → Gap → Cursor → Option (Gap × Cursor)
  | 0, gap, cursor => some (gap, cursor)
  | fuel + 1, gap, cursor =>
    match cursor.lineBreak? with
    | some (meant, next) => read margin fuel (gap.addBreak meant) next
    | none =>
      match cursor.head? with
      | some character =>
        if isBlank character then
          if gap.isBroken && character == '\t' && cursor.column < margin then none
          else read margin fuel (gap.addBlank character) (cursor.skip 1)
        else some (gap, cursor)
      | none => some (gap, cursor)

def scan (margin : Nat) (start : Gap) (cursor : Cursor) : Option (Gap × Cursor) :=
  read margin cursor.rest.length start cursor

end Gap

end RecordSchema.Yaml
