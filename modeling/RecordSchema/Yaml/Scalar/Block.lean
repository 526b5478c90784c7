import RecordSchema.Text.Numeral
import RecordSchema.Yaml.Scalar.Plain

/-!
# Block scalars

After a bar or an angle bracket, the lines that are indented more deeply are the text. A bar keeps
their line breaks, an angle bracket folds them.
-/

set_option autoImplicit false

namespace RecordSchema.Yaml.Block

/-- What is done with the line breaks at the end of a block. -/
inductive Chomping where
  /-- All are dropped. -/
  | strip
  | clip
  /-- All are kept. -/
  | keep
deriving DecidableEq

/-- What the first line of a block says. -/
structure Header where
  chomping : Chomping := .clip
  /-- How much more the lines are indented than what is around them, if it is said. -/
  increment : Option Nat := none

/-- Reads a sign that says what is done with line breaks at the end. -/
def chomping? (cursor : Cursor) : Option (Chomping × Cursor) :=
  match cursor.head? with
  | some '+' => some (.keep, cursor.skip 1)
  | some '-' => some (.strip, cursor.skip 1)
  | _ => none

/-- Reads a digit that gives the indentation, if there is one; a zero is refused. -/
def increment? (cursor : Cursor) : Option (Option Nat × Cursor) :=
  match cursor.head?.bind Numeral.digit? with
  | none => some (none, cursor)
  | some 0 => none
  | some digit => some (some digit, cursor.skip 1)

/-- Reads the sign and the digit after the mark of a block, in either order. -/
def header? (cursor : Cursor) : Option (Header × Cursor) :=
  match chomping? cursor with
  | some (chomping, next) => do
    let (increment, rest) ← increment? next
    some (⟨chomping, increment⟩, rest)
  | none => do
    let (increment, next) ← increment? cursor
    match increment, chomping? next with
    | some _, some (chomping, rest) => some (⟨chomping, increment⟩, rest)
    | _, _ => some (⟨.clip, increment⟩, next)

/-- Skips blanks and a comment to the end of a line; nothing else may stand there. -/
def lineEnd? (cursor : Cursor) : Option Cursor :=
  let next := cursor.skipWhile isBlank
  let rest := if next.at? (· == '#') then next.skipWhile fun character => !isBreak character else next
  if rest.atLineEnd then some ((rest.lineBreak?.map Prod.snd).getD rest) else none

/-- The empty lines before a line of text. -/
structure Leading where
  breaks : List Char := []
  /-- The deepest indentation met. -/
  deepest : Nat := 0
  next : Cursor

/-- Reads the indentation of a line, to the given column if there is one. A tab does not indent. -/
def indentation? (indent : Option Nat) (cursor : Cursor) : Option Cursor :=
  let spaces := (cursor.rest.takeWhile (· == ' ')).length
  let count := match indent with
    | some column => min spaces (column - cursor.column)
    | none => spaces
  let next := cursor.skip count
  let short := match indent with
    | some column => next.column < column
    | none => true
  if short && next.at? (· == '\t') then none else some next

/-- Reads empty lines and the indentation of the line after them. -/
def leading? (indent : Option Nat) : Nat → Leading → Option Leading
  | 0, leading => some leading
  | fuel + 1, leading => do
    let next ← indentation? indent leading.next
    let deepest := max leading.deepest next.column
    match next.lineBreak? with
    | some (meant, start) => leading? indent fuel ⟨leading.breaks ++ [meant], deepest, start⟩
    | none => some ⟨leading.breaks, deepest, next⟩

def emptyLines? (indent : Option Nat) (cursor : Cursor) : Option Leading :=
  leading? indent (cursor.rest.length + 1) { next := cursor }

/-- A block as far as it has been read. -/
structure Lines where
  text : List Char := []
  /-- The line break after the last line. -/
  last : List Char := []
  /-- Whether the last line began with a blank. -/
  blank : Bool := false
  /-- The empty lines after it, and where the next line starts. -/
  leading : Leading

/-- The line break between two lines: kept in a literal block and around lines that begin with a
blank, and otherwise folded. -/
def joint (literal : Bool) (lines : Lines) (blank : Bool) : List Char :=
  if !literal && lines.last == ['\n'] && !lines.blank && !blank then
    if lines.leading.breaks.isEmpty then [' '] else []
  else lines.last

/-- Reads one line of text, its line break and the empty lines after it. -/
def line? (literal : Bool) (indent : Nat) (lines : Lines) : Option Lines := do
  let start := lines.leading.next
  let blank := start.at? isBlank
  let (content, stop) := start.take fun character => !isBreak character
  let (last, next) := match stop.lineBreak? with
    | some (meant, next) => ([meant], next)
    | none => ([], stop)
  some
    { text := lines.text ++ joint literal lines blank ++ lines.leading.breaks ++ content
      last
      blank
      leading := ← emptyLines? (some indent) next }

/-- Reads the lines of text of a block. -/
def lines? (literal : Bool) (indent : Nat) : Nat → Lines → Option Lines
  | 0, lines => some lines
  | fuel + 1, lines =>
    if lines.leading.next.column = indent && !lines.leading.next.rest.isEmpty then do
      lines? literal indent fuel (← line? literal indent lines)
    else some lines

/-- The line breaks at the end of a block as far as they are kept. -/
def finalBreaks (chomping : Chomping) (lines : Lines) : List Char :=
  match chomping with
  | .strip => []
  | .clip => lines.last
  | .keep => lines.last ++ lines.leading.breaks

/-- Reads a block at its mark. The column is that of what is around it, if there is anything. -/
def scan? (literal : Bool) (around : Option Nat) (cursor : Cursor) : Option Scanned := do
  let (header, afterHeader) ← header? (cursor.skip 1)
  let start ← lineEnd? afterHeader
  let given := header.increment.map (around.getD 0 + ·)
  let leading ← emptyLines? given start
  let smallest := match around with
    | some column => column + 1
    | none => 1
  let indent := given.getD (max leading.deepest smallest)
  let lines ← lines? literal indent (start.rest.length + 1) { leading }
  some
    { text := lines.text ++ finalBreaks header.chomping lines
      next := lines.leading.next }

end RecordSchema.Yaml.Block
