import RecordSchema.Yaml.Property
import RecordSchema.Yaml.Scalar.Block
import RecordSchema.Yaml.Scalar.Quoted
import RecordSchema.Yaml.Token

/-!
# Reading tokens

The tokens of a text from left to right. Whether a scalar is the key of a mapping shows only when a
colon follows; then the tokens that should stand before it are put in at the place remembered for
it.
-/

set_option autoImplicit false

namespace RecordSchema.Yaml

/-- A place where a key may have begun. -/
structure PossibleKey where
  /-- Whether nothing else than a key can stand there. -/
  required : Bool
  /-- How many tokens stand before it. -/
  position : Nat
  index : Nat
  line : Nat
  column : Nat

/-- The tokens read so far and what is known of the rest of the text. -/
structure Lexer where
  cursor : Cursor
  tokens : Array Token := #[]
  /-- The column of the innermost block, if there is one. -/
  indent : Option Nat := none
  outerIndents : List (Option Nat) := []
  /-- Whether a key may begin here. -/
  keyAllowed : Bool := true
  key : Option PossibleKey := none
  /-- The places outside the brackets around the cursor; their number is the number of brackets. -/
  outerKeys : List (Option PossibleKey) := []

namespace Lexer

/-- Whether the cursor is between brackets. -/
def inFlow (lexer : Lexer) : Bool :=
  !lexer.outerKeys.isEmpty

def emit (token : Token) (next : Cursor) (lexer : Lexer) : Lexer :=
  { lexer with tokens := lexer.tokens.push token, cursor := next }

/-- Forgets the place where a key may have begun, unless there had to be one. -/
def dropKey? (lexer : Lexer) : Option Lexer :=
  if (lexer.key.map PossibleKey.required).getD false then none
  else some { lexer with key := none }

/-- Remembers that a key may begin here. -/
def markKey? (lexer : Lexer) : Option Lexer :=
  if lexer.keyAllowed then do
    let cursor := lexer.cursor
    let dropped ← lexer.dropKey?
    some
      { dropped with
        key := some
          { required := !lexer.inFlow && lexer.indent == some cursor.column
            position := lexer.tokens.size
            index := cursor.index
            line := cursor.line
            column := cursor.column } }
  else some lexer

/-- Whether a place is too far behind for a key: on an earlier line, or more than 1024 characters
back. -/
def isStale (cursor : Cursor) (key : PossibleKey) : Bool :=
  key.line < cursor.line || key.index + 1024 < cursor.index

/-- Forgets a place that is too far behind, unless there had to be a key. -/
def refreshKey? (cursor : Cursor) : Option PossibleKey → Option (Option PossibleKey)
  | none => some none
  | some key =>
    if isStale cursor key then if key.required then none else some none
    else some (some key)

/-- Forgets all places that are too far behind. -/
def refreshKeys? (lexer : Lexer) : Option Lexer := do
  let key ← refreshKey? lexer.cursor lexer.key
  let outerKeys ← lexer.outerKeys.mapM (refreshKey? lexer.cursor)
  some { lexer with key, outerKeys }

/-- Closes the blocks that start after a column, given the columns of those around them. -/
def closeFrom (column : Option Nat) : List (Option Nat) → Option Nat → Array Token →
    Option Nat × List (Option Nat) × Array Token
  | outer, none, tokens => (none, outer, tokens)
  | [], some indent, tokens => (some indent, [], tokens)
  | next :: outer, some indent, tokens =>
    if (column.map fun limit => decide (limit < indent)).getD true then
      closeFrom column outer next (tokens.push .blockEnd)
    else (some indent, next :: outer, tokens)

/-- Closes the blocks that start after a column, or all of them. Brackets keep blocks open. -/
def closeBlocks (column : Option Nat) (lexer : Lexer) : Lexer :=
  if lexer.inFlow then lexer
  else
    let (indent, outerIndents, tokens) := closeFrom column lexer.outerIndents lexer.indent lexer.tokens
    { lexer with indent, outerIndents, tokens }

def openBlock (column position : Nat) (token : Token) (lexer : Lexer) : Lexer :=
  if lexer.inFlow || !(lexer.indent.map fun indent => decide (indent < column)).getD true then lexer
  else
    { lexer with
      tokens := lexer.tokens.insertIdxIfInBounds position token
      indent := some column
      outerIndents := lexer.indent :: lexer.outerIndents }

/-- Opens a block at the cursor if there is none. Between brackets there are no blocks; elsewhere a
key must be allowed. -/
def openBlockHere? (token : Token) (lexer : Lexer) : Option Lexer :=
  if lexer.inFlow then some lexer
  else if lexer.keyAllowed then
    some (lexer.openBlock lexer.cursor.column lexer.tokens.size token)
  else none

/-- Says whether a key may begin after the token that comes next. -/
def allowKey (allowed : Bool) (lexer : Lexer) : Lexer :=
  { lexer with keyAllowed := allowed }

def keyToken? (read : Cursor → Option (Token × Cursor)) (lexer : Lexer) : Option Lexer := do
  let marked ← lexer.markKey?
  let (token, next) ← read lexer.cursor
  some ((marked.allowKey false).emit token next)

/-- Reads an opening bracket. -/
def open? (token : Token) (lexer : Lexer) : Option Lexer := do
  let marked ← lexer.markKey?
  let inner := { marked with key := none, outerKeys := marked.key :: marked.outerKeys }
  some ((inner.allowKey true).emit token (lexer.cursor.skip 1))

/-- Reads a closing bracket. -/
def close? (token : Token) (lexer : Lexer) : Option Lexer := do
  let dropped ← lexer.dropKey?
  let outer :=
    match dropped.outerKeys with
    | key :: outerKeys => { dropped with key, outerKeys }
    | [] => dropped
  some ((outer.allowKey false).emit token (lexer.cursor.skip 1))

/-- Reads a comma between the entries of brackets. -/
def flowEntry? (lexer : Lexer) : Option Lexer := do
  let dropped ← lexer.dropKey?
  some ((dropped.allowKey true).emit .flowEntry (lexer.cursor.skip 1))

/-- Reads the hyphen before an item of a block. -/
def blockEntry? (lexer : Lexer) : Option Lexer := do
  let opened ← lexer.openBlockHere? .blockSequenceStart
  let dropped ← opened.dropKey?
  some ((dropped.allowKey true).emit .blockEntry (lexer.cursor.skip 1))

/-- Reads the question mark before a key. -/
def keyMark? (lexer : Lexer) : Option Lexer := do
  let opened ← lexer.openBlockHere? .blockMappingStart
  let dropped ← opened.dropKey?
  some ((dropped.allowKey (!lexer.inFlow)).emit .key (lexer.cursor.skip 1))

/-- Reads the colon before a value. What began at the place remembered for a key has been one. -/
def valueMark? (lexer : Lexer) : Option Lexer :=
  let next := lexer.cursor.skip 1
  match lexer.key with
  | some key =>
    let marked := { lexer with
      tokens := lexer.tokens.insertIdxIfInBounds key.position .key
      key := none }
    let opened := marked.openBlock key.column key.position .blockMappingStart
    some ((opened.allowKey false).emit .value next)
  | none => do
    let opened ← lexer.openBlockHere? .blockMappingStart
    some ((opened.allowKey (!lexer.inFlow)).emit .value next)

/-- Reads a token before which all blocks end. -/
def outside? (read : Cursor → Option (Token × Cursor)) (lexer : Lexer) : Option Lexer := do
  let dropped ← (lexer.closeBlocks none).dropKey?
  let (token, next) ← read lexer.cursor
  some ((dropped.allowKey false).emit token next)

def scalarToken (style : ScalarStyle) (scanned : Scanned) : Token :=
  .scalar (String.ofList scanned.text) style

/-- Reads a block scalar. -/
def block? (literal : Bool) (lexer : Lexer) : Option Lexer := do
  let dropped ← lexer.dropKey?
  let scanned ← Block.scan? literal lexer.indent lexer.cursor
  let style := if literal then ScalarStyle.literal else ScalarStyle.folded
  some ((dropped.allowKey true).emit (scalarToken style scanned) scanned.next)

/-- Reads a quoted scalar. -/
def quoted? (single : Bool) (lexer : Lexer) : Option Lexer :=
  let style := if single then ScalarStyle.singleQuoted else ScalarStyle.doubleQuoted
  lexer.keyToken? fun cursor =>
    (Quoted.scan? single cursor).map fun scanned => (scalarToken style scanned, scanned.next)

/-- Reads a plain scalar. After one that goes over its line, a key may begin. -/
def plain? (lexer : Lexer) : Option Lexer := do
  let marked ← lexer.markKey?
  let margin := (lexer.indent.map (· + 1)).getD 0
  let scanned ← Plain.scan? lexer.inFlow margin lexer.cursor
  some ((marked.allowKey scanned.broken).emit (scalarToken .plain scanned) scanned.next)

def beginsPlain (flow : Bool) (character : Char) (after : Option Char) : Bool :=
  if character = '-' then !(after.map isBlank).getD false
  else if character = '?' ∨ character = ':' then !flow && !Cursor.missingOr isSpace after
  else !(isSpace character || ScalarStyle.indicators.contains character)

def tokenAt? (character : Char) (lexer : Lexer) : Option Lexer :=
  let cursor := lexer.cursor
  let stands := cursor.gapAt 1
  match character with
  | '[' => lexer.open? .flowSequenceStart
  | '\x7b' => lexer.open? .flowMappingStart
  | ']' => lexer.close? .flowSequenceEnd
  | '\x7d' => lexer.close? .flowMappingEnd
  | ',' => lexer.flowEntry?
  | '*' => lexer.keyToken? fun start =>
    (Property.anchorName? (start.skip 1)).map fun (name, next) => (.alias name, next)
  | '&' => lexer.keyToken? fun start =>
    (Property.anchorName? (start.skip 1)).map fun (name, next) => (.anchor name, next)
  | '!' => lexer.keyToken? (Property.tag? lexer.inFlow)
  | '\x27' => lexer.quoted? true
  | '\x22' => lexer.quoted? false
  | _ =>
    if character = '-' ∧ stands then lexer.blockEntry?
    else if character = '?' ∧ (lexer.inFlow ∨ stands) then lexer.keyMark?
    else if character = ':' ∧ (lexer.inFlow ∨ stands) then lexer.valueMark?
    else if character = '|' ∧ !lexer.inFlow then lexer.block? true
    else if character = '>' ∧ !lexer.inFlow then lexer.block? false
    else if beginsPlain lexer.inFlow character (cursor.peek? 1) then lexer.plain?
    else none

/-- Skips blanks, comments and line breaks. Tabs are skipped where no key may begin; outside brackets
a key may begin on every new line. -/
def skipBlanks : Nat → Lexer → Lexer
  | 0, lexer => lexer
  | fuel + 1, lexer =>
    let start := lexer.cursor
    let marked := if start.column == 0 && start.at? (· == '\uFEFF') then start.skip 1 else start
    let tabs := lexer.inFlow || !lexer.keyAllowed
    let blank := marked.skipWhile fun character => character == ' ' || (tabs && character == '\t')
    let comment :=
      if blank.at? (· == '#') then blank.skipWhile fun character => !isBreak character else blank
    match comment.lineBreak? with
    | some (_, next) =>
      skipBlanks fuel { lexer with cursor := next, keyAllowed := lexer.keyAllowed || !lexer.inFlow }
    | none => { lexer with cursor := comment }

/-- Reads a mark between documents. -/
def marker? (cursor : Cursor) : Option (Token × Cursor) :=
  match cursor.head? with
  | some '-' => some (.documentStart, cursor.skip 3)
  | _ => some (.documentEnd, cursor.skip 3)

/-- Reads one token at a character that is neither a blank nor part of a comment. -/
def token? (character : Char) (lexer : Lexer) : Option Lexer :=
  if lexer.cursor.column = 0 ∧ character = '%' then lexer.outside? Property.directive?
  else if lexer.cursor.atMarker then lexer.outside? marker?
  else lexer.tokenAt? character

/-- Goes to the next token: what it stands outside of is closed before it. -/
def advance? (lexer : Lexer) : Option Lexer := do
  let next := lexer.skipBlanks (lexer.cursor.rest.length + 1)
  let refreshed ← next.refreshKeys?
  some (refreshed.closeBlocks (some refreshed.cursor.column))

/-- Reads tokens to the end of the text. -/
def run? : Nat → Lexer → Option Lexer
  | 0, _ => none
  | fuel + 1, lexer => do
    let next ← lexer.advance?
    match next.cursor.head? with
    | some character => run? fuel (← next.token? character)
    | none => (next.closeBlocks none).dropKey?

end Lexer

/-- The characters that may stand in a document: tab, line breaks, and all that are neither control
characters nor without meaning. -/
def isAllowed (character : Char) : Bool :=
  let code := character.toNat
  code == 0x09 || code == 0x0A || code == 0x0D || (0x20 ≤ code && code ≤ 0x7E) || code == 0x85 ||
    (0xA0 ≤ code && code ≤ 0xD7FF) || (0xE000 ≤ code && code ≤ 0xFFFD) || 0x10000 ≤ code

def withoutMark : List Char → List Char
  | '\uFEFF' :: rest => rest
  | text => text

/-- The tokens of a text. Every step but the last reads a character at least. -/
def tokens? (text : String) : Option (List Token) := do
  let characters := withoutMark text.toList
  if characters.all isAllowed then
    let lexer ← Lexer.run? (characters.length + 1) { cursor := { rest := characters } }
    some lexer.tokens.toList
  else none

end RecordSchema.Yaml
