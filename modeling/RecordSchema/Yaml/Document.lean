import RecordSchema.Yaml.Lexer
import RecordSchema.Yaml.Node

/-!
# Documents

The grammar of a document over its tokens. A text holds one document at most; a text without any is
read as an empty scalar.
-/

set_option autoImplicit false

namespace RecordSchema.Yaml

/-- What tag handles stand for, the first entry of a handle counting. -/
abbrev TagHandles := List (String × String)

/-- What stands before a node. -/
structure Properties where
  anchor : Option String := none
  tag : Option String := none

namespace Grammar

/-- The handles that need no declaration. -/
def standardHandles : TagHandles :=
  [("!", "!"), ("!!", "tag:yaml.org,2002:")]

/-- The full form of a tag; a handle that stands for nothing is refused. -/
def fullTag? (handles : TagHandles) (handle suffix : String) : Option String :=
  if handle.isEmpty then some suffix else (handles.lookup handle).map (· ++ suffix)

/-- Reads an anchor and a tag in either order. -/
def properties? (handles : TagHandles) : List Token → Option (Properties × List Token)
  | .anchor name :: .tag handle suffix :: rest => do
    some (⟨some name, some (← fullTag? handles handle suffix)⟩, rest)
  | .anchor name :: rest => some (⟨some name, none⟩, rest)
  | .tag handle suffix :: .anchor name :: rest => do
    some (⟨some name, some (← fullTag? handles handle suffix)⟩, rest)
  | .tag handle suffix :: rest => do
    some (⟨none, some (← fullTag? handles handle suffix)⟩, rest)
  | tokens => some ({}, tokens)

/-- The tag of a scalar; a single exclamation mark is none. -/
def scalarTag (properties : Properties) : Option String :=
  if properties.tag = some "!" then none else properties.tag

/-- The node where only an anchor or a tag is written. -/
def bareNode? (properties : Properties) : Option (Node String) :=
  if properties.anchor.isSome || properties.tag.isSome then
    some (.empty properties.anchor properties.tag)
  else none

/-- Whether the next token is one of some. -/
def startsWith (ends : List Token) (tokens : List Token) : Bool :=
  (tokens.head?.map ends.contains).getD false

/-- Skips the comma between two entries; there is none before the first. -/
def afterComma? (first : Bool) (tokens : List Token) : Option (List Token) :=
  if first then some tokens
  else
    match tokens with
    | .flowEntry :: rest => some rest
    | _ => none

mutual

/-- Reads a node. Blocks are read only where they may stand, and a sequence without indentation of its
own only as a part of a mapping. -/
def node? (handles : TagHandles) (block unindented : Bool) :
    Nat → List Token → Option (Node String × List Token)
  | 0, _ => none
  | _ + 1, .alias name :: rest => some (.alias name, rest)
  | fuel + 1, tokens => do
    let (properties, rest) ← properties? handles tokens
    let anchor := properties.anchor
    match rest with
    | .scalar text style :: after => some (.scalar anchor (scalarTag properties) style text, after)
    | .flowSequenceStart :: after => do
      let (items, last) ← flowItems? handles true fuel after
      some (.sequence anchor items, last)
    | .flowMappingStart :: after => do
      let (entries, last) ← flowEntries? handles true fuel after
      some (.mapping anchor entries, last)
    | .blockEntry :: _ =>
      if unindented then do
        let (items, last) ← unindentedItems? handles fuel rest
        some (.sequence anchor items, last)
      else (bareNode? properties).map (·, rest)
    | .blockSequenceStart :: after =>
      if block then do
        let (items, last) ← blockItems? handles fuel after
        some (.sequence anchor items, last)
      else (bareNode? properties).map (·, rest)
    | .blockMappingStart :: after =>
      if block then do
        let (entries, last) ← blockEntries? handles fuel after
        some (.mapping anchor entries, last)
      else (bareNode? properties).map (·, rest)
    | _ => (bareNode? properties).map (·, rest)

/-- Reads a node unless one of the tokens comes that can follow where it is left out. -/
def nodeUnless? (handles : TagHandles) (block unindented : Bool) (ends : List Token) :
    Nat → List Token → Option (Node String × List Token)
  | 0, _ => none
  | fuel + 1, tokens =>
    if startsWith ends tokens then some (.empty none none, tokens)
    else node? handles block unindented fuel tokens

/-- Reads the value of an entry after its colon; without a colon it is empty. -/
def value? (handles : TagHandles) (block : Bool) (ends : List Token) :
    Nat → List Token → Option (Node String × List Token)
  | 0, _ => none
  | fuel + 1, .value :: rest => nodeUnless? handles block block ends fuel rest
  | _ + 1, tokens => some (.empty none none, tokens)

/-- Reads the items of a block sequence to its end. -/
def blockItems? (handles : TagHandles) : Nat → List Token → Option (List (Node String) × List Token)
  | 0, _ => none
  | fuel + 1, .blockEntry :: rest => do
    let (item, next) ← nodeUnless? handles true false [.blockEntry, .blockEnd] fuel rest
    let (items, last) ← blockItems? handles fuel next
    some (item :: items, last)
  | _ + 1, .blockEnd :: rest => some ([], rest)
  | _ + 1, _ => none

/-- Reads the items of a sequence without indentation of its own. -/
def unindentedItems? (handles : TagHandles) :
    Nat → List Token → Option (List (Node String) × List Token)
  | 0, _ => none
  | fuel + 1, .blockEntry :: rest => do
    let (item, next) ←
      nodeUnless? handles true false [.blockEntry, .key, .value, .blockEnd] fuel rest
    let (items, last) ← unindentedItems? handles fuel next
    some (item :: items, last)
  | _ + 1, tokens => some ([], tokens)

/-- Reads the entries of a block mapping to its end. -/
def blockEntries? (handles : TagHandles) :
    Nat → List Token → Option (List (Node String × Node String) × List Token)
  | 0, _ => none
  | fuel + 1, .key :: rest => do
    let ends : List Token := [.key, .value, .blockEnd]
    let (key, middle) ← nodeUnless? handles true true ends fuel rest
    let (value, next) ← value? handles true ends fuel middle
    let (entries, last) ← blockEntries? handles fuel next
    some ((key, value) :: entries, last)
  | _ + 1, .blockEnd :: rest => some ([], rest)
  | _ + 1, _ => none

/-- Reads a key with its value as an item of a sequence between brackets. Where the key is left out,
the token after the question mark is taken for it. -/
def pair? (handles : TagHandles) : Nat → List Token → Option (Node String × List Token)
  | 0, _ => none
  | fuel + 1, tokens => do
    let (key, middle) ←
      if startsWith [.value, .flowEntry, .flowSequenceEnd] tokens then
        some (.empty none none, tokens.drop 1)
      else node? handles false false fuel tokens
    let (value, last) ← value? handles false [.flowEntry, .flowSequenceEnd] fuel middle
    some (.mapping none [(key, value)], last)

/-- Reads the items of a sequence to its closing bracket. -/
def flowItems? (handles : TagHandles) (first : Bool) :
    Nat → List Token → Option (List (Node String) × List Token)
  | 0, _ => none
  | _ + 1, .flowSequenceEnd :: rest => some ([], rest)
  | fuel + 1, tokens => do
    match ← afterComma? first tokens with
    | .flowSequenceEnd :: rest => some ([], rest)
    | .key :: rest =>
      let (item, next) ← pair? handles fuel rest
      let (items, last) ← flowItems? handles false fuel next
      some (item :: items, last)
    | start =>
      let (item, next) ← node? handles false false fuel start
      let (items, last) ← flowItems? handles false fuel next
      some (item :: items, last)

/-- Reads the entries of a mapping to its closing brace. An entry without a question mark or colon is
a key alone. -/
def flowEntries? (handles : TagHandles) (first : Bool) :
    Nat → List Token → Option (List (Node String × Node String) × List Token)
  | 0, _ => none
  | _ + 1, .flowMappingEnd :: rest => some ([], rest)
  | fuel + 1, tokens => do
    match ← afterComma? first tokens with
    | .flowMappingEnd :: rest => some ([], rest)
    | .key :: rest =>
      let ends : List Token := [.flowEntry, .flowMappingEnd]
      let (key, middle) ← nodeUnless? handles false false (.value :: ends) fuel rest
      let (value, next) ← value? handles false ends fuel middle
      let (entries, last) ← flowEntries? handles false fuel next
      some ((key, value) :: entries, last)
    | start =>
      let (key, next) ← node? handles false false fuel start
      let (entries, last) ← flowEntries? handles false fuel next
      some ((key, .empty none none) :: entries, last)

end

/-- What the directives before a document say. -/
structure Directives where
  versioned : Bool := false
  handles : TagHandles := []

/-- Reads directives up to the mark where the document begins. -/
def directives? (said : Directives) : List Token → Option (Directives × List Token)
  | .version major minor :: rest =>
    if said.versioned || major != 1 || (minor != 1 && minor != 2) then none
    else directives? { said with versioned := true } rest
  | .tagHandle handle meaning :: rest =>
    if (said.handles.lookup handle).isSome then none
    else directives? { said with handles := said.handles ++ [(handle, meaning)] } rest
  | .documentStart :: rest => some (said, rest)
  | _ => none

def isOutside : Token → Bool
  | .version .. | .tagHandle .. | .documentStart | .documentEnd => true
  | _ => false

def isEmptyDocument (tokens : List Token) : Bool :=
  (tokens.head?.map isOutside).getD true

/-- Enough steps to read tokens: three for each, since some steps read none. -/
def fuelFor (tokens : List Token) : Nat :=
  3 * tokens.length + 3

/-- Reads the root of a document. -/
def root? (handles : TagHandles) (tokens : List Token) : Option (Node String × List Token) :=
  node? (handles ++ standardHandles) true false (fuelFor tokens) tokens

/-- Reads a document that begins with a mark or directives. -/
def explicitDocument? (tokens : List Token) : Option (Node String × List Token) := do
  let (said, rest) ← directives? {} tokens
  if isEmptyDocument rest then some (.empty none none, rest) else root? said.handles rest

/-- Whether a document begins with a mark or directives. -/
def isExplicit : List Token → Bool
  | .version .. :: _ | .tagHandle .. :: _ | .documentStart :: _ => true
  | _ => false

/-- Reads the first document. -/
def document? (tokens : List Token) : Option (Node String × List Token) :=
  if tokens.isEmpty then some (.empty none none, [])
  else if isExplicit tokens then explicitDocument? tokens
  else root? [] tokens

def isDocumentEnd (token : Token) : Bool :=
  token == .documentEnd

end Grammar

/-- The document of a text of at most one document. -/
def Node.ofTokens? (tokens : List Token) : Option (Node Nat) := do
  let (root, rest) ← Grammar.document? tokens
  if (rest.dropWhile Grammar.isDocumentEnd).isEmpty then
    some (← root.number? {}).1
  else none

/-- Reads a text of at most one document. -/
def parse? (text : String) : Option (Node Nat) :=
  (tokens? text).bind Node.ofTokens?

end RecordSchema.Yaml
