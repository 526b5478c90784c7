import RecordSchema.Yaml.ScalarStyle

/-!
# Nodes

A document as a tree. Nodes may have a name, by which an alias elsewhere in the document stands for
them. A name may be given to several nodes; names are then told apart by numbers.
-/

set_option autoImplicit false

namespace RecordSchema.Yaml

/-- A node of a document whose anchors and aliases are of some type. -/
inductive Node (α : Type) where
  | scalar (anchor : Option α) (tag : Option String) (style : ScalarStyle) (text : String)
  | sequence (anchor : Option α) (items : List (Node α))
  | mapping (anchor : Option α) (entries : List (Node α × Node α))
  | alias (target : α)
deriving Inhabited

namespace Node

/-- A scalar without any characters. -/
def empty {α : Type} (anchor : Option α) (tag : Option String) : Node α :=
  .scalar anchor tag .plain ""

section

variable {α : Type}

mutual

/-- Number of the marks that a document is made of: one for a scalar or an alias, two for a sequence
or mapping besides what is in it. -/
def size : Node α → Nat
  | .scalar .. => 1
  | .alias _ => 1
  | .sequence _ items => sizeOfItems items + 2
  | .mapping _ entries => sizeOfEntries entries + 2

/-- Number of the marks of the items of a sequence. -/
def sizeOfItems : List (Node α) → Nat
  | [] => 0
  | item :: rest => size item + sizeOfItems rest

/-- Number of the marks of the entries of a mapping. -/
def sizeOfEntries : List (Node α × Node α) → Nat
  | [] => 0
  | (key, value) :: rest => size key + size value + sizeOfEntries rest

end

def under (anchor : Option α) (node : Node α) : List (α × Node α) :=
  match anchor with
  | some name => [(name, node)]
  | none => []

mutual

/-- The nodes that have an anchor, in the order in which they begin. -/
def anchored : Node α → List (α × Node α)
  | .alias _ => []
  | .scalar anchor tag style text => under anchor (.scalar anchor tag style text)
  | .sequence anchor items => under anchor (.sequence anchor items) ++ anchoredItems items
  | .mapping anchor entries => under anchor (.mapping anchor entries) ++ anchoredEntries entries

def anchoredItems : List (Node α) → List (α × Node α)
  | [] => []
  | item :: rest => anchored item ++ anchoredItems rest

def anchoredEntries : List (Node α × Node α) → List (α × Node α)
  | [] => []
  | (key, value) :: rest => anchored key ++ anchored value ++ anchoredEntries rest

end

end

/-- The numbers by which the names met so far are known, and how many names there are. -/
structure Numbering where
  numbers : List (String × Nat) := []
  count : Nat := 0

/-- Gives a name its number: how many names there have been before. A name that is given again gets a
new number without adding to the count. -/
def Numbering.add (numbering : Numbering) (name : String) : Nat × Numbering :=
  let known := (numbering.numbers.lookup name).isSome
  (numbering.count,
    { numbers := (name, numbering.count) :: numbering.numbers
      count := if known then numbering.count else numbering.count + 1 })

def Numbering.addAnchor (numbering : Numbering) : Option String → Option Nat × Numbering
  | none => (none, numbering)
  | some name =>
    let (number, next) := numbering.add name
    (some number, next)

mutual

/-- Replaces names by numbers. An alias stands for a name that has been given before it. -/
def number? (numbering : Numbering) : Node String → Option (Node Nat × Numbering)
  | .alias name => (numbering.numbers.lookup name).map fun target => (.alias target, numbering)
  | .scalar anchor tag style text =>
    let (anchor, next) := numbering.addAnchor anchor
    some (.scalar anchor tag style text, next)
  | .sequence anchor items => do
    let (anchor, next) := numbering.addAnchor anchor
    let (items, last) ← numberItems? next items
    some (.sequence anchor items, last)
  | .mapping anchor entries => do
    let (anchor, next) := numbering.addAnchor anchor
    let (entries, last) ← numberEntries? next entries
    some (.mapping anchor entries, last)

/-- Replaces the names in the items of a sequence. -/
def numberItems? (numbering : Numbering) : List (Node String) → Option (List (Node Nat) × Numbering)
  | [] => some ([], numbering)
  | item :: rest => do
    let (item, next) ← number? numbering item
    let (items, last) ← numberItems? next rest
    some (item :: items, last)

/-- Replaces the names in the entries of a mapping. -/
def numberEntries? (numbering : Numbering) :
    List (Node String × Node String) → Option (List (Node Nat × Node Nat) × Numbering)
  | [] => some ([], numbering)
  | (key, value) :: rest => do
    let (key, middle) ← number? numbering key
    let (value, next) ← number? middle value
    let (entries, last) ← numberEntries? next rest
    some ((key, value) :: entries, last)

end

end Node

end RecordSchema.Yaml
