/-!
# Maps in order of their keys

A map from texts as a list of entries whose keys ascend by code point, none of them repeated.
-/

set_option autoImplicit false

namespace RecordSchema

/-- Entries with ascending keys. -/
abbrev SortedMap (α : Type) := List (String × α)

namespace SortedMap

/-- Adds an entry at its place; an entry of the same key is replaced. -/
def insert {α : Type} (key : String) (value : α) : SortedMap α → SortedMap α
  | [] => [(key, value)]
  | entry :: rest =>
    if key < entry.1 then (key, value) :: entry :: rest
    else if key = entry.1 then (key, value) :: rest
    else entry :: insert key value rest

/-- The map of a list of entries; of several with one key the last counts. -/
def ofList {α : Type} (entries : List (String × α)) : SortedMap α :=
  entries.foldl (fun map entry => insert entry.1 entry.2 map) []

end SortedMap

end RecordSchema
