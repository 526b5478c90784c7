import RecordSchema.Model.Navigation

/-!
# The order of layout

A record type is laid out after its base and after the record types that it embeds. The order takes
types without open dependencies first, in the order in which they lose their last one. What is left
over when no such type remains can reach a cycle.
-/

set_option autoImplicit false

namespace RecordSchema.Layout

/-- Whether laying a type out needs the layout of another: its base or the type of an attribute. -/
def dependsOn (model : Model) (record target : RecordId) : Bool :=
  (model.record record).base == some target ||
    (model.record record).attributes.any fun attr =>
      (model.attr attr).type == .record target

/-- The types that a type depends on, each once. -/
def dependencies (model : Model) (record : RecordId) : List RecordId :=
  model.recordIds.filter (dependsOn model record)

/-- The types that depend on a type, in order. -/
def dependents (model : Model) (record : RecordId) : List RecordId :=
  model.recordIds.filter fun other => dependsOn model other record

/-- The state of ordering: how many dependencies of each type are open, the types that wait for
their turn, and the types that have had it, the latest first. -/
structure Progress where
  openCount : Array Nat
  waiting : List RecordId
  done : List RecordId

/-- Takes one dependency off a type; a type that loses its last one waits for its turn. -/
def release (progress : Progress) (record : RecordId) : Progress :=
  let count := progress.openCount.getD record.index 0
  let reduced := progress.openCount.setIfInBounds record.index (count - 1)
  if count - 1 = 0 then
    { progress with openCount := reduced, waiting := progress.waiting ++ [record] }
  else { progress with openCount := reduced }

/-- Gives one type its turn. -/
def advance (model : Model) (progress : Progress) (record : RecordId) (rest : List RecordId) :
    Progress :=
  (dependents model record).foldl release
    { progress with waiting := rest, done := record :: progress.done }

/-- Gives turns as long as a type waits. -/
def run (model : Model) : Nat → Progress → Progress
  | 0, progress => progress
  | fuel + 1, progress =>
    match progress.waiting with
    | [] => progress
    | record :: rest => run model fuel (advance model progress record rest)

/-- Before the first turn. -/
def start (model : Model) : Progress :=
  let counts := model.recordIds.map fun record => (dependencies model record).length
  { openCount := counts.toArray
    waiting := model.recordIds.filter fun record => (dependencies model record).isEmpty
    done := [] }

/-- The order of layout, or the types that can reach a cycle. No type has more than one turn. -/
def order (model : Model) : Except (List RecordId) (List RecordId) :=
  let final := run model model.records.size (start model)
  if final.done.length = model.records.size then .ok final.done.reverse
  else .error (model.recordIds.filter fun record => 0 < final.openCount.getD record.index 0)

end RecordSchema.Layout
