import RecordSchema.Cpp.Name
import RecordSchema.NameHash
import RecordSchema.Warning

/-!
# Dispatch by type name

Stored records come with the name of their type. This module collects the names under which record
types are known and distinguishes them, first by hash value and then, where several names share one,
by comparison.
-/

set_option autoImplicit false

namespace RecordSchema.Dispatch

/-- A name and the record type that goes by it. -/
abbrev NameClaim := String × RecordId

/-- What is done for a hash value. -/
inductive NameArm where
  /-- The only name with the value; it is not compared. -/
  | sole (claim : NameClaim)
  | compared (claims : List NameClaim)
deriving DecidableEq

/-- The case distinction: hash values ascend, none of them repeated. -/
structure NameSwitch where
  function : NameHash
  arms : List (UInt32 × NameArm)

/-- Whether a record type can be found by name: not if all its schemas ask to be left out. -/
def isNamed (record : Record) : Bool :=
  record.schemas.isEmpty || !record.schemas.all StorageSchema.skipProxy

/-- The names of a record type: its class and its aliases. -/
def namesOf (model : Model) (id : RecordId) : List NameClaim :=
  (Cpp.typeName model id :: (model.record id).aliases).map (·, id)

/-- Adds a claim on a name. The first claim on it counts; another type that claims it later is worth
a warning. -/
def addClaim (model : Model) (state : List NameClaim × List Warning) (claim : NameClaim) :
    List NameClaim × List Warning :=
  match state.1.lookup claim.1 with
  | none => (state.1 ++ [claim], state.2)
  | some owner =>
    if owner = claim.2 then state
    else
      (state.1,
        state.2 ++ [.claimedTwice claim.1 (model.recordPath owner) (model.recordPath claim.2)])

def nameClaims (model : Model) (records : List RecordId) : List NameClaim × List Warning :=
  let named := records.filter fun id => isNamed (model.record id)
  (named.flatMap (namesOf model)).foldl (addClaim model) ([], [])

/-- What is done for the names of one hash value. -/
def nameArm (claims : List NameClaim) (names : List String) : NameArm :=
  match names.filterMap fun name => (claims.lookup name).map (name, ·) with
  | [claim] => .sole claim
  | several => .compared several

/-- The case distinction over names by the hash that suits them best, and how many collisions it
has. -/
def nameSwitch (claims : List NameClaim) : NameSwitch × Nat :=
  let names := claims.map Prod.fst
  let (function, collisions) := NameHash.select names
  (⟨function, (function.buckets names).map fun bucket => (bucket.1, nameArm claims bucket.2)⟩,
    collisions)

def NameArm.claims : NameArm → List NameClaim
  | sole claim => [claim]
  | compared claims => claims

/-- The record type that an arm leads to. A sole name is taken for granted. -/
def NameArm.target? (name : String) : NameArm → Option RecordId
  | sole claim => some claim.2
  | compared claims => claims.lookup name

/-- The record type that a case distinction leads to. -/
def NameSwitch.target? (switch : NameSwitch) (name : String) : Option RecordId :=
  (switch.arms.lookup (switch.function.hash name)).bind (NameArm.target? name)

/-- The warnings for hash values that more names share than is welcome. -/
def NameSwitch.crowded (switch : NameSwitch) (threshold : Nat) : List Warning :=
  switch.arms.filterMap fun arm =>
    let size := arm.2.claims.length
    if threshold < size then some (.crowdedBucket switch.function.name arm.1 size threshold) else none

end RecordSchema.Dispatch
