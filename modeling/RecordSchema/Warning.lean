/-!
# Warnings

What is worth telling about a schema that is accepted all the same.
-/

set_option autoImplicit false

namespace RecordSchema

/-- A remark on an accepted schema. -/
inductive Warning where
  /-- A constructor argument that initializes nothing. -/
  | idleArgument (path : String)
  /-- A type name that an earlier type goes by already. -/
  | claimedTwice (name kept dropped : String)
  /-- Too many names with one hash value. -/
  | crowdedBucket (hash : String) (value : UInt32) (size threshold : Nat)
deriving DecidableEq

def Warning.message : Warning → String
  | idleArgument _ => "constructor argument without destination; only a declaration is generated"
  | claimedTwice .. => "type name claimed twice, keeping the first"
  | crowdedBucket .. => "dispatch bucket exceeds threshold"

def Warning.details : Warning → List (String × String)
  | idleArgument path => [("path", path)]
  | claimedTwice name kept dropped => [("name", name), ("kept", kept), ("dropped", dropped)]
  | crowdedBucket hash value size threshold =>
    [("hash", hash), ("value", toString value), ("size", toString size),
      ("threshold", toString threshold)]

end RecordSchema
