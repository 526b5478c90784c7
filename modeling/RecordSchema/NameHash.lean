/-!
# Hashes of names

Two string hashes that a generated dispatcher can switch on. A hash is judged by its collisions on a
list of names: the names less the distinct hash values.
-/

set_option autoImplicit false

namespace RecordSchema

/-- The string hashes that a dispatcher may use, best liked first. -/
inductive NameHash where
  | djb2a
  | sdbm
deriving DecidableEq, Inhabited

/-- Names grouped by hash value; the values ascend, and a group keeps the order of the names. -/
abbrev NameBuckets := List (UInt32 × List String)

namespace NameHash

/-- All hashes in order of preference. -/
def all : List NameHash := [djb2a, sdbm]

def name : NameHash → String
  | djb2a => "djb2a"
  | sdbm => "sdbm"

/-- Value before the first byte. -/
def seed : NameHash → UInt32
  | djb2a => 5381
  | sdbm => 0

/-- Value after one more byte, in arithmetic modulo 2^32. -/
def step (function : NameHash) (value : UInt32) (byte : UInt8) : UInt32 :=
  match function with
  | djb2a => value * 33 ^^^ byte.toUInt32
  | sdbm => byte.toUInt32 + (value <<< 6) + (value <<< 16) - value

def hash (function : NameHash) (text : String) : UInt32 :=
  text.toUTF8.toList.foldl function.step function.seed

/-- Adds a name to the group of its hash value. -/
def insert (value : UInt32) (name : String) : NameBuckets → NameBuckets
  | [] => [(value, [name])]
  | bucket :: rest =>
    if value < bucket.1 then (value, [name]) :: bucket :: rest
    else if value = bucket.1 then (bucket.1, bucket.2 ++ [name]) :: rest
    else bucket :: insert value name rest

def buckets (function : NameHash) (names : List String) : NameBuckets :=
  names.foldl (fun groups name => insert (function.hash name) name groups) []

/-- How many names share their hash with an earlier name. -/
def collisions (function : NameHash) (names : List String) : Nat :=
  (function.buckets names).foldl (fun total bucket => total + (bucket.2.length - 1)) 0

/-- The earlier of two hashes unless the later has fewer collisions. -/
def better (names : List String) (best next : NameHash) : NameHash :=
  if next.collisions names < best.collisions names then next else best

/-- The hash with the fewest collisions on the names, the earliest of several, and their number. -/
def select (names : List String) : NameHash × Nat :=
  let best := all.foldl (better names) djb2a
  (best, best.collisions names)

end NameHash

end RecordSchema
