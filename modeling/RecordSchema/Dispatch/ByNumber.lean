import RecordSchema.Model.Navigation

/-!
# Dispatch by type number

Raw records come with the number of their type and a version. This module says which record type is
responsible for which pair, as a two-level case distinction.
-/

set_option autoImplicit false

namespace RecordSchema.Dispatch

/-- The bit in a version number that marks a compressed record. -/
def compressedFlag : UInt32 := 0x8000

/-- A version of a type number and the record type that is responsible for it. -/
structure VersionCase where
  version : UInt32
  record : RecordId
deriving DecidableEq

/-- What is done for a type number. -/
inductive NumberArm where
  | ignored
  /-- Versions ascend, none of them repeated. -/
  | versions (cases : List VersionCase)
deriving DecidableEq

/-- The case distinction: type numbers ascend, none of them repeated. -/
abbrev NumberSwitch := List (UInt32 × NumberArm)

/-- The type numbers and versions for which a record type is responsible: its own, and the compressed
form of it unless it is a config type. -/
def versionClaims (model : Model) (id : RecordId) : List (UInt32 × VersionCase) :=
  let record := model.record id
  match record.identity with
  | none => []
  | some identity =>
    let plain := (identity.typeId, ⟨identity.version, id⟩)
    if record.configType then [plain]
    else [plain, (identity.typeId, ⟨identity.version ||| compressedFlag, id⟩)]

/-- Numbers in order, without repetition. -/
def ascending (numbers : List UInt32) : List UInt32 :=
  (numbers.mergeSort fun left right => left ≤ right).eraseReps

/-- Keeps the first of several cases of one version that follow each other. -/
def dropRepeatedVersions : List VersionCase → List VersionCase
  | [] => []
  | first :: rest =>
    first :: (dropRepeatedVersions rest).dropWhile fun next => next.version == first.version

/-- The cases for one type number; of several claims on a version the first counts. -/
def versionCases (claims : List (UInt32 × VersionCase)) (number : UInt32) : List VersionCase :=
  let own := claims.filterMap fun claim => if claim.1 = number then some claim.2 else none
  dropRepeatedVersions (own.mergeSort fun left right => left.version ≤ right.version)

/-- The case distinction for record types, given the type numbers to be ignored. -/
def numberSwitch (model : Model) (records : List RecordId) (ignored : List UInt32) : NumberSwitch :=
  let claims := records.flatMap (versionClaims model)
  (ascending (claims.map Prod.fst ++ ignored)).map fun number =>
    (number, if number ∈ ignored then .ignored else .versions (versionCases claims number))

def NumberArm.target? (version : UInt32) : NumberArm → Option RecordId
  | ignored => none
  | versions cases => (cases.find? fun entry => entry.version == version).map VersionCase.record

/-- The record type that a case distinction leads to. -/
def NumberSwitch.target? (switch : NumberSwitch) (number version : UInt32) : Option RecordId :=
  (switch.lookup number).bind (NumberArm.target? version)

end RecordSchema.Dispatch
