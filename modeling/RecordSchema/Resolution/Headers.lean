import RecordSchema.Resolution.Lookup
import RecordSchema.Resolution.Names

/-!
# Headers of record types

The base, the config types, the identity and the tags of each record type, and two checks on all of
them together: no identity is declared twice, and no type is its own ancestor.
-/

set_option autoImplicit false

namespace RecordSchema.Resolution

/-- What a tag says about a record type. -/
def applyRecordTag (record : Record) (tag : Tag) : Record :=
  match tag.name, tag.argument with
  | "value_type", none => { record with valueType := true }
  | "config_type", none => { record with configType := true }
  | "external", _ => { record with external := true }
  | "no_sizeof", none => { record with noSizeof := true }
  | "cpp_name", some name => { record with cppName := some name }
  | "alias", some name => { record with aliases := record.aliases ++ [name] }
  | name, argument => { record with tags := record.tags.insert name argument }

def baseOf (model : Model) (pending : Pending RecordId Declaration.Record) :
    Except SchemaError (Option RecordId) :=
  match pending.declaration.base with
  | none => .ok none
  | some name =>
    match model.lookupRecord? pending.id name with
    | some base => .ok (some base)
    | none => .error (.unknownBase pending.path name)

/-- Adds the config type of a name unless it is there already. -/
def addConfig (model : Model) (pending : Pending RecordId Declaration.Record)
    (configs : List RecordId) (name : String) : Except SchemaError (List RecordId) :=
  match model.lookupRecord? pending.id name with
  | none => .error (.unresolvedReference pending.path name)
  | some config => .ok (if config ∈ configs then configs else configs ++ [config])

/-- The identity of a declaration. A version alone is none, an identifier alone is incomplete. -/
def identityOf (pending : Pending RecordId Declaration.Record) :
    Except SchemaError (Option Identity) :=
  match pending.declaration.typeId, pending.declaration.version with
  | some typeId, some version => .ok (some ⟨typeId, version⟩)
  | some _, none => .error (.missingField pending.path "version")
  | none, _ => .ok none

def resolveHeader (model : Model) (pending : Pending RecordId Declaration.Record) :
    Except SchemaError Model := do
  let base ← baseOf model pending
  let configs ← pending.declaration.configs.foldlM (addConfig model pending) []
  let identity ← identityOf pending
  .ok (model.modifyRecord pending.id fun record =>
    (Tag.parseAll pending.declaration.tags).foldl applyRecordTag
      { record with base, configs, identity })

/-- Refuses an identity that an earlier type has. -/
def checkIdentitiesFrom (model : Model) (seen : List (Identity × RecordId)) :
    List RecordId → Except SchemaError Unit
  | [] => .ok ()
  | id :: rest =>
    match (model.record id).identity with
    | none => checkIdentitiesFrom model seen rest
    | some identity =>
      match seen.lookup identity with
      | some first =>
        .error (.duplicateIdentity identity.typeId identity.version (model.recordPath first)
          (model.recordPath id))
      | none => checkIdentitiesFrom model ((identity, id) :: seen) rest

/-- Refuses identities that are declared twice. -/
def checkIdentities (model : Model) : Except SchemaError Unit :=
  checkIdentitiesFrom model [] model.recordIds

/-- The chain of bases from a type up to the first repetition, which is shown at its end; nothing if
the chain ends. The chain so far is given from its start. -/
def repeatingBases (model : Model) : Nat → List RecordId → Option RecordId → Option (List RecordId)
  | 0, _, _ => none
  | _, _, none => none
  | fuel + 1, chain, some base =>
    if base ∈ chain then some (chain ++ [base])
    else repeatingBases model fuel (chain ++ [base]) (model.record base).base

/-- Refuses types whose bases never end. -/
def checkInheritance (model : Model) : Except SchemaError Unit :=
  model.recordIds.forM fun id =>
    match repeatingBases model (model.records.size + 1) [id] (model.record id).base with
    | none => .ok ()
    | some chain => .error (.inheritanceCycle (model.recordPath id) (chain.map model.recordPath))

end RecordSchema.Resolution
