import Mathlib.Data.List.Pairwise
import RecordSchema.Proofs.Model.Paths
import RecordSchema.Proofs.Model.Members
import RecordSchema.Proofs.Resolution.Lookup
import RecordSchema.Proofs.Resolution.Names
import RecordSchema.Resolution.Headers

/-!
# Headers keep a model sound

Resolving a header stores a base and config types that were looked up, so they are in range; the
links between declarations stay. The check on inheritance then leaves only models in which the walk
along bases ends from every type.
-/

set_option autoImplicit false

namespace RecordSchema

open Model Outcome

/-- Nothing is resolved in a draft, so the links within record types hold of nothing. -/
theorem Draft.Consistent.sound {draft : Draft} (consistent : draft.Consistent) :
    draft.model.Sound where
  toWellScoped := consistent.wellScoped
  attributes id inside := by simp [consistent.noAttributes] at inside
  methods id inside := by simp [consistent.noMethods] at inside
  bitfields id inside := by simp [consistent.noBitfields] at inside
  accessor id inside := by simp [consistent.noAttributes] at inside
  bitfieldAccessor id inside := by simp [consistent.noBitfields] at inside
  reader id inside := by simp [consistent.noMethods] at inside

namespace Resolution

/-- Tags change what a record type says of itself, and nothing that links it to others. -/
theorem foldl_applyRecordTag (tags : List Tag) (record : Record) :
    ∃ valueType configType external noSizeof cppName aliases rawTags,
      tags.foldl applyRecordTag record = { record with
        valueType := valueType
        configType := configType
        external := external
        noSizeof := noSizeof
        cppName := cppName
        aliases := aliases
        tags := rawTags } := by
  induction tags generalizing record with
  | nil => exact ⟨_, _, _, _, _, _, _, rfl⟩
  | cons tag rest ih =>
    rw [List.foldl_cons]
    obtain ⟨valueType, configType, external, noSizeof, cppName, aliases, rawTags, later⟩ :=
      ih (applyRecordTag record tag)
    rw [later]
    unfold applyRecordTag
    split <;> exact ⟨_, _, _, _, _, _, _, rfl⟩

/-- What resolving a header leaves of a record type. -/
structure HeaderChange (census : Census) (change : Record → Record) : Prop where
  named : ∀ record, (change record).named = record.named
  attributes : ∀ record, (change record).attributes = record.attributes
  methods : ∀ record, (change record).methods = record.methods
  flag : ∀ record, (change record).configDependent = record.configDependent
  closed : ∀ record : Record, InRange census record.references →
    InRange census (change record).references

theorem resolveHeader_ok {model after : Model} {pending : Pending RecordId Declaration.Record}
    (closed : model.Closed) (accepted : resolveHeader model pending = .ok after) :
    ∃ change, HeaderChange model.census change ∧ after = model.modifyRecord pending.id change := by
  simp only [resolveHeader] at accepted
  obtain ⟨base, based, accepted⟩ := bind_ok accepted
  obtain ⟨configs, configured, accepted⟩ := bind_ok accepted
  obtain ⟨identity, identified, accepted⟩ := bind_ok accepted
  obtain rfl := Except.ok.inj accepted
  have baseInside : ∀ id ∈ base, id.index < model.census.records := by
    unfold baseOf at based
    split at based
    · cases based
      intro id member
      cases member
    · split at based
      · rename_i found
        cases based
        intro id member
        cases member
        exact closed.lookupRecord? found
      · cases based
  have configsInside : ∀ id ∈ configs, id.index < model.census.records := by
    refine foldlM_preserves configured
      (fun found => ∀ id ∈ found, id.index < model.census.records) (by simp) ?_
    intro name _ found later inside added
    unfold addConfig at added
    split at added
    · cases added
    · rename_i config looked
      cases added
      split
      · exact inside
      · intro id member
        rcases List.mem_append.mp member with old | new
        · exact inside id old
        · cases List.mem_singleton.mp new
          exact closed.lookupRecord? looked
  refine ⟨_, ?_, rfl⟩
  have tagged := foldl_applyRecordTag (Tag.parseAll pending.declaration.tags)
  constructor
  case closed =>
    intro record inRange
    obtain ⟨_, _, _, _, _, _, _, same⟩ := tagged { record with base, configs, identity }
    rw [same]
    exact Record.closed_iff.mp
      { Record.closed_iff.mpr inRange with base := baseInside, configs := configsInside }
  all_goals
    intro record
    obtain ⟨_, _, _, _, _, _, _, same⟩ := tagged { record with base, configs, identity }
    simp only [same, Record.named]

theorem resolveHeader_sound {model after : Model} {pending : Pending RecordId Declaration.Record}
    (sound : model.Sound) (accepted : resolveHeader model pending = .ok after) :
    after.Sound ∧ after.census = model.census ∧ Retains Record.named model after ∧
      ∀ id, (after.record id).configDependent = (model.record id).configDependent := by
  obtain ⟨change, header, rfl⟩ := resolveHeader_ok sound.closed accepted
  have field : ∀ {α : Type} (read : Record → α), (∀ record, read record.named = read record) →
      ∀ record, read (change record) = read record := by
    intro α read kept record
    rw [← kept, header.named, kept]
  have same : SameLinks model (model.modifyRecord pending.id change) :=
    .modifyRecord model pending.id (field Record.package fun _ => rfl)
      (field Record.constants fun _ => rfl) (field Record.enumerations fun _ => rfl)
      header.attributes header.methods
  refine ⟨sound.of_sameLinks same ?_, same.census, .modifyRecord model pending.id header.named,
    fun id => ?_⟩
  · rw [Closed, same.census]
    exact sound.closed.modifyRecord pending.id header.closed
  · rw [record_modifyRecord]
    split
    · exact header.flag _
    · rfl

/-!
## Identities
-/

private theorem checkIdentitiesFrom_ok {model : Model} {seen : List (Identity × RecordId)}
    {ids : List RecordId} (accepted : checkIdentitiesFrom model seen ids = .ok ()) :
    (∀ id ∈ ids, ∀ identity, (model.record id).identity = some identity →
      seen.lookup identity = none) ∧
    ids.Pairwise fun first second => ∀ identity, (model.record first).identity = some identity →
      (model.record second).identity ≠ some identity := by
  induction ids generalizing seen with
  | nil => exact ⟨fun _ none => (nomatch none), .nil⟩
  | cons id rest ih =>
    rw [checkIdentitiesFrom] at accepted
    rw [List.forall_mem_cons, List.pairwise_cons]
    cases declared : (model.record id).identity with
    | none =>
      rw [declared] at accepted
      obtain ⟨fresh, distinct⟩ := ih accepted
      exact ⟨⟨nofun, fresh⟩, fun _ _ => nofun, distinct⟩
    | some identity =>
      simp only [declared] at accepted
      cases unseen : seen.lookup identity with
      | some first =>
        rw [unseen] at accepted
        cases accepted
      | none =>
        rw [unseen] at accepted
        obtain ⟨fresh, distinct⟩ := ih accepted
        have apart : ∀ other ∈ rest, ∀ held, (model.record other).identity = some held →
            held ≠ identity ∧ seen.lookup held = none := by
          intro other later held same
          have none := fresh other later held same
          rw [List.lookup_cons] at none
          split at none
          · cases none
          · rename_i different
            exact ⟨by simpa using different, none⟩
        refine ⟨⟨?_, fun other later held same => (apart other later held same).2⟩, ?_, distinct⟩
        · rintro _ ⟨⟩
          exact unseen
        · rintro other later _ ⟨⟩ same
          exact (apart other later identity same).1 rfl

/-- Where the check on identities passes, no two types have the same. -/
theorem checkIdentities_ok {model : Model} (accepted : checkIdentities model = .ok ())
    {first second : RecordId} (inside : first.index < model.records.size)
    (inside' : second.index < model.records.size) {identity : Identity}
    (declared : (model.record first).identity = some identity)
    (declared' : (model.record second).identity = some identity) : first = second := by
  have distinct := (checkIdentitiesFrom_ok accepted).2
  have listed : ∀ {id : RecordId}, id.index < model.records.size → id ∈ model.recordIds :=
    fun {id} inside => List.mem_map.mpr ⟨id.index, List.mem_range.mpr inside, rfl⟩
  have symmetric : Std.Symm fun first second : RecordId => ∀ identity,
      (model.record first).identity = some identity →
        (model.record second).identity ≠ some identity :=
    ⟨fun _ _ apart identity one other => apart identity other one⟩
  refine Decidable.byContradiction fun different => ?_
  exact distinct.forall (listed inside) (listed inside') different identity declared declared'

/-!
## Inheritance
-/

/-- A chain of distinct types on which no base repeats goes on to a type without base. -/
theorem repeatingBases_none {model : Model} (closed : model.Closed) {fuel : Nat}
    {chain : List RecordId} {next : Option RecordId}
    (accepted : repeatingBases model fuel chain next = none)
    (bound : model.records.size < fuel + chain.length) (distinct : chain.Nodup)
    (inside : ∀ id ∈ chain, id.index < model.records.size)
    (nextInside : ∀ id ∈ next, id.index < model.records.size) :
    ∀ id ∈ next, ∃ rest, model.BaseChain id rest := by
  induction fuel generalizing chain next with
  | zero =>
    have few := length_le_records distinct inside
    omega
  | succ fuel ih =>
    intro id member
    cases member
    rw [repeatingBases] at accepted
    split at accepted
    · cases accepted
    · rename_i fresh
      have distinctLater : (chain ++ [id]).Nodup := by
        rw [List.nodup_append]
        refine ⟨distinct, by simp, ?_⟩
        intro left before right last
        cases List.mem_singleton.mp last
        exact fun same => fresh (same ▸ before)
      have insideLater : ∀ other ∈ chain ++ [id], other.index < model.records.size := by
        intro other member
        rcases List.mem_append.mp member with before | last
        · exact inside other before
        · cases List.mem_singleton.mp last
          exact nextInside id rfl
      have boundLater : model.records.size < fuel + (chain ++ [id]).length := by
        rw [List.length_append, List.length_singleton]
        omega
      have later := ih accepted boundLater distinctLater insideLater (closed.base id)
      cases found : (model.record id).base with
      | none => exact ⟨[id], .last found⟩
      | some base =>
        obtain ⟨rest, walk⟩ := later base found
        exact ⟨id :: rest, .more found walk⟩

/-- A type on whose bases none repeats has a walk along them that ends. -/
theorem baseChain_of_repeatingBases {model : Model} (closed : model.Closed) {id : RecordId}
    (inside : id.index < model.records.size)
    (endless : repeatingBases model (model.records.size + 1) [id] (model.record id).base = none) :
    ∃ ids, model.BaseChain id ids := by
  have later := repeatingBases_none closed endless (by rw [List.length_singleton]; omega)
    (by simp) (by simp [inside]) (closed.base id)
  cases found : (model.record id).base with
  | none => exact ⟨[id], .last found⟩
  | some base =>
    obtain ⟨rest, walk⟩ := later base found
    exact ⟨id :: rest, .more found walk⟩

/-- Where the check on inheritance passes, bases end from every type. -/
theorem checkInheritance_ok {model : Model} (closed : model.Closed)
    (accepted : checkInheritance model = .ok ()) {id : RecordId}
    (inside : id.index < model.records.size) : ∃ ids, model.BaseChain id ids := by
  have passed := forM_ok accepted id
    (List.mem_map.mpr ⟨id.index, List.mem_range.mpr inside, rfl⟩)
  split at passed
  · rename_i endless
    exact baseChain_of_repeatingBases closed inside endless
  · cases passed

end Resolution

end RecordSchema
