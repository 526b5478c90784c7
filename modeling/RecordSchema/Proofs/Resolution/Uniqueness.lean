import RecordSchema.Proofs.Reordering
import RecordSchema.Proofs.Resolution.Refusals
import RecordSchema.Proofs.Storage.Schemas

/-!
# What stands once

No identity, name, version or config type stands twice in a built model where one is told from another by
it. Each of these is kept apart by a check of its own, in the pass that fills it in, and later passes leave
it alone. An identity that is refused because it stands twice stands in two declarations.
-/

set_option autoImplicit false

namespace RecordSchema

open Model Outcome Resolution

/-- Nothing stands twice among the things of one kind in one place. -/
structure Model.Unambiguous (model : Model) : Prop where
  identities : (model.recordIds.filterMap fun id => (model.record id).identity).Nodup
  /-- What is outermost, in a package or in a record type stands there under its own name. -/
  names : ∀ place, ∀ entry ∈ model.entries place, model.memberName entry.2 = entry.1
  distinct : ∀ place, ((model.entries place).map (·.1)).Nodup
  attributes : ∀ id, (attributeNames model id).Nodup
  /-- Declared methods and the accessors of attributes and bitfields together. -/
  methods : ∀ id, (methodNames model id).Nodup
  enumerators : ∀ id, ((model.enumeration id).constants.map Enumerator.name).Nodup
  schemas : ∀ id, ((model.record id).schemas.map fun schema => (schema.name, schema.version)).Nodup
  datasets : ∀ id, ∀ schema ∈ (model.record id).schemas, (schema.datasets.map Dataset.name).Nodup
  configs : ∀ id, (model.record id).configs.Nodup

/-- Units declare a record type under a path of packages; it has an identity and goes by a name in
messages. -/
structure Identifies (units : List SourceUnit) (path : List String) (declaration : Declaration.Record)
    (identity : Identity) (name : String) : Prop where
  declared : ∃ mark, .declared (.package path) (.record mark declaration) ∈ Item.ofUnits units
  typeId : declaration.typeId = some identity.typeId
  version : declaration.version = some identity.version
  name : name = ".".intercalate path ++ "." ++ declaration.name

namespace Resolution

/-!
## Headers
-/

private theorem identityOf_ok {pending : Pending RecordId Declaration.Record} {found : Option Identity}
    (accepted : identityOf pending = .ok found) {identity : Identity} (some_ : found = some identity) :
    pending.declaration.typeId = some identity.typeId ∧
      pending.declaration.version = some identity.version := by
  subst some_
  unfold identityOf at accepted
  split at accepted
  · rename_i typeId version one other
    cases accepted
    exact ⟨one, other⟩
  · cases accepted
  · cases accepted

/-- A header sets the config types and the identity of its own type. -/
theorem resolveHeader_fills {model after : Model} {pending : Pending RecordId Declaration.Record}
    (accepted : resolveHeader model pending = .ok after) (id : RecordId) :
    ((after.record id).configs = (model.record id).configs ∨ (after.record id).configs.Nodup) ∧
      ∀ identity, (after.record id).identity = some identity →
        (model.record id).identity = some identity ∨
          pending.id = id ∧ pending.declaration.typeId = some identity.typeId ∧
            pending.declaration.version = some identity.version := by
  simp only [resolveHeader] at accepted
  obtain ⟨base, -, accepted⟩ := bind_ok accepted
  obtain ⟨configs, configured, accepted⟩ := bind_ok accepted
  obtain ⟨found, identified, accepted⟩ := bind_ok accepted
  obtain rfl := Except.ok.inj accepted
  have distinct : configs.Nodup := by
    refine foldlM_preserves configured List.Nodup .nil fun name _ before later distinct added => ?_
    unfold addConfig at added
    split at added
    · cases added
    · rename_i config _
      cases added
      split
      · exact distinct
      · rename_i fresh
        exact List.concat_eq_append ▸ distinct.concat fresh
  rw [record_modifyRecord]
  split
  · rename_i here
    obtain ⟨_, _, _, _, _, _, _, same⟩ := foldl_applyRecordTag (Tag.parseAll pending.declaration.tags)
      { model.record id with base, configs, identity := found }
    rw [same]
    exact ⟨.inr distinct, fun identity declared => .inr ⟨here.1, identityOf_ok identified declared⟩⟩
  · exact ⟨.inl rfl, fun identity declared => .inl declared⟩

section Headers

variable {draft : Draft} {headed : Model} (consistent : draft.Consistent)
  (headers : draft.records.toList.foldlM resolveHeader draft.model = .ok headed)

include consistent headers

private theorem headers_configs (id : RecordId) : (headed.record id).configs.Nodup := by
  have start : ∀ id, (draft.model.record id).configs.Nodup := fun id => consistent.fresh id ▸ .nil
  refine foldlM_preserves headers (fun state => ∀ id, (state.record id).configs.Nodup) start
    (fun pending _ state after distinct taken id => ?_) id
  rcases (resolveHeader_fills taken id).1 with same | distinct
  · exact same ▸ distinct id
  · exact distinct

/-- An identity is that of the declaration of its type. -/
theorem headers_identity {id : RecordId} {identity : Identity}
    (declared : (headed.record id).identity = some identity) :
    ∃ pending ∈ draft.records, pending.id = id ∧
      pending.declaration.typeId = some identity.typeId ∧
        pending.declaration.version = some identity.version := by
  refine foldlM_preserves headers (fun state => ∀ id identity,
      (state.record id).identity = some identity → ∃ pending ∈ draft.records, pending.id = id ∧
        pending.declaration.typeId = some identity.typeId ∧
          pending.declaration.version = some identity.version)
    (fun id identity declared => ?_) (fun pending waits state after known taken id identity declared => ?_)
    id identity declared
  · rw [← consistent.fresh id] at declared
    cases declared
  · rcases (resolveHeader_fills taken id).2 identity declared with old | new
    · exact known id identity old
    · exact ⟨pending, Array.mem_toList_iff.mp waits, new⟩

end Headers

/-- An identity that is refused is that of an earlier type too. -/
theorem checkIdentitiesFrom_error {model : Model} {seen : List (Identity × RecordId)}
    {ids : List RecordId} {error : SchemaError}
    (held : ∀ entry ∈ seen, (model.record entry.2).identity = some entry.1 ∧ entry.2 ∉ ids)
    (distinct : ids.Nodup) (failed : checkIdentitiesFrom model seen ids = .error error) :
    ∃ first second identity, first ≠ second ∧ (first ∈ ids ∨ first ∈ seen.map (·.2)) ∧
      second ∈ ids ∧ (model.record first).identity = some identity ∧
      (model.record second).identity = some identity ∧
      error = .duplicateIdentity identity.typeId identity.version (model.recordPath first)
        (model.recordPath second) := by
  induction ids generalizing seen with
  | nil => cases failed
  | cons id rest ih =>
    obtain ⟨unlisted, distinct⟩ := List.nodup_cons.mp distinct
    have later : ∀ entry ∈ seen, (model.record entry.2).identity = some entry.1 ∧ entry.2 ∉ rest :=
      fun entry among =>
        ⟨(held entry among).1, fun inside => (held entry among).2 (List.mem_cons_of_mem _ inside)⟩
    rw [checkIdentitiesFrom] at failed
    cases declared : (model.record id).identity with
    | none =>
      rw [declared] at failed
      obtain ⟨first, second, identity, different, place, among, facts⟩ := ih later distinct failed
      exact ⟨first, second, identity, different, place.imp_left (List.mem_cons_of_mem _),
        List.mem_cons_of_mem _ among, facts⟩
    | some identity =>
      simp only [declared] at failed
      cases found : seen.lookup identity with
      | some first =>
        simp only [found] at failed
        cases failed
        have among := mem_of_lookup found
        obtain ⟨same, unlisted⟩ := held _ among
        refine ⟨first, id, identity, ?_, .inr (List.mem_map_of_mem among), List.mem_cons_self, same,
          declared, rfl⟩
        rintro rfl
        exact unlisted List.mem_cons_self
      | none =>
        rw [found] at failed
        have more : ∀ entry ∈ (identity, id) :: seen,
            (model.record entry.2).identity = some entry.1 ∧ entry.2 ∉ rest :=
          List.forall_mem_cons.mpr ⟨⟨declared, unlisted⟩, later⟩
        obtain ⟨first, second, shared, different, place, among, facts⟩ := ih more distinct failed
        refine ⟨first, second, shared, different, ?_, List.mem_cons_of_mem _ among, facts⟩
        rcases place with inside | before
        · exact .inl (List.mem_cons_of_mem _ inside)
        · rcases List.mem_cons.mp before with rfl | old
          · exact .inl List.mem_cons_self
          · exact .inr old

private theorem checkIdentities_error {model : Model} {error : SchemaError}
    (failed : checkIdentities model = .error error) :
    ∃ first second identity, first ≠ second ∧ first.index < model.records.size ∧
      second.index < model.records.size ∧ (model.record first).identity = some identity ∧
      (model.record second).identity = some identity ∧
      error = .duplicateIdentity identity.typeId identity.version (model.recordPath first)
        (model.recordPath second) := by
  obtain ⟨first, second, identity, different, place, among, facts⟩ :=
    checkIdentitiesFrom_error (by simp) (Layout.recordIds_nodup model) failed
  have inside : ∀ id ∈ model.recordIds, id.index < model.records.size := by
    intro id listed
    obtain ⟨index, bound, rfl⟩ := List.mem_map.mp listed
    exact List.mem_range.mp bound
  rcases place with listed | none
  · exact ⟨first, second, identity, different, inside first listed, inside second among, facts⟩
  · cases none

/-!
## Members
-/

private theorem addEnumerator_distinct {owner : Option RecordId} {path : String}
    {before after : List Enumerator}
    {declaration : Declaration.Constant} (distinct : (before.map Enumerator.name).Nodup)
    (accepted : addEnumerator owner path before declaration = .ok after) :
    (after.map Enumerator.name).Nodup := by
  obtain ⟨value, rfl, -⟩ := addEnumerator_ok accepted
  refine nodup_map_concat distinct fun enumerator held same => ?_
  simp only [addEnumerator, bind, Except.bind] at accepted
  split at accepted
  · cases accepted
  · split at accepted
    · cases accepted
    · rename_i fresh
      exact fresh (List.any_eq_true.mpr ⟨enumerator, held, beq_iff_eq.mpr same⟩)

private theorem resolveEnumeration_distinct {model after : Model}
    {pending : Pending EnumId Declaration.Enumeration}
    (accepted : resolveEnumeration model pending = .ok after) (id : EnumId) :
    after.enumeration id = model.enumeration id ∧ pending.id ≠ id ∨
      ((after.enumeration id).constants.map Enumerator.name).Nodup := by
  simp only [resolveEnumeration] at accepted
  obtain ⟨base, -, accepted⟩ := bind_ok accepted
  obtain ⟨constants, added, accepted⟩ := bind_ok accepted
  cases accepted
  rw [enumeration_modifyEnumeration]
  split
  · exact .inr (foldlM_preserves added (fun found => (found.map Enumerator.name).Nodup) .nil
      fun _ _ _ _ distinct taken => addEnumerator_distinct distinct taken)
  · rename_i elsewhere
    by_cases here : pending.id = id
    · refine .inr ?_
      rw [model.enumeration_eq_default fun inside => elsewhere ⟨here, inside⟩]
      exact .nil
    · exact .inl ⟨rfl, here⟩

def SameEnumerations (before after : Model) : Prop :=
  after.enumerations = before.enumerations

def AttributesApart (model : Model) : Prop :=
  ∀ id, (attributeNames model id).Nodup

namespace Passes

variable {draft : Draft} {built : Built} (passes : Passes draft built)

private theorem enumerators_distinct : ∀ pending ∈ draft.enumerations.toList,
    ((passes.withEnumerations.enumeration pending.id).constants.map Enumerator.name).Nodup := by
  refine foldlM_invariant passes.enumerations (fun seen state => ∀ pending ∈ seen,
    ((state.enumeration pending.id).constants.map Enumerator.name).Nodup) (by simp) ?_
  rintro seen pending rest state after - distinct taken other listed
  rcases resolveEnumeration_distinct taken other.id with ⟨same, different⟩ | apart
  · rcases List.mem_append.mp listed with old | last
    · exact same ▸ distinct other old
    · exact absurd (congrArg Pending.id (List.mem_singleton.mp last)).symm different
  · exact apart

variable (consistent : draft.Consistent)

include passes consistent

private theorem enumerations_kept : SameEnumerations passes.withEnumerations built.model := by
  have attributes : SameEnumerations passes.withEnumerations passes.withAttributes :=
    passes.attributes_preserve consistent rfl fun sound inside same added =>
      (addAttribute_fills sound inside added).1.sameEnumerations.trans same
  have methods : SameEnumerations passes.withEnumerations passes.withMethods :=
    passes.methods_preserve consistent attributes fun sound inside same added =>
      (addDeclaredMethod_fills sound inside added).1.sameEnumerations.trans same
  refine foldlM_preserves passes.constructors
    (fun state => SameEnumerations passes.withEnumerations state.1) methods ?_
  rintro pending - ⟨state, before⟩ ⟨after, remarks⟩ same taken
  obtain ⟨_, _, taken⟩ := bind_ok taken
  cases taken
  exact same

/-- No type has attributes before the pass over them. -/
theorem attributeNames_before (id : RecordId) : attributeNames passes.withEnumerations id = [] := by
  have none : (passes.withEnumerations.record id).attributes = [] := by
    refine List.eq_nil_iff_forall_not_mem.mpr fun attr listed => ?_
    have inside : attr.index < passes.withEnumerations.attributes.size :=
      (passes.enumerations_step consistent).sound.closed.recordAttributes id attr listed
    rw [passes.values_only.1, (passes.isHeaded consistent).noAttributes] at inside
    exact Nat.not_lt_zero _ inside
  rw [attributeNames, none, List.map_nil]

/-- Methods and constructors leave the names of attributes alone. -/
theorem attributeNames_kept (id : RecordId) :
    attributeNames built.model id = attributeNames passes.withAttributes id := by
  let same (state : Model) : Prop := attributeNames state id = attributeNames passes.withAttributes id
  have methods : same passes.withMethods := passes.methods_preserve consistent rfl
    fun sound inside kept added => ((addDeclaredMethod_fills sound inside added).2 id).trans kept
  refine foldlM_preserves passes.constructors (fun state => same state.1) methods ?_
  rintro pending _ ⟨state, before⟩ ⟨after, remarks⟩ kept taken
  obtain ⟨⟨constructors, more⟩, -, taken⟩ := bind_ok taken
  cases taken
  have attributes : ((state.modifyRecord pending.id fun record => { record with constructors }).record
      id).attributes = (state.record id).attributes := by
    rw [record_modifyRecord]
    split <;> rfl
  exact (congrArg (List.map fun attr => (state.attr attr).name) attributes).trans kept

private theorem attributesApart : AttributesApart built.model := by
  have attributes : AttributesApart passes.withAttributes := by
    refine passes.attributes_preserve consistent
      (fun id => passes.attributeNames_before consistent id ▸ .nil) ?_
    intro model after owner path declaration sound inside apart added id
    obtain ⟨fills, distinct⟩ := addAttribute_fills sound inside added
    by_cases same : id = owner
    · exact same ▸ distinct (apart owner)
    · rw [attributeNames_eq, fills.others id same, ← attributeNames_eq]
      exact apart id
  exact fun id => passes.attributeNames_kept consistent id ▸ attributes id

end Passes

end Resolution

/-!
## Built models
-/

namespace Stages

variable {units : List SourceUnit} {built : Built} (stages : Stages units built)

include stages

theorem wellNamed : built.model.WellNamed :=
  stages.represents.wellNamed.retain stages.retained stages.sound.toWellScoped

theorem unambiguous : built.model.Unambiguous := by
  obtain ⟨passes⟩ := resolveDeclarations_passes stages.resolution
  have consistent := Draft.ofUnits_consistent stages.named
  have agree := stages.agree_derived
  have inside : ∀ id ∈ built.model.recordIds, id.index < built.model.records.size := by
    intro id listed
    obtain ⟨index, bound, rfl⟩ := List.mem_map.mp listed
    exact List.mem_range.mp bound
  have outside : ∀ {id : RecordId}, ¬ id.index < built.model.records.size →
      (built.model.record id).schemas = [] := fun beyond => by
    rw [built.model.record_eq_default beyond]
    rfl
  constructor
  case identities =>
    refine List.pairwise_filterMap.mpr ((Layout.recordIds_nodup built.model).imp_of_mem ?_)
    rintro one other oneListed otherListed different identity declared _ declared' rfl
    exact different
      (stages.identities (inside one oneListed) (inside other otherListed) declared declared')
  case names => exact stages.wellNamed.names
  case distinct => exact stages.wellNamed.distinct
  case attributes => exact fun id => agree.attributeNames id ▸ passes.attributesApart consistent id
  case methods => exact stages.methodsApart
  case enumerators =>
    intro id
    have same : built.model.enumeration id = passes.withEnumerations.enumeration id := by
      rw [Model.enumeration, agree.enumerations, passes.enumerations_kept consistent,
        Model.enumeration]
    rw [same]
    by_cases present : id.index < stages.draft.model.enumerations.size
    · obtain ⟨pending, waits, rfl⟩ := stages.represents.pending_of_enumeration present
      exact passes.enumerators_distinct pending (Array.mem_toList_iff.mpr waits)
    · have count : passes.withEnumerations.enumerations.size = stages.draft.model.enumerations.size :=
        (passes.enumerations_step consistent).enumerations.trans
          (passes.isHeaded consistent).named.enumerations
      rw [passes.withEnumerations.enumeration_eq_default (count ▸ present)]
      exact .nil
  case schemas =>
    intro id
    by_cases present : id.index < built.model.records.size
    · exact (stages.schemasFit present).distinct
    · rw [outside present]
      exact .nil
  case datasets =>
    intro id
    by_cases present : id.index < built.model.records.size
    · exact (stages.schemasFit present).datasets
    · rw [outside present]
      intro _ none
      cases none
  case configs =>
    intro id
    have same : (built.model.record id).configs = (passes.headed.record id).configs :=
      (agree.recordField Record.configs (fun _ => rfl) id).trans
        ((passes.step consistent).field Record.configs (fun _ => rfl) id)
    rw [same]
    exact headers_configs consistent passes.headers id

end Stages

/-!
## Refused identities
-/

section Refused

variable {draft : Draft} {units : List SourceUnit}
  (represents : draft.Represents (Item.ofUnits units)) {headed : Model}
  (headers : draft.records.toList.foldlM resolveHeader draft.model = .ok headed)

include represents headers

/-- A type with an identity is one that units declare with it. -/
theorem identifies_of_headers {id : RecordId} {identity : Identity}
    (declared : (headed.record id).identity = some identity) :
    ∃ path declaration, Identifies units path declaration identity (headed.recordPath id) ∧
      draft.model.key (.record id) = (.package path, declaration.name) := by
  obtain ⟨pending, waits, rfl, typeId, version⟩ :=
    headers_identity represents.consistent headers declared
  have named := (resolveHeaders_ok represents.consistent headers).named
  have waiting : (Member.record pending.id,
      Declared.record (draft.model.record pending.id).included pending.declaration) ∈
      draft.waiting := Draft.mem_waiting.mpr (.inl ⟨pending, waits, rfl, rfl⟩)
  have item := represents.declared_iff.mpr ⟨_, waiting, rfl⟩
  have name : (draft.model.record pending.id).name = pending.declaration.name :=
    represents.names _ waiting
  refine ⟨draft.model.packageNames (draft.model.record pending.id).package, pending.declaration,
    ⟨⟨_, item⟩, typeId, version, ?_⟩, ?_⟩
  · have package : headed.packagePath (draft.model.record pending.id).package =
        ".".intercalate (draft.model.packageNames (draft.model.record pending.id).package) :=
      congrArg (".".intercalate ·) (named.packageNames _)
    rw [recordPath, named.field Record.package fun _ => rfl, named.field Record.name fun _ => rfl,
      package, name]
  · exact Prod.ext rfl name

end Refused

private theorem duplicateIdentity_declared {units : List SourceUnit} {typeId version : UInt32}
    {first second : String}
    (failed : build units = .error (.schema (.duplicateIdentity typeId version first second))) :
    ∃ path path' one other, Identifies units path one ⟨typeId, version⟩ first ∧
      Identifies units path' other ⟨typeId, version⟩ second ∧
        (path, one.name) ≠ (path', other.name) := by
  obtain ⟨draft, named, origin⟩ := build_collective failed rfl
  have represents : draft.Represents (Item.ofUnits units) := by
    have settled := Draft.ofUnits_settles units
    rw [named] at settled
    exact settled
  rcases origin with ⟨headed, headers, identities | inheritance⟩ | ⟨resolved, -, ordering⟩
  · obtain ⟨one, other, identity, different, inside, inside', declared, declared', same⟩ :=
      checkIdentities_error identities
    obtain ⟨rfl, rfl, rfl, rfl⟩ := SchemaError.duplicateIdentity.inj same
    obtain ⟨path, declaration, identifies, key⟩ := identifies_of_headers represents headers declared
    obtain ⟨path', declaration', identifies', key'⟩ :=
      identifies_of_headers represents headers declared'
    refine ⟨path, path', declaration, declaration', identifies, identifies', fun equal => ?_⟩
    obtain ⟨rfl, name⟩ := Prod.mk.inj equal
    have count := (resolveHeaders_ok represents.consistent headers).named.records
    have sameType : Member.record one = .record other :=
      represents.wellNamed.key_injective (Nat.lt_of_lt_of_eq inside count)
        (Nat.lt_of_lt_of_eq inside' count) (by rw [key, key', name])
    exact different (Member.record.inj sameType)
  · obtain ⟨path, chain, same⟩ := checkInheritance_fails headed _ inheritance
    cases same
  · obtain ⟨path, cycle, same⟩ := Layout.orderOrRefuse_fails resolved.model _ ordering
    cases same

/-- Whatever the units are: nothing stands twice in a model that is built from them, and an identity that
is refused for standing twice is that of two record types that they declare. -/
theorem build_unambiguous (units : List SourceUnit) :
    (∀ built, build units = .ok built → built.model.Unambiguous) ∧
      ∀ typeId version first second,
        build units = .error (.schema (.duplicateIdentity typeId version first second)) →
          ∃ path path' one other, Identifies units path one ⟨typeId, version⟩ first ∧
            Identifies units path' other ⟨typeId, version⟩ second ∧
              (path, one.name) ≠ (path', other.name) := by
  refine ⟨fun built accepted => ?_, fun typeId version first second => duplicateIdentity_declared⟩
  obtain ⟨stages⟩ := build_stages accepted
  exact stages.unambiguous

/-- Two units that open one package, and in it a type of an identity each. -/
def identifiedUnits (version : UInt32) : List SourceUnit :=
  let one : Declaration.Record :=
    { name := "First", typeId := some 7, version := some 1
      constants := [{ name := "limit", value := some "4" }]
      attributes := [{ name := "head", typeName := some "uint8_t" }] }
  let other : Declaration.Record :=
    { name := "Second", typeId := some 7, version := some version, configs := ["First", "Common.First"] }
  [{ document := { packages := [.mk "Common" none [] [] [] [] [one]] } },
    { document := { packages := [.mk "Common" none [] [] [] [] [other]] } }]

theorem build_unambiguous_sample :
    (∃ built, build (identifiedUnits 2) = .ok built ∧ built.model.records.size = 2 ∧
      built.model.Unambiguous) ∧
    build (identifiedUnits 1) =
      .error (.schema (.duplicateIdentity 7 1 "Common.First" "Common.Second")) ∧
    ∃ path path' one other, Identifies (identifiedUnits 1) path one ⟨7, 1⟩ "Common.First" ∧
      Identifies (identifiedUnits 1) path' other ⟨7, 1⟩ "Common.Second" ∧
        (path, one.name) ≠ (path', other.name) := by
  have computed : ∃ built, build (identifiedUnits 2) = .ok built ∧ built.model.records.size = 2 :=
    exists_built (by decide +kernel)
  obtain ⟨built, accepted, count⟩ := computed
  have refused : build (identifiedUnits 1) =
      .error (.schema (.duplicateIdentity 7 1 "Common.First" "Common.Second")) :=
    build_fails (by decide +kernel)
  exact ⟨⟨built, accepted, count, (build_unambiguous _).1 built accepted⟩, refused,
    (build_unambiguous _).2 _ _ _ _ refused⟩

end RecordSchema
