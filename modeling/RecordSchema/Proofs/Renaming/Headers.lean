import RecordSchema.Proofs.Build
import RecordSchema.Proofs.Renaming.Alike

/-!
# Headers in two models

The header of a record type is resolved before the type has a base, so what it refers to does not depend
on the order of the types. The checks on all headers together pass for both models or for none.
-/

set_option autoImplicit false

namespace RecordSchema

open Model Outcome

/-- Nothing shows of a record type in a draft but how it is packed. -/
theorem Draft.Consistent.recordView {draft : Draft} (consistent : draft.Consistent) (id : RecordId) :
    draft.model.recordView id = ({ pack := (draft.model.record id).pack } : Record).view [] [] := by
  rw [Model.recordView, ← consistent.fresh]
  rfl

namespace Resolution

section Header

variable {ρ : Renaming} {model model' : Model} (same : SameNames ρ model model')
  {pending pending' : Pending RecordId Declaration.Record} (twin : Twin ρ.record pending pending')
  (inside : pending.id.index < model.records.size) (lineage : SameLineage ρ model model' pending.id)

include same twin inside lineage

private theorem baseOf_mirrored :
    Mirrors (Option.map ρ.record) (baseOf model pending) (baseOf model' pending') := by
  rw [baseOf, baseOf, twin.2]
  cases pending.declaration.base with
  | none => exact .ok rfl
  | some name =>
    simp only [twin.1, same.lookupRecord? inside lineage]
    cases model.lookupRecord? pending.id name with
    | none => exact .error
    | some base => exact .ok rfl

private theorem addConfig_mirrored (configs : List RecordId) (name : String) :
    Mirrors (List.map ρ.record) (addConfig model pending configs name)
      (addConfig model' pending' (configs.map ρ.record) name) := by
  rw [addConfig, addConfig, twin.1, same.lookupRecord? inside lineage]
  cases model.lookupRecord? pending.id name with
  | none => exact .error
  | some config =>
    have again : ρ.record config ∈ configs.map ρ.record ↔ config ∈ configs :=
      List.mem_map_of_injective ρ.record.injective
    refine .ok ?_
    by_cases listed : config ∈ configs
    · rw [if_pos listed, if_pos (again.mpr listed)]
    · rw [if_neg listed, if_neg (mt again.mp listed), List.map_append]
      rfl

end Header

private theorem identityOf_mirrored {rename : RecordId → RecordId}
    {pending pending' : Pending RecordId Declaration.Record} (twin : Twin rename pending pending') :
    Mirrors id (identityOf pending) (identityOf pending') := by
  rw [identityOf, identityOf, twin.2]
  split
  · exact .ok rfl
  · exact .error
  · exact .ok rfl

/-- What a header shows. -/
theorem recordView_header {model : Model} {id : RecordId} (inside : id.index < model.records.size)
    (tags : List Tag) (base : Option RecordId) (configs : List RecordId) (identity : Option Identity) :
    (model.modifyRecord id fun record =>
      tags.foldl applyRecordTag { record with base, configs, identity }).recordView id =
      { model.recordView id with base, configs, identity } := by
  obtain ⟨_, _, _, _, _, _, _, tagged⟩ :=
    foldl_applyRecordTag tags { model.record id with base, configs, identity }
  rw [recordView_modifyRecord, if_pos ⟨rfl, inside⟩, tagged]
  rfl

/-- A type whose own header has not been resolved yet. -/
theorem resolveHeader_mirrored {ρ : Renaming} {model model' : Model} (same : SameNames ρ model model')
    {pending pending' : Pending RecordId Declaration.Record} (twin : Twin ρ.record pending pending')
    (inside : pending.id.index < model.records.size) (base : (model.record pending.id).base = none)
    (base' : (model'.record (ρ.record pending.id)).base = none)
    (view : model'.recordView (ρ.record pending.id) = (model.recordView pending.id).rename ρ) :
    Follows (fun after after' =>
        after'.recordView (ρ.record pending.id) = (after.recordView pending.id).rename ρ)
      (resolveHeader model pending) (resolveHeader model' pending') := by
  have lineage : SameLineage ρ model model' pending.id := sameLineage_alone base base'
  have inside' : (ρ.record pending.id).index < model'.records.size := by
    rw [same.records]
    exact (same.recordRange _).mpr inside
  rw [resolveHeader, resolveHeader, twin.2]
  refine (baseOf_mirrored same twin inside lineage).bind fun base _ _ _ based => ?_
  have configs : Mirrors (List.map ρ.record)
      (pending.declaration.configs.foldlM (addConfig model pending) [])
      (pending.declaration.configs.foldlM (addConfig model' pending') []) := by
    refine .foldlM (fun found found' name _ alike => ?_) rfl
    rw [alike]
    exact addConfig_mirrored same twin inside lineage found name
  refine configs.bind fun configs _ _ _ configured => ?_
  refine (identityOf_mirrored twin).bind fun identity _ _ _ identified => .ok ?_
  rw [twin.1, recordView_header inside, recordView_header inside', view, based, configured, identified]
  rfl

/-- A header fills in what its type shows. -/
theorem resolveHeader_local {draft : Draft} (distinct : (draft.records.toList.map (·.id)).Nodup) :
    Local resolveHeader draft.records.toList (·.id) (fun id (model : Model) => model.recordView id)
      fun state => state.Sound ∧ Retains Record.named draft.model state where
  distinct := distinct
  keeps pending _ state after good taken := by
    obtain ⟨sound, _, named, _⟩ := resolveHeader_sound good.1 taken
    exact ⟨sound, good.2.trans named⟩
  others pending _ state after good taken other different := by
    obtain ⟨change, _, rfl⟩ := resolveHeader_ok good.1.closed taken
    rw [recordView_modifyRecord, if_neg fun both => different both.1.symm]

/-- Headers that are accepted in one order are accepted in any. -/
theorem headers_alike {ρ : Renaming} {draft draft' : Draft} (drafts : SameDrafts ρ draft draft')
    {headed : Model} (accepted : draft.records.toList.foldlM resolveHeader draft.model = .ok headed) :
    ∃ headed', draft'.records.toList.foldlM resolveHeader draft'.model = .ok headed' ∧
      Alike ρ headed headed' := by
  have consistent := drafts.consistent
  have consistent' := drafts.consistent'
  obtain ⟨headed', accepted', good, good', views⟩ := drafts.records.pass (RecordView.rename ρ)
    (resolveHeader_local drafts.records.distinct) (resolveHeader_local drafts.records.distinct')
    ⟨consistent.sound, .refl _⟩ ⟨consistent'.sound, .refl _⟩ accepted <| by
      intro pending listed pending' listed' twin state state' good good' own own'
      have inside := drafts.records.inside pending listed
      have noBase : ∀ {draft : Draft}, draft.Consistent → ∀ {state : Model} {id : RecordId},
          state.recordView id = draft.model.recordView id → (state.record id).base = none := by
        intro draft consistent state id own
        rw [consistent.recordView] at own
        exact congrArg RecordView.base own
      have pack : (draft'.model.record (ρ.record pending.id)).pack =
          (draft.model.record pending.id).pack := by
        rw [← twin.1, consistent'.packs _ (Array.mem_toList_iff.mp listed'), twin.2,
          consistent.packs _ (Array.mem_toList_iff.mp listed)]
      refine resolveHeader_mirrored (drafts.names.retain good.2 good'.2) twin
        (good.2.records.symm ▸ inside) (noBase consistent own) (noBase consistent' own') ?_
      rw [own', own, consistent'.recordView, consistent.recordView, pack]
      rfl
  refine ⟨headed', accepted', .of_inside (drafts.names.retain good.2 good'.2) fun id inside => ?_⟩
  exact views id (good.2.records ▸ inside)

/-!
## Checks
-/

/-- Identities that differ pass the check. -/
theorem checkIdentities_of_distinct {model : Model}
    (distinct : ∀ first second : RecordId, first.index < model.records.size →
      second.index < model.records.size → ∀ identity, (model.record first).identity = some identity →
        (model.record second).identity = some identity → first = second) :
    checkIdentities model = .ok () := by
  have loop : ∀ ids : List RecordId, ids.Nodup → (∀ id ∈ ids, id.index < model.records.size) →
      ∀ seen : List (Identity × RecordId), (∀ entry ∈ seen, entry.2.index < model.records.size ∧
        (model.record entry.2).identity = some entry.1 ∧ entry.2 ∉ ids) →
        checkIdentitiesFrom model seen ids = .ok () := by
    intro ids
    induction ids with
    | nil => exact fun _ _ _ _ => rfl
    | cons id rest ih =>
      intro unrepeated inside seen known
      obtain ⟨fresh, unrepeated⟩ := List.nodup_cons.mp unrepeated
      obtain ⟨here, later⟩ := List.forall_mem_cons.mp inside
      have still : ∀ entry ∈ seen, entry.2.index < model.records.size ∧
          (model.record entry.2).identity = some entry.1 ∧ entry.2 ∉ rest :=
        fun entry listed => ⟨(known entry listed).1, (known entry listed).2.1,
          mt (List.mem_cons_of_mem _) (known entry listed).2.2⟩
      rw [checkIdentitiesFrom]
      cases declared : (model.record id).identity with
      | none => exact ih unrepeated later seen still
      | some identity =>
        cases found : seen.lookup identity with
        | some first =>
          obtain ⟨bound, same, unlisted⟩ := known _ (mem_of_lookup found)
          rw [distinct first id bound here identity same declared] at unlisted
          exact absurd List.mem_cons_self unlisted
        | none =>
          simp only [found]
          refine ih unrepeated later ((identity, id) :: seen) (List.forall_mem_cons.mpr ⟨?_, still⟩)
          exact ⟨here, declared, fresh⟩
  exact loop model.recordIds (Layout.recordIds_nodup model)
    (fun id listed => Layout.mem_recordIds.mp listed) [] (by simp)

section Checks

variable {ρ : Renaming} {model model' : Model} (alike : Alike ρ model model')

include alike

theorem checkIdentities_alike (accepted : checkIdentities model = .ok ()) :
    checkIdentities model' = .ok () := by
  refine checkIdentities_of_distinct fun first' second' inside inside' identity declared declared' => ?_
  obtain ⟨first, rfl⟩ := ρ.record.surjective first'
  obtain ⟨second, rfl⟩ := ρ.record.surjective second'
  have identities : ∀ id, (model'.record (ρ.record id)).identity = (model.record id).identity :=
    fun id => congrArg RecordView.identity (alike.view id)
  rw [identities] at declared declared'
  rw [alike.records, alike.recordRange] at inside inside'
  rw [checkIdentities_ok accepted inside inside' declared declared']

private theorem repeatingBases_rename (fuel : Nat) (chain : List RecordId) (next : Option RecordId) :
    repeatingBases model' fuel (chain.map ρ.record) (next.map ρ.record) =
      (repeatingBases model fuel chain next).map (List.map ρ.record) := by
  induction fuel generalizing chain next with
  | zero => rfl
  | succ fuel ih =>
    cases next with
    | none => rfl
    | some base =>
      have again : ρ.record base ∈ chain.map ρ.record ↔ base ∈ chain :=
        List.mem_map_of_injective ρ.record.injective
      rw [repeatingBases, Option.map_some, repeatingBases, alike.sameMembers.base]
      by_cases listed : base ∈ chain
      · rw [if_pos listed, if_pos (again.mpr listed), Option.map_some, List.map_append]
        rfl
      · rw [if_neg listed, if_neg (mt again.mp listed), ← ih, List.map_append]
        rfl

theorem checkInheritance_alike (accepted : checkInheritance model = .ok ()) :
    checkInheritance model' = .ok () := by
  refine forM_ok_iff.mpr fun id' listed => ?_
  obtain ⟨id, rfl⟩ := ρ.record.surjective id'
  have inside : id.index < model.records.size := by
    rw [← alike.recordRange, ← alike.records]
    exact Layout.mem_recordIds.mp listed
  have passed := forM_ok accepted id (Layout.mem_recordIds.mpr inside)
  have repeats := repeatingBases_rename alike (model.records.size + 1) [id] (model.record id).base
  rw [List.map_singleton, ← alike.sameMembers.base, ← alike.records] at repeats
  rw [repeats, alike.records]
  split at passed
  · rename_i endless
    rw [endless]
    rfl
  · cases passed

end Checks

end Resolution

end RecordSchema
