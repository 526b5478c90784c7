import RecordSchema.Proofs.Build
import RecordSchema.Proofs.Layout.Overflow

/-!
# Where a build comes to no answer

A build goes from one model to the next, a declaration, a record type or a pass at a time. Whatever it
follows on the way is there: what a model refers to, and what the declarations that wait for their turn
stand for. The only thing that can keep it from an answer is a number of a layout that is no word.
-/

set_option autoImplicit false

namespace RecordSchema

open Model Outcome

/-- The models that a build can come to from a draft. -/
inductive Reached (draft : Draft) : Model → Prop where
  | named : Reached draft draft.model
  | header {before after : Model} {pending : Pending RecordId Declaration.Record} :
      Reached draft before → pending ∈ draft.records →
        Resolution.resolveHeader before pending = .ok after → Reached draft after
  | constant {before after : Model} {pending : Pending ConstantId Declaration.Constant} :
      Reached draft before → pending ∈ draft.constants →
        Resolution.resolveConstant before pending = .ok after → Reached draft after
  | enumeration {before after : Model} {pending : Pending EnumId Declaration.Enumeration} :
      Reached draft before → pending ∈ draft.enumerations →
        Resolution.resolveEnumeration before pending = .ok after → Reached draft after
  | member {before after : Model} {pending : Pending RecordId Declaration.Record}
      {declaration : Declaration.Attribute} :
      Reached draft before → pending ∈ draft.records →
        Resolution.addAttribute pending.id pending.path before declaration = .ok after →
          Reached draft after
  | method {before after : Model} {pending : Pending RecordId Declaration.Record}
      {declaration : Declaration.Method} :
      Reached draft before → pending ∈ draft.records →
        Resolution.addDeclaredMethod pending.id pending.path before declaration = .ok after →
          Reached draft after
  | constructors {before after : Model} {pending : Pending RecordId Declaration.Record}
      {warnings remarks : List Warning} :
      Reached draft before → pending ∈ draft.records →
        Resolution.resolveConstructors (before, warnings) pending = .ok (after, remarks) →
          Reached draft after
  | placed {before after : Model} {id : RecordId} :
      Reached draft before → Layout.placeRecord before id = .ok after → Reached draft after
  | flagged {before : Model} : Reached draft before → Reached draft (Layout.withDependence before)
  | stored {before after : Model} {id : RecordId} :
      Reached draft before → Layout.storeRecord before id = some after → Reached draft after
  | schemas {before after : Model} {pending : Pending RecordId Declaration.Record} :
      Reached draft before → pending ∈ draft.records →
        Resolution.resolveSchemas before pending = .ok after → Reached draft after

/-- A model has what it refers to, what the pending declarations of a draft stand for, and the types
that layout takes one after the other. -/
structure InPlace (draft : Draft) (model : Model) : Prop where
  sound : model.Sound
  records : ∀ pending ∈ draft.records, pending.id.index < model.records.size
  constants : ∀ pending ∈ draft.constants, pending.id.index < model.constants.size
  enumerations : ∀ pending ∈ draft.enumerations, pending.id.index < model.enumerations.size
  ordered : ∀ ordered, Layout.order model = .ok ordered →
    ∀ id ∈ ordered, id.index < model.records.size

namespace InPlace

variable {draft : Draft} {before after : Model}

private theorem of_sizes (inPlace : InPlace draft before) (sound : after.Sound)
    (records : after.records.size = before.records.size)
    (constants : after.constants.size = before.constants.size)
    (enumerations : after.enumerations.size = before.enumerations.size) : InPlace draft after where
  sound := sound
  records pending waits := records ▸ inPlace.records pending waits
  constants pending waits := constants ▸ inPlace.constants pending waits
  enumerations pending waits := enumerations ▸ inPlace.enumerations pending waits
  ordered _ found id := (Layout.order_ok found |>.complete id).mp

private theorem of_step (inPlace : InPlace draft before) (step : Resolution.Step before after) :
    InPlace draft after :=
  inPlace.of_sizes step.sound step.records step.constants step.enumerations

/-- What is filled in after the declarations are resolved adds nothing that could be missing. -/
theorem of_agree (inPlace : InPlace draft before) (agree : Agree .derived before after)
    (closed : after.ClosedFor before.census) : InPlace draft after := by
  refine inPlace.of_sizes (inPlace.sound.of_sameLinks agree.sameLinks ?_) agree.recordCount
    (congrArg Array.size agree.constants) (congrArg Array.size agree.enumerations)
  rw [Closed, agree.census]
  exact closed

end InPlace

private theorem Draft.Consistent.inPlace {draft : Draft} (consistent : draft.Consistent) :
    InPlace draft draft.model where
  sound := consistent.sound
  records := consistent.records
  constants := consistent.constants
  enumerations := consistent.enumerations
  ordered _ found id := (Layout.order_ok found |>.complete id).mp

namespace Reached

variable {draft : Draft} {model : Model}

/-- No step of a build follows what is not there. -/
theorem inPlace (reached : Reached draft model) (consistent : draft.Consistent) :
    InPlace draft model := by
  induction reached with
  | named => exact consistent.inPlace
  | header _ _ taken ih =>
    obtain ⟨sound, census, _, _⟩ := Resolution.resolveHeader_sound ih.sound taken
    exact ih.of_sizes sound (congrArg Census.records census) (congrArg Census.constants census)
      (congrArg Census.enumerations census)
  | constant _ waits taken ih =>
    exact ih.of_step (Resolution.resolveConstant_step ih.sound (ih.constants _ waits) taken)
  | enumeration _ waits taken ih =>
    exact ih.of_step (Resolution.resolveEnumeration_step ih.sound (ih.enumerations _ waits) taken)
  | member _ waits taken ih =>
    exact ih.of_step (Resolution.addAttribute_step ih.sound (ih.records _ waits) taken)
  | method _ waits taken ih =>
    exact ih.of_step (Resolution.addDeclaredMethod_step ih.sound (ih.records _ waits) taken)
  | constructors _ waits taken ih =>
    exact ih.of_step (Resolution.resolveConstructors_step ih.sound (ih.records _ waits) taken)
  | placed _ taken ih =>
    exact ih.of_agree
      ((Layout.placeRecord_agree taken).coarsen (fun _ => rfl) (fun _ => rfl) fun _ => rfl)
      (Layout.placeRecord_closed ih.sound.closed rfl rfl taken)
  | @flagged before _ ih =>
    have flags := Layout.agree_withDependence before
    have marks : Agree .marks before (Layout.withDependence before) :=
      flags.coarsen (fun _ => rfl) (fun _ => rfl) fun _ => rfl
    exact ih.of_agree (flags.coarsen (fun _ => rfl) (fun _ => rfl) fun _ => rfl)
      (marks.closed ih.sound.closed)
  | @stored before after id _ taken ih =>
    rw [Layout.storeRecord_eq] at taken
    have marks : Agree .marks before after := Layout.storeAttributes_preserves taken
      (fun state id _ (agree : Agree .marks before state) =>
        agree.trans (.modifyAttribute state id fun _ => rfl)) (.refl before)
    exact ih.of_agree (marks.coarsen (fun _ => rfl) (fun _ => rfl) fun _ => rfl)
      (marks.closed ih.sound.closed)
  | schemas _ _ taken ih => exact ih.of_step (Resolution.resolveSchemas_step ih.sound taken)

/-- A pass over pending declarations leads on. -/
theorem pass {ε α : Type} {items : List α} {step : Model → α → Except ε Model} {final : Model}
    (reached : Reached draft model) (accepted : items.foldlM step model = .ok final)
    (one : ∀ item ∈ items, ∀ before after, Reached draft before → step before item = .ok after →
      Reached draft after) : Reached draft final :=
  foldlM_preserves accepted (Reached draft) reached one

end Reached

theorem Resolution.Passes.reached {draft : Draft} {built : Built} (passes : Passes draft built) :
    Reached draft built.model := by
  have headed : Reached draft passes.headed :=
    Reached.named.pass passes.headers fun _ waits _ _ before taken =>
      before.header (Array.mem_toList_iff.mp waits) taken
  have withConstants := headed.pass passes.constants fun _ waits _ _ before taken =>
    before.constant (Array.mem_toList_iff.mp waits) taken
  have withEnumerations := withConstants.pass passes.enumerations fun _ waits _ _ before taken =>
    before.enumeration (Array.mem_toList_iff.mp waits) taken
  have withAttributes := withEnumerations.pass passes.attributes fun _ waits _ _ before taken =>
    before.pass taken fun _ _ _ _ before taken =>
      before.member (Array.mem_toList_iff.mp waits) taken
  have withMethods := withAttributes.pass passes.methods fun _ waits _ _ before taken =>
    before.pass taken fun _ _ _ _ before taken =>
      before.method (Array.mem_toList_iff.mp waits) taken
  refine foldlM_preserves passes.constructors (fun state => Reached draft state.1) withMethods ?_
  rintro pending waits ⟨state, warnings⟩ ⟨after, remarks⟩ before taken
  exact before.constructors (Array.mem_toList_iff.mp waits) taken

/-- A build gets to its outcome over the models that are listed. -/
theorem Stages.reached {units : List SourceUnit} {built : Built} (stages : Stages units built) :
    Reached stages.draft built.model := by
  obtain ⟨passes⟩ := Resolution.resolveDeclarations_passes stages.resolution
  have placed := passes.reached.pass stages.placement fun _ _ _ _ before taken => before.placed taken
  have stored : Reached stages.draft stages.stored :=
    foldlM_preserves_option stages.storage (Reached stages.draft) placed.flagged
      fun _ _ _ _ before taken => before.stored taken
  exact stored.pass stages.schemas fun _ waits _ _ before taken =>
    before.schemas (Array.mem_toList_iff.mp waits) taken

/-!
## Numbers that are no words
-/

private theorem orRefuse_ne_overflow {α : Type} {outcome : Except SchemaError α} :
    orRefuse outcome ≠ .error .overflow := by
  cases outcome <;> simp [orRefuse]

namespace Layout

/-- Once all types are placed no number is missing: storage computes nothing that placement has not. -/
theorem exists_stored {draft : Draft} {resolved : Built} {ordered : List RecordId} {placed : Model}
    (consistent : draft.Consistent)
    (resolution : Resolution.resolveDeclarations draft = .ok resolved)
    (sorted : order resolved.model = .ok ordered)
    (placement : ordered.foldlM placeRecord resolved.model = .ok placed) :
    ∃ stored, withStorage (withDependence placed) ordered = some stored := by
  have known := Resolution.resolveDeclarations_ok consistent resolution
  obtain ⟨agree, laidOut⟩ := placeRecords_laidOut known.sound.toLinked (order_ok sorted) placement
  have ranged : Ranged placed := ranged_of_laidOut
    (fun id inside => laidOut id (agree.recordCount ▸ inside))
    fun id => agree.attrField Attribute.shape (fun _ => rfl) id ▸ (known.declared id).tail
  refine exists_withStorage ?_ ordered
  intro id attr listed
  have flags := agree_withDependence placed
  rw [flags.recordField Record.attributes fun _ => rfl] at listed
  rw [flags.attrField fixedRange fun _ => rfl]
  exact ranged id attr listed

private theorem layOut_overflow {draft : Draft} {resolved : Built} (consistent : draft.Consistent)
    (resolution : Resolution.resolveDeclarations draft = .ok resolved)
    (failed : Resolution.layOut resolved.model = .error .overflow) :
    ∃ ordered, order resolved.model = .ok ordered ∧
      ordered.foldlM placeRecord resolved.model = .error .overflow := by
  simp only [Resolution.layOut] at failed
  rcases bind_error failed with ordering | ⟨ordered, ordering, failed⟩
  · obtain ⟨_, _, impossible⟩ := orderOrRefuse_fails resolved.model _ ordering
    cases impossible
  have sorted : order resolved.model = .ok ordered := by
    unfold orderOrRefuse at ordering
    split at ordering
    · cases ordering
      assumption
    · cases ordering
  refine ⟨ordered, sorted, ?_⟩
  rcases bind_error failed with failed | ⟨placed, placement, failed⟩
  · exact failed
  rcases bind_error failed with failed | ⟨_, -, failed⟩
  · exact absurd failed orRefuse_ne_overflow
  · obtain ⟨stored, computed⟩ := exists_stored consistent resolution sorted placement
    rw [computed] at failed
    cases failed

/-- A build comes to no answer exactly where placement comes to a number that is no word. -/
theorem build_overflow {units : List SourceUnit} : build units = .error .overflow ↔
    ∃ resolved ordered, ReachesPlacement units resolved ordered ∧
      PlacementExceeds resolved ordered := by
  constructor
  · intro failed
    simp only [build] at failed
    rcases bind_error failed with failed | ⟨draft, named, failed⟩
    · exact absurd failed orRefuse_ne_overflow
    have consistent := Draft.ofUnits_consistent (orRefuse_ok named)
    rcases bind_error failed with failed | ⟨resolved, resolution, failed⟩
    · exact absurd failed orRefuse_ne_overflow
    have resolution := orRefuse_ok resolution
    rcases bind_error failed with failed | ⟨_, -, failed⟩
    · obtain ⟨ordered, sorted, failed⟩ := layOut_overflow consistent resolution failed
      obtain ⟨numbered, sized⟩ := Resolution.resolveDeclarations_words consistent resolution
      exact ⟨resolved.model, ordered,
        ⟨draft, resolved.warnings, orRefuse_ok named, resolution, sorted⟩,
        (placeRecords_overflow numbered sized).mp failed⟩
    · rcases bind_error failed with failed | ⟨_, -, failed⟩
      · exact absurd failed orRefuse_ne_overflow
      · cases failed
  · rintro ⟨resolved, ordered, reached, exceeds⟩
    refine build_of_placement_error reached ?_
    obtain ⟨draft, warnings, named, resolution, sorted⟩ := reached
    obtain ⟨numbered, sized⟩ :=
      Resolution.resolveDeclarations_words (Draft.ofUnits_consistent named) resolution
    exact (placeRecords_overflow numbered sized).mpr exceeds

end Layout

/-- A build comes to no answer if and only if placement, at some attribute, moves an end up to the
alignment, multiplies leading dimensions, multiplies them by the element size, or adds that to the
offset, and the result is no word. Apart from that it has an answer: whatever it follows is there. -/
theorem build_overflow_iff (units : List SourceUnit) :
    (build units = .error .overflow ↔ ∃ resolved ordered,
        Layout.ReachesPlacement units resolved ordered ∧ Layout.PlacementExceeds resolved ordered) ∧
      ∀ draft, Draft.ofUnits units = .ok draft →
        (∀ model, Reached draft model → InPlace draft model) ∧
          ∀ built, build units = .ok built → Reached draft built.model := by
  refine ⟨Layout.build_overflow, fun draft named => ⟨fun model reached => ?_, ?_⟩⟩
  · exact reached.inPlace (Draft.ofUnits_consistent named)
  · intro built accepted
    obtain ⟨stages⟩ := build_stages accepted
    cases stages.named.symm.trans named
    exact stages.reached

/-- A table of more cells than a word can count. -/
def countlessUnits : List SourceUnit :=
  let table : Declaration.Attribute :=
    { name := "cells", typeName := some "uint8_t", shape := ["4294967296", "4294967296"] }
  let record : Declaration.Record := { name := "Table", attributes := [table] }
  [{ document := { packages := [.mk "Sample" none [] [] [] [] [record]] } }]

/-- Nothing but the dimensions is large, and the build has no answer. -/
theorem build_not_total : ¬ ∀ units, build units ≠ .error .overflow :=
  fun total => total countlessUnits (build_fails (by decide +kernel))

theorem build_overflow_sample :
    (∃ resolved ordered, Layout.ReachesPlacement countlessUnits resolved ordered ∧
      Layout.PlacementExceeds resolved ordered) ∧
    ∃ draft built, Draft.ofUnits sampleUnits = .ok draft ∧ build sampleUnits = .ok built ∧
      Reached draft built.model ∧ InPlace draft built.model := by
  have fails : build countlessUnits = .error .overflow := build_fails (by decide +kernel)
  refine ⟨(build_overflow_iff countlessUnits).1.mp fails, ?_⟩
  have computed : ∃ built, build sampleUnits = .ok built ∧ True := exists_built (by decide +kernel)
  obtain ⟨built, accepted, -⟩ := computed
  obtain ⟨stages⟩ := build_stages accepted
  obtain ⟨inPlace, reached⟩ := (build_overflow_iff sampleUnits).2 stages.draft stages.named
  exact ⟨stages.draft, built, stages.named, accepted, reached built accepted,
    inPlace _ (reached built accepted)⟩

end RecordSchema
