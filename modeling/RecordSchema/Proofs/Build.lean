import RecordSchema.Proofs.Layout.ConfigDependence
import RecordSchema.Proofs.Layout.Placement
import RecordSchema.Proofs.Resolution.Headers
import RecordSchema.Proofs.Resolution.Values
import RecordSchema.Resolution

/-!
# The stages of a build

An accepted list of units has gone through all passes. What one pass establishes the later ones keep,
as each fills in fields of its own. So a model that is built refers to nothing it does not have.
-/

set_option autoImplicit false

namespace RecordSchema

open Model Outcome

theorem orRefuse_ok {α : Type} {outcome : Except SchemaError α} {result : α}
    (accepted : orRefuse outcome = .ok result) : outcome = .ok result := by
  cases outcome with
  | error error => cases accepted
  | ok value =>
    cases accepted
    rfl

namespace Resolution

/-- What is known once all declarations are resolved. -/
structure Resolved (draft : Draft) (model : Model) : Prop where
  sound : model.Sound
  named : Retains Record.named draft.model model
  declared : ∀ id, (model.attr id).Declared
  methods : model.DeclaresMethods
  unflagged : ∀ id, (model.record id).configDependent = false
  basesEnd : ∀ id : RecordId, id.index < model.records.size → ∃ ids, model.BaseChain id ids

/-- What is known once the headers are resolved: what waits to be resolved is there, and no type has
members of its own yet. -/
structure Headed (draft : Draft) (model : Model) : Prop where
  sound : model.Sound
  named : Retains Record.named draft.model model
  records : ∀ pending ∈ draft.records.toList, pending.id.index < model.records.size
  constants : ∀ pending ∈ draft.constants.toList, pending.id.index < model.constants.size
  enumerations : ∀ pending ∈ draft.enumerations.toList,
    pending.id.index < model.enumerations.size
  noAttributes : model.attributes.size = 0
  noMethods : model.methods.size = 0
  unflagged : ∀ id, (model.record id).configDependent = false

theorem resolveHeaders_ok {draft : Draft} {model : Model} (consistent : draft.Consistent)
    (accepted : draft.records.toList.foldlM resolveHeader draft.model = .ok model) :
    Headed draft model := by
  have kept := foldlM_preserves accepted
    (fun state => state.Sound ∧ state.census = draft.model.census ∧
      Retains Record.named draft.model state ∧ ∀ id, (state.record id).configDependent = false)
    ⟨consistent.sound, rfl, .refl _, fun id => consistent.fresh id ▸ rfl⟩
    fun pending _ state after ⟨sound, census, named, unflagged⟩ taken => by
      obtain ⟨later, same, kept, flag⟩ := resolveHeader_sound sound taken
      exact ⟨later, same.trans census, named.trans kept, fun id => (flag id).trans (unflagged id)⟩
  obtain ⟨sound, census, named, unflagged⟩ := kept
  have records : model.records.size = draft.model.records.size := congrArg Census.records census
  have constants : model.constants.size = draft.model.constants.size :=
    congrArg Census.constants census
  have enumerations : model.enumerations.size = draft.model.enumerations.size :=
    congrArg Census.enumerations census
  have attributes : model.attributes.size = draft.model.attributes.size :=
    congrArg Census.attributes census
  have methods : model.methods.size = draft.model.methods.size := congrArg Census.methods census
  constructor
  case sound => exact sound
  case named => exact named
  case records =>
    intro pending waits
    exact records ▸ consistent.records pending (Array.mem_toList_iff.mp waits)
  case constants =>
    intro pending waits
    exact constants ▸ consistent.constants pending (Array.mem_toList_iff.mp waits)
  case enumerations =>
    intro pending waits
    exact enumerations ▸ consistent.enumerations pending (Array.mem_toList_iff.mp waits)
  case noAttributes =>
    rw [attributes, consistent.noAttributes]
    rfl
  case noMethods =>
    rw [methods, consistent.noMethods]
    rfl
  case unflagged => exact unflagged

/-- The models on the way from a draft to a resolved model. -/
structure Passes (draft : Draft) (built : Built) where
  headed : Model
  withConstants : Model
  withEnumerations : Model
  withAttributes : Model
  withMethods : Model
  headers : draft.records.toList.foldlM resolveHeader draft.model = .ok headed
  identities : checkIdentities headed = .ok ()
  inheritance : checkInheritance headed = .ok ()
  constants : draft.constants.toList.foldlM resolveConstant headed = .ok withConstants
  enumerations :
    draft.enumerations.toList.foldlM resolveEnumeration withConstants = .ok withEnumerations
  attributes : draft.records.toList.foldlM resolveAttributes withEnumerations = .ok withAttributes
  methods : draft.records.toList.foldlM resolveMethods withAttributes = .ok withMethods
  constructors : draft.records.toList.foldlM resolveConstructors (withMethods, []) =
    .ok (built.model, built.warnings)
  members : checkMembers built.model = .ok ()

theorem resolveDeclarations_passes {draft : Draft} {built : Built}
    (accepted : resolveDeclarations draft = .ok built) : Nonempty (Passes draft built) := by
  simp only [resolveDeclarations] at accepted
  obtain ⟨headed, headers, accepted⟩ := bind_ok accepted
  obtain ⟨_, identities, accepted⟩ := bind_ok accepted
  obtain ⟨_, inheritance, accepted⟩ := bind_ok accepted
  obtain ⟨withConstants, constants, accepted⟩ := bind_ok accepted
  obtain ⟨withEnumerations, enumerations, accepted⟩ := bind_ok accepted
  obtain ⟨withAttributes, attributes, accepted⟩ := bind_ok accepted
  obtain ⟨withMethods, methods, accepted⟩ := bind_ok accepted
  obtain ⟨⟨model, warnings⟩, constructors, accepted⟩ := bind_ok accepted
  obtain ⟨_, members, accepted⟩ := bind_ok accepted
  cases accepted
  exact ⟨⟨headed, withConstants, withEnumerations, withAttributes, withMethods, headers, identities,
    inheritance, constants, enumerations, attributes, methods, constructors, members⟩⟩

namespace Passes

variable {draft : Draft} {built : Built} (passes : Passes draft built)
  (consistent : draft.Consistent)

include consistent

theorem isHeaded : Headed draft passes.headed :=
  resolveHeaders_ok consistent passes.headers

theorem constants_step : Step passes.headed passes.withConstants :=
  have headed := passes.isHeaded consistent
  .foldlM passes.constants headed.sound fun pending waits _ _ kept taken =>
    resolveConstant_step kept.sound (kept.constants ▸ headed.constants pending waits) taken

theorem enumerations_step : Step passes.headed passes.withEnumerations :=
  (passes.constants_step consistent).pass passes.enumerations fun pending waits _ _ kept taken =>
    resolveEnumeration_step kept.sound
      (kept.enumerations ▸ (passes.isHeaded consistent).enumerations pending waits) taken

theorem attributes_step : Step passes.headed passes.withAttributes :=
  (passes.enumerations_step consistent).pass passes.attributes fun pending waits _ _ kept taken =>
    resolveAttributes_step kept.sound
      (kept.records ▸ (passes.isHeaded consistent).records pending waits) taken

theorem methods_step : Step passes.headed passes.withMethods :=
  (passes.attributes_step consistent).pass passes.methods fun pending waits _ _ kept taken =>
    resolveMethods_step kept.sound
      (kept.records ▸ (passes.isHeaded consistent).records pending waits) taken

omit consistent in
/-- Constants and enumerations come before all attributes and methods. -/
theorem values_only : passes.withEnumerations.attributes = passes.headed.attributes ∧
    passes.withEnumerations.methods = passes.headed.methods := by
  have constants := foldlM_preserves passes.constants
    (fun state => state.attributes = passes.headed.attributes ∧
      state.methods = passes.headed.methods) ⟨rfl, rfl⟩
    fun _ _ _ _ same taken => by
      obtain ⟨_, rfl⟩ := resolveConstant_ok taken
      exact same
  exact foldlM_preserves passes.enumerations
    (fun state => state.attributes = passes.headed.attributes ∧
      state.methods = passes.headed.methods) constants
    fun _ _ _ _ same taken => by
      obtain ⟨_, _, rfl⟩ := resolveEnumeration_ok taken
      exact same

section Additions

variable {property : Model → Prop}

/-- A pass that adds to each record type what it declares of one kind keeps what each addition
keeps. -/
theorem additions_preserve {δ : Type} (declared : Declaration.Record → List δ)
    (add : RecordId → String → Model → δ → Except SchemaError Model)
    (step : ∀ {model after : Model} {owner : RecordId} {path : String} {declaration : δ},
      model.Sound → owner.index < model.records.size →
        add owner path model declaration = .ok after → Step model after)
    {start final : Model} (before : Step passes.headed start)
    (accepted : draft.records.toList.foldlM (fun model pending =>
      (declared pending.declaration).foldlM (add pending.id pending.path) model) start = .ok final)
    (initial : property start)
    (preserved : ∀ {model after : Model} {owner : RecordId} {path : String} {declaration : δ},
      model.Sound → owner.index < model.records.size → property model →
        add owner path model declaration = .ok after → property after) : property final := by
  have kept := foldlM_preserves accepted (fun state => Step passes.headed state ∧ property state)
    ⟨before, initial⟩ <| by
      rintro pending waits state after earlier taken
      refine foldlM_preserves taken (fun next => Step passes.headed next ∧ property next) earlier ?_
      rintro declaration - state after ⟨reached, holds⟩ added
      have inside : pending.id.index < state.records.size :=
        reached.records ▸ (passes.isHeaded consistent).records pending waits
      exact ⟨reached.trans (step reached.sound inside added),
        preserved reached.sound inside holds added⟩
  exact kept.2

theorem attributes_preserve (initial : property passes.withEnumerations)
    (preserved : ∀ {model after : Model} {owner : RecordId} {path : String}
      {declaration : Declaration.Attribute}, model.Sound → owner.index < model.records.size →
        property model → addAttribute owner path model declaration = .ok after → property after) :
    property passes.withAttributes :=
  passes.additions_preserve consistent Declaration.Record.attributes addAttribute
    (fun sound inside added => addAttribute_step sound inside added)
    (passes.enumerations_step consistent) passes.attributes initial preserved

theorem methods_preserve (initial : property passes.withAttributes)
    (preserved : ∀ {model after : Model} {owner : RecordId} {path : String}
      {declaration : Declaration.Method}, model.Sound → owner.index < model.records.size →
        property model → addDeclaredMethod owner path model declaration = .ok after →
          property after) :
    property passes.withMethods :=
  passes.additions_preserve consistent Declaration.Record.methods addDeclaredMethod
    (fun sound inside added => addDeclaredMethod_step sound inside added)
    (passes.attributes_step consistent) passes.methods initial preserved

end Additions

theorem step : Step passes.headed built.model := by
  refine foldlM_preserves passes.constructors (fun state => Step passes.headed state.1)
    (passes.methods_step consistent) ?_
  rintro pending waits ⟨state, before⟩ ⟨after, remarks⟩ kept taken
  exact kept.trans (resolveConstructors_step kept.sound
    (kept.records ▸ (passes.isHeaded consistent).records pending waits) taken)

end Passes

theorem resolveDeclarations_ok {draft : Draft} {built : Built} (consistent : draft.Consistent)
    (accepted : resolveDeclarations draft = .ok built) : Resolved draft built.model := by
  obtain ⟨passes⟩ := resolveDeclarations_passes accepted
  have headed := passes.isHeaded consistent
  have step := passes.step consistent
  refine ⟨step.sound, headed.named.trans step.named, step.declared fun id => ?_,
    step.methods fun id => ?_,
    fun id => (step.field Record.configDependent (fun _ => rfl) id).trans (headed.unflagged id),
    fun id inside => ?_⟩
  · have outside : ¬ id.index < passes.headed.attributes.size := by
      rw [headed.noAttributes]
      exact Nat.not_lt_zero _
    rw [passes.headed.attr_eq_default outside]
    exact Attribute.declared_default
  · have outside : ¬ id.index < passes.headed.methods.size := by
      rw [headed.noMethods]
      exact Nat.not_lt_zero _
    rw [passes.headed.method_eq_default outside]
    exact passes.headed.declaresMethod_default
  · rw [step.records] at inside
    obtain ⟨ids, chain⟩ := checkInheritance_ok headed.sound.closed passes.inheritance inside
    exact ⟨ids, chain.congr step.base⟩

theorem agree_resolveSchemas {model after : Model} {pending : Pending RecordId Declaration.Record}
    (accepted : resolveSchemas model pending = .ok after) : Agree .schemas model after := by
  simp only [resolveSchemas] at accepted
  obtain ⟨declared, _, accepted⟩ := bind_ok accepted
  cases accepted
  exact .modifyRecord model pending.id fun _ => rfl

end Resolution

/-- Derived fields are no part of what names say. -/
theorem Model.Agree.retains {before after : Model} (agree : Agree .derived before after) :
    Retains Record.named before after where
  packages := agree.packages
  roots := agree.roots
  records := agree.recordCount
  enumerations := by rw [agree.enumerations]
  constants := by rw [agree.constants]
  view := agree.recordField Record.named fun _ => rfl
  enumeration id := by simp only [Model.enumeration, agree.enumerations, and_self]
  constant id := by simp only [Model.constant, agree.constants, and_self]

/-- The models on the way from units to the model that is built. -/
structure Stages (units : List SourceUnit) (built : Built) where
  draft : Draft
  resolved : Model
  order : List RecordId
  placed : Model
  stored : Model
  named : Draft.ofUnits units = .ok draft
  resolution : Resolution.resolveDeclarations draft = .ok ⟨resolved, built.warnings⟩
  ordered : Layout.order resolved = .ok order
  placement : order.foldlM Layout.placeRecord resolved = .ok placed
  configs : Layout.checkConfigs (Layout.withDependence placed) = .ok ()
  storage : Layout.withStorage (Layout.withDependence placed) order = some stored
  schemas : draft.records.toList.foldlM Resolution.resolveSchemas stored = .ok built.model

theorem build_stages {units : List SourceUnit} {built : Built} (accepted : build units = .ok built) :
    Nonempty (Stages units built) := by
  simp only [build] at accepted
  obtain ⟨draft, named, accepted⟩ := bind_ok accepted
  obtain ⟨resolved, resolution, accepted⟩ := bind_ok accepted
  obtain ⟨stored, laidOut, accepted⟩ := bind_ok accepted
  obtain ⟨complete, schemas, accepted⟩ := bind_ok accepted
  cases accepted
  simp only [Resolution.layOut] at laidOut
  obtain ⟨order, ordered, laidOut⟩ := bind_ok laidOut
  obtain ⟨placed, placement, laidOut⟩ := bind_ok laidOut
  obtain ⟨_, configs, storage⟩ := bind_ok laidOut
  refine ⟨⟨draft, resolved.model, order, placed, stored, orRefuse_ok named, orRefuse_ok resolution, ?_,
    placement, orRefuse_ok configs, orOverflow_ok storage, orRefuse_ok schemas⟩⟩
  unfold Layout.orderOrRefuse at ordered
  split at ordered
  · rename_i found
    cases ordered
    exact found
  · cases ordered

namespace Stages

variable {units : List SourceUnit} {built : Built} (stages : Stages units built)

include stages

/-- Units that pass all stages are accepted. -/
theorem accepted : build units = .ok built := by
  have order : Layout.orderOrRefuse stages.resolved = .ok stages.order := by
    rw [Layout.orderOrRefuse, stages.ordered]
  have placement : stages.order.foldlM Layout.placeRecord stages.resolved = .ok stages.placed :=
    stages.placement
  simp only [build, Resolution.layOut, bind, Except.bind, stages.named, orRefuse, stages.resolution,
    order, placement, stages.configs, stages.storage, orOverflow, stages.schemas]

theorem isResolved : Resolution.Resolved stages.draft stages.resolved :=
  Resolution.resolveDeclarations_ok (Draft.ofUnits_consistent stages.named) stages.resolution

theorem agree_placed : Agree .layout stages.resolved stages.placed :=
  (Layout.placeRecords_laidOut stages.isResolved.sound.toLinked (Layout.order_ok stages.ordered)
    stages.placement).1

theorem agree_stored : Agree .schemas stages.stored built.model :=
  foldlM_preserves stages.schemas (Agree .schemas stages.stored) (.refl _)
    fun _ _ _ _ agree taken => agree.trans (Resolution.agree_resolveSchemas taken)

/-- Storage and schemas are all that is filled in after the flags. -/
theorem agree_flagged : Agree .storage (Layout.withDependence stages.placed) built.model :=
  .trans (Layout.agree_withStorage (fun _ => rfl) stages.storage)
    (stages.agree_stored.coarsen (fun _ => rfl) (fun _ => rfl) fun _ => rfl)

theorem agree_later : Agree .later stages.placed built.model :=
  .trans ((Layout.agree_withDependence stages.placed).coarsen (fun _ => rfl) (fun _ => rfl)
    fun _ => rfl) (stages.agree_flagged.coarsen (fun _ => rfl) (fun _ => rfl) fun _ => rfl)

theorem agree_derived : Agree .derived stages.resolved built.model :=
  .trans (stages.agree_placed.coarsen (fun _ => rfl) (fun _ => rfl) fun _ => rfl)
    (stages.agree_later.coarsen (fun _ => rfl) (fun _ => rfl) fun _ => rfl)

/-- Only the first dimension of an attribute may be without bound. -/
theorem boundedTail (attr : AttributeId) :
    ∀ dimension ∈ (built.model.attr attr).shape.tail, ∃ count, dimension = .bounded count := by
  have shape := stages.agree_derived.attrField Attribute.shape (fun _ => rfl) attr
  exact shape ▸ (stages.isResolved.declared attr).tail

/-- What the pass over names has said stands in the model that is built. -/
theorem retained : Retains Record.named stages.draft.model built.model :=
  stages.isResolved.named.trans stages.agree_derived.retains

theorem stored_sound : stages.stored.Sound := by
  have placedClosed := Layout.placeRecords_closed stages.isResolved.sound.closed stages.placement
  have marked : Agree .marks stages.placed stages.stored :=
    .trans ((Layout.agree_withDependence stages.placed).coarsen (fun _ => rfl) (fun _ => rfl)
      fun _ => rfl) (Layout.agree_withStorage (fun _ => rfl) stages.storage)
  have same : Agree .derived stages.resolved stages.stored :=
    .trans (stages.agree_placed.coarsen (fun _ => rfl) (fun _ => rfl) fun _ => rfl)
      (marked.coarsen (fun _ => rfl) (fun _ => rfl) fun _ => rfl)
  refine stages.isResolved.sound.of_sameLinks same.sameLinks ?_
  rw [Closed, same.census]
  exact marked.closed placedClosed

theorem sound : built.model.Sound :=
  (Resolution.Step.foldlM stages.schemas stages.stored_sound
    fun _ _ _ _ kept taken => Resolution.resolveSchemas_step kept.sound taken).sound

theorem settled : Layout.Settled built.model :=
  .of_agree stages.agree_flagged (Layout.withDependence_settled stages.placed)

/-- No attribute has a mark before storage. -/
theorem unstored (id : AttributeId) :
    ((Layout.withDependence stages.placed).attr id).stored = false := by
  have flags := Layout.agree_withDependence stages.placed
  rw [flags.attrField Attribute.stored fun _ => rfl,
    stages.agree_placed.attrField Attribute.stored fun _ => rfl]
  exact (stages.isResolved.declared id).unstored

theorem storedUnflagged : Layout.StoredUnflagged built.model := by
  have marked := Layout.storedUnflagged_withStorage stages.storage stages.unstored
  intro id stored
  have same : built.model.attr id = stages.stored.attr id := stages.agree_stored.attr id
  rw [same] at stored ⊢
  exact marked id stored

theorem laidOut {id : RecordId} (inside : id.index < built.model.records.size) :
    Layout.LaidOut built.model id := by
  have agree := stages.agree_later
  have count := agree.recordCount.trans stages.agree_placed.recordCount
  have placed := (Layout.placeRecords_laidOut stages.isResolved.sound.toLinked
    (Layout.order_ok stages.ordered) stages.placement).2 id (count ▸ inside)
  refine placed.congr ?_
  constructor
  case pack => exact agree.recordField Record.pack (fun _ => rfl) id
  case base => exact agree.recordField Record.base (fun _ => rfl) id
  case attributes => exact agree.recordField Record.attributes (fun _ => rfl) id
  case size => exact agree.recordField Record.size (fun _ => rfl) id
  case align => exact agree.recordField Record.align (fun _ => rfl) id
  case attr => exact fun attr _ => agree.attr attr
  case needed =>
    exact fun target _ => ⟨agree.recordField Record.size (fun _ => rfl) target,
      agree.recordField Record.align (fun _ => rfl) target⟩
  case enumerations => exact agree.enumerations
  case methodName => exact agree.methodField Method.name fun _ => rfl

end Stages

/-- What can be computed of the model that is built from concrete units. -/
theorem exists_built {units : List SourceUnit} {property : Built → Prop} [DecidablePred property]
    (holds : (build units).toOption.any fun built => decide (property built)) :
    ∃ built, build units = .ok built ∧ property built :=
  exists_ok holds

/-- A record type, and a packed one that extends it by a table and by as many bytes as a member of it
says. -/
def sampleUnits : List SourceUnit :=
  let header : Declaration.Record :=
    { name := "Header", attributes := [{ name := "kind", typeName := some "uint8_t" }] }
  let attributes : List Declaration.Attribute :=
    [{ name := "count", typeName := some "uint16_t", bitfields := [{ name := "low", size := some 4 }] },
      { name := "table", typeName := some "uint32_t", shape := ["3", "2"] },
      { name := "bytes", typeName := some "uint8_t", shape := ["\x7bself\x7d.count"] },
      { name := "rest", typeName := some "uint16_t", shape := ["*", "4"] }]
  let list : Declaration.Record :=
    { name := "List", base := some "Header", pack := some 4, attributes }
  [{ document := { packages := [.mk "Sample" none [] [] [] [] [header, list]] } }]

/-!
## Integrity

The links of a model that is built agree, and whoever follows them upward gets to an end.
-/

namespace Model

/-- Nothing goes wrong on the way through a model: what is stored is in range, what belongs together
is linked both ways, and the walks to bases and to surrounding packages are complete and stay within
the model. -/
structure Intact (model : Model) : Prop extends Sound model where
  inRange : InRange model.census model.references
  lineage : ∀ id : RecordId, id.index < model.records.size →
    model.BaseChain id (model.lineage id) ∧
      ∀ other ∈ model.lineage id, other.index < model.records.size
  enclosing : ∀ id : PackageId, id.index < model.packages.size →
    model.ParentChain id (model.enclosing id) ∧
      ∀ outer ∈ model.enclosing id, outer.index < model.packages.size

theorem Sound.intact {model : Model} (sound : model.Sound)
    (basesEnd : ∀ id : RecordId, id.index < model.records.size → ∃ ids, model.BaseChain id ids) :
    model.Intact := by
  refine { sound with inRange := closedFor_iff.mp sound.closed, lineage := ?_, enclosing := ?_ }
  · intro id inside
    obtain ⟨ids, chain⟩ := basesEnd id inside
    have whole := lineage_eq sound.closed inside chain
    exact ⟨whole ▸ chain, sound.closed.lineage inside⟩
  · exact fun id inside => ⟨sound.parentChain inside, sound.closed.enclosing inside⟩

end Model

/-- The base links among the resolved types are those of the built model. -/
theorem Stages.basesEnd {units : List SourceUnit} {built : Built} (stages : Stages units built)
    {id : RecordId} (inside : id.index < built.model.records.size) :
    ∃ ids, built.model.BaseChain id ids := by
  obtain ⟨ids, chain⟩ := stages.isResolved.basesEnd id (stages.agree_derived.recordCount ▸ inside)
  exact ⟨ids, chain.congr fun other => stages.agree_derived.base other⟩

/-- No two types of the built model have the same identity. -/
theorem Stages.identities {units : List SourceUnit} {built : Built} (stages : Stages units built)
    {first second : RecordId} (inside : first.index < built.model.records.size)
    (inside' : second.index < built.model.records.size) {identity : Identity}
    (declared : (built.model.record first).identity = some identity)
    (declared' : (built.model.record second).identity = some identity) : first = second := by
  obtain ⟨passes⟩ := Resolution.resolveDeclarations_passes stages.resolution
  have step := passes.step (Draft.ofUnits_consistent stages.named)
  have agree := stages.agree_derived
  have count : built.model.records.size = passes.headed.records.size :=
    agree.recordCount.trans step.records
  have same : ∀ id, (built.model.record id).identity = (passes.headed.record id).identity := fun id =>
    (agree.recordField Record.identity (fun _ => rfl) id).trans
      (step.field Record.identity (fun _ => rfl) id)
  rw [same] at declared declared'
  rw [count] at inside inside'
  exact Resolution.checkIdentities_ok passes.identities inside inside' declared declared'

/-- Whatever the units are, a model that is built from them is intact. -/
theorem build_intact {units : List SourceUnit} {built : Built} (accepted : build units = .ok built) :
    built.model.Intact := by
  obtain ⟨stages⟩ := build_stages accepted
  exact stages.sound.intact fun _ inside => stages.basesEnd inside

theorem build_intact_sample : ∃ built, build sampleUnits = .ok built ∧
    built.model.census = ⟨1, 2, 5, 1, 6, 0, 0⟩ ∧ built.model.Intact := by
  have computed : ∃ built, build sampleUnits = .ok built ∧
      built.model.census = ⟨1, 2, 5, 1, 6, 0, 0⟩ := exists_built (by decide +kernel)
  obtain ⟨built, accepted, census⟩ := computed
  exact ⟨built, accepted, census, build_intact accepted⟩

end RecordSchema
