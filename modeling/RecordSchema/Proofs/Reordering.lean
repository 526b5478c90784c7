import RecordSchema.Proofs.Renaming.Schemas

/-!
# The order of units

The order in which units are taken, and which of them are included, decide on identifiers, on the order
of layout and on the number of rounds for flags. None of this shows in the layout that is built, nor in
what references stand for, nor in whether anything is built.
-/

set_option autoImplicit false

namespace RecordSchema

open Model Outcome

/-!
## Corresponding models
-/

/-- Attributes of the same name, layout and marks, whose types are the same declaration. -/
structure Attribute.Corresponds (ρ : Renaming) (attr attr' : Attribute) : Prop where
  name : attr'.name = attr.name
  type : attr'.type = attr.type.rename ρ
  offset : attr'.offset.source = attr.offset.source
  elementSize : attr'.elementSize.source = attr.elementSize.source
  configDependent : attr'.configDependent = attr.configDependent
  stored : attr'.stored = attr.stored

/-- Bitfields of the same name and place, whose types are the same declaration. -/
structure Bitfield.Corresponds (ρ : Renaming) (bitfield bitfield' : Bitfield) : Prop where
  name : bitfield'.name = bitfield.name
  offset : bitfield'.offset = bitfield.offset
  width : bitfield'.width = bitfield.width
  type : bitfield'.type = bitfield.type.rename ρ

/-- Methods of the same name and mark, whose types are the same declarations. -/
structure Method.Corresponds (ρ : Renaming) (method method' : Method) : Prop where
  name : method'.name = method.name
  result : method'.result = method.result.map (TypeRef.rename ρ)
  arguments : method'.arguments.map (·.type) =
    (method.arguments.map (·.type)).map (Option.map (TypeRef.rename ρ))
  configDependent : method'.configDependent = method.configDependent

/-- Record types of the same layout, whose references stand for the same declarations. -/
structure RecordsCorrespond (ρ : Renaming) (model model' : Model) (id id' : RecordId) : Prop where
  base : (model'.record id').base = (model.record id).base.map ρ.record
  configs : (model'.record id').configs = (model.record id).configs.map ρ.record
  size : (model'.record id').size.source = (model.record id).size.source
  align : (model'.record id').align = (model.record id).align
  configDependent : (model'.record id').configDependent = (model.record id).configDependent
  attributes : List.Forall₂ (fun attr attr' =>
      (model.attr attr).Corresponds ρ (model'.attr attr') ∧
        List.Forall₂ (fun bitfield bitfield' =>
            (model.bitfield bitfield).Corresponds ρ (model'.bitfield bitfield'))
          (model.attr attr).bitfields (model'.attr attr').bitfields)
    (model.record id).attributes (model'.record id').attributes
  methods : List.Forall₂ (fun method method' =>
      (model.method method).Corresponds ρ (model'.method method'))
    (model.record id).methods (model'.record id').methods
  constructors : (model'.record id').constructors.map (fun one => one.arguments.map (·.type)) =
    (model.record id).constructors.map fun one => one.arguments.map fun argument =>
      argument.type.rename ρ

/-- The declarations of two models that stand at the same site under the same name correspond. -/
structure Model.Corresponds (ρ : Renaming) (model model' : Model) : Prop extends
    Matches ρ model model' where
  record : ∀ id : RecordId, id.index < model.records.size →
    RecordsCorrespond ρ model model' id (ρ.record id)
  enumeration : ∀ id : EnumId, id.index < model.enumerations.size →
    (model'.enumeration (ρ.enumeration id)).base = (model.enumeration id).base

private theorem SameAttribute.corresponds {ρ : Renaming} {model model' : Model} {attr attr' : AttributeId}
    (same : SameAttribute ρ model model' attr attr') :
    (model.attr attr).Corresponds ρ (model'.attr attr') where
  name := same.name
  type := same.type
  offset := by
    have offset : (model'.attr attr').offset = (model.attr attr).offset.rename ρ :=
      (congrArg Attribute.offset same.bare :)
    rw [offset, Expr.source_rename]
  elementSize := by
    have elementSize : (model'.attr attr').elementSize = (model.attr attr).elementSize.rename ρ :=
      (congrArg Attribute.elementSize same.bare :)
    rw [elementSize, Expr.source_rename]
  configDependent := (congrArg Attribute.configDependent same.bare :)
  stored := (congrArg Attribute.stored same.bare :)

private theorem SameBitfield.corresponds {ρ : Renaming} {model model' : Model}
    {bitfield bitfield' : BitfieldId} (same : SameBitfield ρ model model' bitfield bitfield') :
    (model.bitfield bitfield).Corresponds ρ (model'.bitfield bitfield') where
  name := same.name
  offset := (congrArg Bitfield.offset same :)
  width := (congrArg Bitfield.width same :)
  type := same.type

private theorem SameMethod.corresponds {ρ : Renaming} {model model' : Model} {method method' : MethodId}
    (same : SameMethod ρ model model' method method') :
    (model.method method).Corresponds ρ (model'.method method') where
  name := same.name
  result := (congrArg MethodView.result same :)
  arguments := (congrArg MethodView.arguments same :)
  configDependent := (congrArg MethodView.configDependent same :)

private theorem Alike.recordsCorrespond {ρ : Renaming} {model model' : Model} (alike : Alike ρ model model')
    (id : RecordId) : RecordsCorrespond ρ model model' id (ρ.record id) where
  base := alike.sameMembers.base id
  configs := alike.configs id
  size := by
    have size : (model'.record (ρ.record id)).size = (model.record id).size.rename ρ :=
      congrArg RecordView.size (alike.view id)
    rw [size, Expr.source_rename]
  align := congrArg RecordView.align (alike.view id)
  configDependent := congrArg RecordView.configDependent (alike.view id)
  attributes := (alike.sameMembers.attributePairs id).imp fun _ _ same =>
    ⟨same.corresponds, same.bitfieldPairs.imp fun _ _ bits => bits.corresponds⟩
  methods := (alike.sameMembers.methodPairs id).imp fun _ _ same => same.corresponds
  constructors := by
    have constructors : (model'.record (ρ.record id)).constructors.map Constructor.view =
        ((model.record id).constructors.map Constructor.view).map (ConstructorView.rename ρ) :=
      congrArg RecordView.constructors (alike.view id)
    have types := congrArg (List.map ConstructorView.arguments) constructors
    rw [List.map_map, List.map_map, List.map_map] at types
    refine types.trans (List.map_congr_left fun one _ => ?_)
    exact List.map_map

/-!
## Names of built models
-/

section Retains

variable {before after : Model} (kept : Retains Record.named before after)

include kept

theorem Model.Retains.key (member : Member) : after.key member = before.key member := by
  have site : ∀ place, after.site place = before.site place := by
    rintro (_ | id | id)
    · rfl
    · rw [Model.site, kept.packageNames]; rfl
    · rw [Model.site, kept.packageNames, kept.field Record.package fun _ => rfl,
        kept.field Record.name fun _ => rfl]
      rfl
  rw [Model.key, Model.key, kept.home, site, kept.memberName]

theorem Model.WellNamed.retain (wellNamed : before.WellNamed) (wellScoped : after.WellScoped) :
    after.WellNamed := by
  have entries : ∀ place, after.entries place = before.entries place := by
    rintro (_ | id | id)
    · simp only [Model.entries, kept.roots]
    · simp only [Model.entries, Model.package, kept.packages]
    · simp only [Model.entries, kept.field Record.constants fun _ => rfl,
        kept.field Record.enumerations fun _ => rfl]
  refine ⟨wellScoped, fun place entry listed => ?_, fun place => ?_⟩
  · rw [entries] at listed
    rw [kept.memberName]
    exact wellNamed.names place entry listed
  · rw [entries]
    exact wellNamed.distinct place

end Retains

theorem Matches.retain {ρ : Renaming} {model model' later later' : Model}
    (matched : Matches ρ model model') (kept : Retains Record.named model later)
    (kept' : Retains Record.named model' later') (wellScoped : later.WellScoped)
    (wellScoped' : later'.WellScoped) : Matches ρ later later' where
  wellNamed := matched.wellNamed.retain kept wellScoped
  wellNamed' := matched.wellNamed'.retain kept' wellScoped'
  packages := by rw [kept'.packages, kept.packages, matched.packages]
  records := by rw [kept'.records, kept.records, matched.records]
  enumerations := by rw [kept'.enumerations, kept.enumerations, matched.enumerations]
  constants := by rw [kept'.constants, kept.constants, matched.constants]
  inRange member := by rw [kept.inRange, kept.inRange, matched.inRange]
  key member inside := by
    rw [kept'.key, kept.key, matched.key member ((kept.inRange member).mp inside)]

/-!
## Other orders
-/

/-- Units that are accepted are accepted in any order and with any marks, and the models that are built
correspond. -/
theorem Stages.reordered {units units' : List SourceUnit} {built : Built} (stages : Stages units built)
    (same : (units.map (·.document)).Perm (units'.map (·.document))) :
    ∃ built', build units' = .ok built' ∧ ∃ ρ, Model.Corresponds ρ built.model built'.model := by
  have items := Item.sameItems same
  have represents := stages.represents
  have settled := Draft.ofUnits_settles units'
  cases named' : Draft.ofUnits units' with
  | error _ =>
    rw [named'] at settled
    exact absurd (items.fits represents.fits) settled
  | ok draft' =>
    rw [named'] at settled
    obtain ⟨ρ, matched, drafts⟩ := Draft.Represents.exists_sameDrafts represents settled items
    obtain ⟨resolved', resolution', before⟩ :=
      Resolution.resolveDeclarations_alike drafts stages.resolution
    have isResolved := stages.isResolved
    have isResolved' :=
      Resolution.resolveDeclarations_ok (Draft.ofUnits_consistent named') resolution'
    have linked := isResolved.sound.toLinked
    have linked' := isResolved'.sound.toLinked
    have isOrder := Layout.order_ok stages.ordered
    obtain ⟨order', ordered'⟩ := Layout.order_alike before.alike stages.ordered
    have isOrder' := Layout.order_ok ordered'
    obtain ⟨placed', placement', agree, agree', placed⟩ :=
      Layout.placeRecords_alike before linked linked' isOrder isOrder' stages.placement
    have flagged := Layout.withDependence_alike placed
      ((Layout.ReadsOwn.of_resolved isResolved before.distinct).of_agree agree.ofLayout)
      ((Layout.ReadsOwn.of_resolved isResolved' before.distinct').of_agree agree'.ofLayout)
    have configs' := Layout.checkConfigs_alike flagged stages.configs
    obtain ⟨stored', storage', -, -, stored⟩ :=
      Layout.withStorage_alike before linked linked'
        (agree.ofLayout.trans (Layout.agree_withDependence _).ofFlags)
        (agree'.ofLayout.trans (Layout.agree_withDependence _).ofFlags) flagged isOrder isOrder'
        stages.storage
    obtain ⟨final', schemas', -, -, alike⟩ :=
      Resolution.resolveSchemas_alike drafts stored stages.schemas
    let stages' : Stages units' ⟨final', resolved'.warnings⟩ :=
      { draft := draft'
        resolved := resolved'.model
        order := order'
        placed := placed'
        stored := stored'
        named := named'
        resolution := resolution'
        ordered := ordered'
        placement := placement'
        configs := configs'
        storage := storage'
        schemas := schemas' }
    have same := before.values.congr stages.agree_derived.enumerations stages.agree_derived.constants
      stages'.agree_derived.enumerations stages'.agree_derived.constants
    refine ⟨_, stages'.accepted, ρ, ?_, fun id _ => alike.recordsCorrespond id,
      fun id inside => (same.enumeration id inside).1⟩
    exact matched.retain stages.retained stages'.retained stages.sound.toWellScoped
      stages'.sound.toWellScoped

/-- The layout that is built of units does not depend on their order and marks, nor does whether one is
built. -/
theorem build_reordered {units units' : List SourceUnit}
    (same : (units.map (·.document)).Perm (units'.map (·.document))) :
    ((∃ built, build units = .ok built) ↔ ∃ built', build units' = .ok built') ∧
      ∀ built built', build units = .ok built → build units' = .ok built' →
        ∃ ρ, Model.Corresponds ρ built.model built'.model := by
  have onward : ∀ {units units' : List SourceUnit},
      (units.map (·.document)).Perm (units'.map (·.document)) → ∀ built, build units = .ok built →
        ∃ built', build units' = .ok built' ∧ ∃ ρ, Model.Corresponds ρ built.model built'.model := by
    intro units units' same built accepted
    obtain ⟨stages⟩ := build_stages accepted
    exact stages.reordered same
  refine ⟨⟨?_, ?_⟩, fun built built' accepted accepted' => ?_⟩
  · rintro ⟨built, accepted⟩
    obtain ⟨built', accepted', -⟩ := onward same built accepted
    exact ⟨built', accepted'⟩
  · rintro ⟨built', accepted'⟩
    obtain ⟨built, accepted, -⟩ := onward same.symm built' accepted'
    exact ⟨built, accepted⟩
  · obtain ⟨other, found, correspond⟩ := onward same built accepted
    rw [accepted'] at found
    cases found
    exact correspond

/-- A type that extends, embeds and is configured by types of a unit that is taken first. -/
def dividedUnits : List SourceUnit :=
  let frame : Declaration.Record :=
    { name := "Frame", attributes := [{ name := "count", typeName := some "uint16_t" }] }
  let setup : Declaration.Record :=
    { name := "Setup", attributes := [{ name := "rows", typeName := some "uint32_t" }] }
  let scan : Declaration.Record :=
    { name := "Scan", base := some "Frame", configs := ["Setup"],
      attributes :=
        [{ name := "frames", typeName := some "Frame", shape := ["{xtc-config}.rows()"] }] }
  [{ document := { packages := [.mk "Detector" none [] [] [] [] [frame, setup]] } },
    { document := { packages := [.mk "Detector.Raw" none [] [] [] [] [scan]] }, included := true }]

/-- The same the other way round. -/
def exchangedUnits : List SourceUnit :=
  dividedUnits.reverse.map fun source => { source with included := !source.included }

theorem build_reordered_sample :
    (dividedUnits.map (·.document)).Perm (exchangedUnits.map (·.document)) ∧
    ∃ built built', build dividedUnits = .ok built ∧ build exchangedUnits = .ok built' ∧
      built.model.records.toList.map (·.name) = ["Frame", "Setup", "Scan"] ∧
      built'.model.records.toList.map (·.name) = ["Scan", "Frame", "Setup"] ∧
      ∃ ρ, Model.Corresponds ρ built.model built'.model := by
  have same : (dividedUnits.map (·.document)).Perm (exchangedUnits.map (·.document)) :=
    .swap ..
  have computed : ∃ built, build dividedUnits = .ok built ∧
      built.model.records.toList.map (·.name) = ["Frame", "Setup", "Scan"] :=
    exists_built (by decide +kernel)
  obtain ⟨built, accepted, names⟩ := computed
  obtain ⟨either, corresponding⟩ := build_reordered same
  obtain ⟨built', accepted'⟩ := either.mp ⟨built, accepted⟩
  have computed : ∃ other, build exchangedUnits = .ok other ∧
      other.model.records.toList.map (·.name) = ["Scan", "Frame", "Setup"] :=
    exists_built (by decide +kernel)
  obtain ⟨other, again, names'⟩ := computed
  cases accepted'.symm.trans again
  exact ⟨same, built, built', accepted, accepted', names, names',
    corresponding built built' accepted accepted'⟩

end RecordSchema
