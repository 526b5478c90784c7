import RecordSchema.Proofs.Layout.Placement
import RecordSchema.Proofs.Model.Agreement
import RecordSchema.Proofs.Renaming.Alike
import RecordSchema.Proofs.Renaming.Declarations
import RecordSchema.Proofs.Renaming.OwnMembers

/-!
# Placement in two models

After resolution, models get derived fields only. So what a record type shows changes in what its
attributes say themselves, in flags, and in its size and alignment. The two orders of layout differ, but in
both a type has its turn after the types that its layout reads. So when a type has its turn, these show the
same in both models, and its attributes, which have their names in common, are placed alike.
-/

set_option autoImplicit false

namespace RecordSchema

open Model Outcome

/-!
## What is filled in later
-/

theorem Model.Agree.ofLayout {before after : Model} (agree : Agree .layout before after) :
    Agree .derived before after :=
  agree.coarsen (fun _ => rfl) (fun _ => rfl) fun _ => rfl

theorem Model.Agree.ofFlags {before after : Model} (agree : Agree .flags before after) :
    Agree .derived before after :=
  agree.coarsen (fun _ => rfl) (fun _ => rfl) fun _ => rfl

theorem Model.Agree.ofStorage {before after : Model} (agree : Agree .storage before after) :
    Agree .derived before after :=
  agree.coarsen (fun _ => rfl) (fun _ => rfl) fun _ => rfl

theorem Model.Agree.ofSchemas {before after : Model} (agree : Agree .schemas before after) :
    Agree .derived before after :=
  agree.coarsen (fun _ => rfl) (fun _ => rfl) fun _ => rfl

section View

variable {before after : Model} (agree : Agree .derived before after)

include agree

theorem Model.Agree.attributeView (id : AttributeId) :
    after.attributeView id = { before.attributeView id with bare := (after.attr id).bare } := by
  have accessor := agree.attrField Attribute.accessor (fun _ => rfl) id
  have bitfields := agree.attrField Attribute.bitfields (fun _ => rfl) id
  have names := agree.methodField Method.name fun _ => rfl
  simp only [Model.attributeView, Model.bitfield, accessor, bitfields, names, agree.bitfields]

theorem Model.Agree.readBy (body : MethodBody) : after.readBy body = before.readBy body := by
  unfold Model.readBy
  simp only [Model.bitfield, agree.bitfields]

theorem Model.Agree.methodView (id : MethodId) :
    after.methodView id =
      { before.methodView id with configDependent := (after.method id).configDependent } := by
  have body := agree.methodField Method.body (fun _ => rfl) id
  have name := agree.methodField Method.name (fun _ => rfl) id
  have result := agree.methodField Method.result (fun _ => rfl) id
  have arguments := agree.methodField Method.arguments (fun _ => rfl) id
  have names := agree.attrField Attribute.name fun _ => rfl
  simp only [Model.methodView, Method.view, body, name, result, arguments, names,
    agree.readBy]

theorem Model.Agree.recordView (id : RecordId) :
    after.recordView id =
      { before.recordView id with
        attributes := (before.record id).attributes.map after.attributeView
        methods := (before.record id).methods.map after.methodView
        size := (after.record id).size
        align := (after.record id).align
        configDependent := (after.record id).configDependent } := by
  have attributes := agree.recordField Record.attributes (fun _ => rfl) id
  have methods := agree.recordField Record.methods (fun _ => rfl) id
  have base := agree.recordField Record.base (fun _ => rfl) id
  have configs := agree.recordField Record.configs (fun _ => rfl) id
  have identity := agree.recordField Record.identity (fun _ => rfl) id
  have pack := agree.recordField Record.pack (fun _ => rfl) id
  have constructors := agree.recordField Record.constructors (fun _ => rfl) id
  simp only [Model.recordView, Record.view, attributes, methods, base, configs, identity, pack,
    constructors]

/-- A type shows the same if nothing is filled in for it. -/
theorem Model.Agree.recordView_same {id : RecordId}
    (size : (after.record id).size = (before.record id).size)
    (align : (after.record id).align = (before.record id).align)
    (dependent : (after.record id).configDependent = (before.record id).configDependent)
    (attributes : ∀ attr ∈ (before.record id).attributes,
      (after.attr attr).bare = (before.attr attr).bare)
    (methods : ∀ method ∈ (before.record id).methods,
      (after.method method).configDependent = (before.method method).configDependent) :
    after.recordView id = before.recordView id := by
  have attributeViews : (before.record id).attributes.map after.attributeView =
      (before.record id).attributes.map before.attributeView :=
    List.map_congr_left fun attr listed => by rw [agree.attributeView, attributes attr listed]; rfl
  have methodViews : (before.record id).methods.map after.methodView =
      (before.record id).methods.map before.methodView :=
    List.map_congr_left fun method listed => by rw [agree.methodView, methods method listed]; rfl
  rw [agree.recordView, size, align, dependent, attributeViews, methodViews]
  rfl

theorem Model.Agree.attributeNames (id : RecordId) :
    Resolution.attributeNames after id = Resolution.attributeNames before id := by
  have attributes := agree.recordField Record.attributes (fun _ => rfl) id
  have names := agree.attrField Attribute.name fun _ => rfl
  simp only [Resolution.attributeNames, attributes, names]

end View

section TwoModels

variable {ρ : Renaming} {model model' : Model} {id : RecordId}

/-- Corresponding types show the same later if what is filled in corresponds. -/
theorem recordView_later (view : model'.recordView (ρ.record id) = (model.recordView id).rename ρ)
    {after after' : Model} (agree : Agree .derived model after) (agree' : Agree .derived model' after')
    (attributes : ∀ attr ∈ (model.record id).attributes,
      ∀ attr' ∈ (model'.record (ρ.record id)).attributes, SameAttribute ρ model model' attr attr' →
        (after'.attr attr').bare = (after.attr attr).bare.rename ρ)
    (methods : ∀ method ∈ (model.record id).methods,
      ∀ method' ∈ (model'.record (ρ.record id)).methods, SameMethod ρ model model' method method' →
        (after'.method method').configDependent = (after.method method).configDependent)
    (size : (after'.record (ρ.record id)).size = (after.record id).size.rename ρ)
    (align : (after'.record (ρ.record id)).align = (after.record id).align)
    (dependent : (after'.record (ρ.record id)).configDependent = (after.record id).configDependent) :
    after'.recordView (ρ.record id) = (after.recordView id).rename ρ := by
  have attributePairs : List.Forall₂ (SameAttribute ρ model model') (model.record id).attributes
      (model'.record (ρ.record id)).attributes :=
    forall₂_map_iff.mpr (congrArg RecordView.attributes view)
  have methodPairs : List.Forall₂ (SameMethod ρ model model') (model.record id).methods
      (model'.record (ρ.record id)).methods :=
    forall₂_map_iff.mpr (congrArg RecordView.methods view)
  have attributeViews : (model'.record (ρ.record id)).attributes.map after'.attributeView =
      ((model.record id).attributes.map after.attributeView).map (AttributeView.rename ρ) := by
    refine forall₂_map_iff.mp ((forall₂_mem attributePairs).imp fun attr attr' => ?_)
    rintro ⟨listed, listed', same⟩
    rw [agree'.attributeView, agree.attributeView, attributes attr listed attr' listed' same, same]
    rfl
  have methodViews : (model'.record (ρ.record id)).methods.map after'.methodView =
      ((model.record id).methods.map after.methodView).map (MethodView.rename ρ) := by
    refine forall₂_map_iff.mp ((forall₂_mem methodPairs).imp fun method method' => ?_)
    rintro ⟨listed, listed', same⟩
    rw [agree'.methodView, agree.methodView, methods method listed method' listed' same, same]
    rfl
  rw [agree'.recordView, agree.recordView, view, attributeViews, methodViews, size, align, dependent]
  rfl

/-- An attribute of a type shows what the attribute of its name in the other model shows. -/
theorem sameAttribute_of_name
    (view : model'.recordView (ρ.record id) = (model.recordView id).rename ρ)
    (distinct : (Resolution.attributeNames model' (ρ.record id)).Nodup) {attr attr' : AttributeId}
    (listed : attr ∈ (model.record id).attributes)
    (listed' : attr' ∈ (model'.record (ρ.record id)).attributes)
    (name : (model'.attr attr').name = (model.attr attr).name) :
    SameAttribute ρ model model' attr attr' := by
  have pairs : List.Forall₂ (SameAttribute ρ model model') (model.record id).attributes
      (model'.record (ρ.record id)).attributes :=
    forall₂_map_iff.mpr (congrArg RecordView.attributes view)
  obtain ⟨other, held, same⟩ := exists_of_forall₂ pairs listed
  have equal : attr' = other :=
    List.inj_on_of_nodup_map distinct listed' held (name.trans same.name.symm)
  exact equal ▸ same

/-- No other attribute of the type shows the same. -/
theorem sameAttribute_unique (distinct : (Resolution.attributeNames model id).Nodup)
    (distinct' : (Resolution.attributeNames model' (ρ.record id)).Nodup)
    {attr other attr' other' : AttributeId} (listed : attr ∈ (model.record id).attributes)
    (listed' : attr' ∈ (model'.record (ρ.record id)).attributes)
    (otherListed : other ∈ (model.record id).attributes)
    (otherListed' : other' ∈ (model'.record (ρ.record id)).attributes)
    (same : SameAttribute ρ model model' attr attr')
    (otherSame : SameAttribute ρ model model' other other') : attr' = other' ↔ attr = other := by
  constructor
  · rintro rfl
    exact List.inj_on_of_nodup_map distinct listed otherListed (same.name.symm.trans otherSame.name)
  · rintro rfl
    exact List.inj_on_of_nodup_map distinct' listed' otherListed'
      (same.name.trans otherSame.name.symm)

/-- Corresponding attributes are changed alike, and the others stay. -/
theorem bare_modifyAttribute {attr other attr' other' : AttributeId} {change change' : Attribute → Attribute}
    (bare : (model'.attr other').bare = (model.attr other).bare.rename ρ)
    (changed : ∀ item item' : Attribute, item'.bare = item.bare.rename ρ →
      (change' item').bare = (change item).bare.rename ρ)
    (unique : attr' = other' ↔ attr = other) (inside : other.index < model.attributes.size)
    (inside' : other'.index < model'.attributes.size) :
    ((model'.modifyAttribute attr' change').attr other').bare =
      ((model.modifyAttribute attr change).attr other).bare.rename ρ := by
  rw [attr_modifyAttribute, attr_modifyAttribute]
  by_cases equal : attr = other
  · rw [if_pos ⟨unique.mpr equal, inside'⟩, if_pos ⟨equal, inside⟩]
    exact changed _ _ bare
  · rw [if_neg fun both => equal (unique.mp both.1), if_neg fun both => equal both.1]
    exact bare

end TwoModels

namespace Layout

/-!
## Orders
-/

section Order

variable {ρ : Renaming} {model model' : Model} (alike : Alike ρ model model')

include alike

private theorem dependsOn_alike (id target : RecordId) :
    dependsOn model' (ρ.record id) (ρ.record target) = dependsOn model id target := by
  have base : ((model'.record (ρ.record id)).base == some (ρ.record target)) =
      ((model.record id).base == some target) := by
    rw [alike.sameMembers.base, Bool.eq_iff_iff, beq_iff_eq, beq_iff_eq]
    cases (model.record id).base <;> simp
  rw [dependsOn, dependsOn, base]
  congr 1
  refine forall₂_any (alike.sameMembers.attributePairs id) fun attr attr' same => ?_
  rw [same.type, Bool.eq_iff_iff, beq_iff_eq, beq_iff_eq]
  cases (model.attr attr).type <;> simp [TypeRef.rename]

private theorem mem_dependencies_alike (id target : RecordId) :
    ρ.record target ∈ dependencies model' (ρ.record id) ↔ target ∈ dependencies model id := by
  rw [mem_dependencies, mem_dependencies, alike.records, alike.recordRange, dependsOn_alike alike]

theorem Ordered.rename {ids : List RecordId} (ordered : Ordered model ids) :
    Ordered model' (ids.map ρ.record) := by
  induction ordered with
  | nil => exact .nil
  | cons needed _ ih =>
    refine .cons (fun target' depends => ?_) ih
    obtain ⟨target, rfl⟩ := ρ.record.surjective target'
    exact List.mem_map_of_mem (needed target ((mem_dependencies_alike alike _ _).mp depends))

/-- An order of the types of one model orders those of the other. -/
theorem IsOrder.rename {ids : List RecordId} (isOrder : IsOrder model ids) :
    IsOrder model' (ids.map ρ.record) where
  distinct := isOrder.distinct.map ρ.record.injective
  complete id' := by
    obtain ⟨id, rfl⟩ := ρ.record.surjective id'
    rw [List.mem_map_of_injective ρ.record.injective, isOrder.complete, alike.records,
      alike.recordRange]
  ordered := by
    rw [← List.map_reverse]
    exact isOrder.ordered.rename alike

theorem order_alike {ids : List RecordId} (accepted : order model = .ok ids) :
    ∃ ids', order model' = .ok ids' :=
  ((order_ok accepted).rename alike).exists_order

end Order

/-!
## Expressions of a layout
-/

def Cursor.rename (ρ : Renaming) (cursor : Cursor) : Cursor :=
  { cursor with stop := cursor.stop.rename ρ }

section Attribute

variable {ρ : Renaming} {attr attr' : Attribute} (bare : attr'.bare = attr.bare.rename ρ)

private theorem isUnbounded_rename (shape : List Dimension) :
    isUnbounded (shape.map (Dimension.rename ρ)) = isUnbounded shape := by
  rw [isUnbounded, isUnbounded, List.any_map]
  congr 1
  funext dimension
  cases dimension <;> rfl

include bare

/-- An attribute gets its place. -/
theorem bare_placed (offset elementSize : Expr) :
    ({ attr' with offset := offset.rename ρ, elementSize := elementSize.rename ρ } : Attribute).bare =
      ({ attr with offset, elementSize } : Attribute).bare.rename ρ :=
  congrArg (fun shown : Attribute =>
    { shown with offset := offset.rename ρ, elementSize := elementSize.rename ρ }) bare

private theorem offsetAfter_rename (pack : Option UInt32) (alignment : Nat) (stop : Expr) :
    offsetAfter pack alignment attr' (stop.rename ρ) =
      (offsetAfter pack alignment attr stop).map (Expr.rename ρ) := by
  have declared : attr'.declaredOffset = attr.declaredOffset.map (Expr.rename ρ) :=
    (congrArg Attribute.declaredOffset bare :)
  unfold offsetAfter
  rw [declared]
  cases attr.declaredOffset with
  | some offset => rfl
  | none =>
    cases pack with
    | none => cases stop <;> rfl
    | some limit =>
      cases stop with
      | const value =>
        change (alignUp value alignment).map Expr.const = _
        rw [Option.map_map]
        rfl
      | operand _ | concat _ | add _ _ | mul _ _ => rfl

private theorem stopAfter_rename : stopAfter attr' = (stopAfter attr).map (Expr.rename ρ) := by
  have shape : attr'.shape = attr.shape.map (Dimension.rename ρ) := (congrArg Attribute.shape bare :)
  have offset : attr'.offset = attr.offset.rename ρ := (congrArg Attribute.offset bare :)
  have elementSize : attr'.elementSize = attr.elementSize.rename ρ :=
    (congrArg Attribute.elementSize bare :)
  rw [stopAfter, stopAfter, shape, isUnbounded_rename, offset, elementSize, Dimension.counts_rename,
    Expr.productOf_rename]
  split
  · rfl
  · cases Expr.productOf (attr.shape.filterMap Dimension.count?) with
    | none => rfl
    | some count =>
      simp only [Option.map_some, Option.bind_eq_bind, Option.bind_some, Expr.product_rename]
      cases Expr.product attr.elementSize count with
      | none => rfl
      | some extent => exact Expr.sum_rename ρ _ _

private theorem elementLayout_rename {model model' : Model}
    (accessor : (attr'.accessor.map fun method => (model'.method method).name) =
      attr.accessor.map fun method => (model.method method).name)
    (targets : ∀ target, attr.type = .record target →
      (model'.record (ρ.record target)).size = (model.record target).size.rename ρ ∧
        (model'.record (ρ.record target)).align = (model.record target).align)
    (bases : ∀ enumeration, attr.type = .enumeration enumeration →
      (model'.enumeration (ρ.enumeration enumeration)).base = (model.enumeration enumeration).base) :
    elementLayout model' attr' =
      ((elementLayout model attr).1.rename ρ, (elementLayout model attr).2) := by
  have type : attr'.type = attr.type.rename ρ := (congrArg Attribute.type bare :)
  have shape : attr'.shape = attr.shape.map (Dimension.rename ρ) := (congrArg Attribute.shape bare :)
  unfold elementLayout
  rw [type]
  cases known : attr.type with
  | builtin type => rfl
  | enumeration id =>
    simp only [TypeRef.rename, bases id known]
    rfl
  | record id =>
    obtain ⟨size, align⟩ := targets id known
    simp only [TypeRef.rename, size, align, Expr.isConstant_rename, dynamicSize, accessor,
      Attribute.rank, shape, List.length_map]
    split <;> rfl

end Attribute

/-!
## Placing one type
-/

/-- The attributes of corresponding types are being placed, as far in one model as in the other. -/
structure Placing (ρ : Renaming) (model model' : Model) (id : RecordId)
    (state state' : Model × Cursor) : Prop where
  agree : Agree .layout model state.1
  agree' : Agree .layout model' state'.1
  records : state.1.records = model.records
  records' : state'.1.records = model'.records
  bare : ∀ attr ∈ (model.record id).attributes, ∀ attr' ∈ (model'.record (ρ.record id)).attributes,
    SameAttribute ρ model model' attr attr' →
      (state'.1.attr attr').bare = (state.1.attr attr).bare.rename ρ
  cursor : state'.2 = state.2.rename ρ

/-- What the layout of a type reads is the same in two models. -/
structure SameNeeds (ρ : Renaming) (model model' : Model) (id : RecordId) : Prop where
  inside : ∀ attr ∈ (model.record id).attributes, attr.index < model.attributes.size
  inside' : ∀ attr ∈ (model'.record (ρ.record id)).attributes, attr.index < model'.attributes.size
  view : model'.recordView (ρ.record id) = (model.recordView id).rename ρ
  distinct : (Resolution.attributeNames model id).Nodup
  distinct' : (Resolution.attributeNames model' (ρ.record id)).Nodup
  target : ∀ target, dependsOn model id target = true →
    model'.recordView (ρ.record target) = (model.recordView target).rename ρ
  base : ∀ attr ∈ (model.record id).attributes, ∀ enumeration,
    (model.attr attr).type = .enumeration enumeration →
      (model'.enumeration (ρ.enumeration enumeration)).base = (model.enumeration enumeration).base

namespace SameNeeds

variable {ρ : Renaming} {model model' : Model} {id : RecordId} (needs : SameNeeds ρ model model' id)

include needs

private theorem targetSize {target : RecordId} (depends : dependsOn model id target = true) :
    (model'.record (ρ.record target)).size = (model.record target).size.rename ρ :=
  congrArg RecordView.size (needs.target target depends)

private theorem targetAlign {target : RecordId} (depends : dependsOn model id target = true) :
    (model'.record (ρ.record target)).align = (model.record target).align :=
  congrArg RecordView.align (needs.target target depends)

theorem initialCursor : initialCursor model' (model'.record (ρ.record id)) =
    (initialCursor model (model.record id)).rename ρ := by
  have base : (model'.record (ρ.record id)).base = (model.record id).base.map ρ.record :=
    congrArg RecordView.base needs.view
  unfold Layout.initialCursor
  rw [base]
  cases found : (model.record id).base with
  | none => rfl
  | some target =>
    have depends := dependsOn_base found
    simp only [Option.map_some, needs.targetSize depends, needs.targetAlign depends, Cursor.rename]

private theorem elementLayout_mirrored {state state' : Model × Cursor}
    (placing : Placing ρ model model' id state state') {attr attr' : AttributeId}
    (listed : attr ∈ (model.record id).attributes)
    (listed' : attr' ∈ (model'.record (ρ.record id)).attributes)
    (same : SameAttribute ρ model model' attr attr') :
    elementLayout state'.1 (state'.1.attr attr') =
      ((elementLayout state.1 (state.1.attr attr)).1.rename ρ,
        (elementLayout state.1 (state.1.attr attr)).2) := by
  have type := placing.agree.attrField Attribute.type (fun _ => rfl) attr
  refine elementLayout_rename (placing.bare attr listed attr' listed' same) ?_ ?_ ?_
  · have accessor := placing.agree.attrField Attribute.accessor (fun _ => rfl) attr
    have accessor' := placing.agree'.attrField Attribute.accessor (fun _ => rfl) attr'
    have names := placing.agree.methodField Method.name fun _ => rfl
    have names' := placing.agree'.methodField Method.name fun _ => rfl
    simp only [accessor, accessor', names, names']
    exact congrArg AttributeView.accessor same
  · intro target known
    have depends := dependsOn_attr listed (type.symm.trans known)
    simp only [Model.record, placing.records, placing.records']
    exact ⟨needs.targetSize depends, needs.targetAlign depends⟩
  · intro enumeration known
    simp only [Model.enumeration, placing.agree.enumerations, placing.agree'.enumerations]
    exact needs.base attr listed enumeration (type.symm.trans known)

/-- One attribute more has its place, in both models. -/
theorem place {state state' : Model × Cursor} (placing : Placing ρ model model' id state state')
    {attr attr' : AttributeId} (listed : attr ∈ (model.record id).attributes)
    (listed' : attr' ∈ (model'.record (ρ.record id)).attributes)
    (same : SameAttribute ρ model model' attr attr') (offset elementSize : Expr) (cursor : Cursor) :
    Placing ρ model model' id
      (state.1.modifyAttribute attr fun current => { current with offset, elementSize }, cursor)
      (state'.1.modifyAttribute attr' fun current =>
        { current with offset := offset.rename ρ, elementSize := elementSize.rename ρ },
        cursor.rename ρ) where
  agree := placing.agree.trans (.modifyAttribute state.1 attr fun _ => rfl)
  agree' := placing.agree'.trans (.modifyAttribute state'.1 attr' fun _ => rfl)
  records := placing.records
  records' := placing.records'
  bare other otherListed other' otherListed' otherSame := by
    refine bare_modifyAttribute (placing.bare other otherListed other' otherListed' otherSame)
      (fun _ _ bare => bare_placed bare offset elementSize)
      (sameAttribute_unique needs.distinct needs.distinct' listed listed' otherListed otherListed' same
        otherSame) ?_ ?_
    · exact placing.agree.attributeCount ▸ needs.inside other otherListed
    · exact placing.agree'.attributeCount ▸ needs.inside' other' otherListed'
  cursor := rfl

private theorem placeAttribute_follows {state state' : Model × Cursor}
    (placing : Placing ρ model model' id state state') {attr attr' : AttributeId}
    (listed : attr ∈ (model.record id).attributes)
    (listed' : attr' ∈ (model'.record (ρ.record id)).attributes)
    (same : SameAttribute ρ model model' attr attr') (pack : Option UInt32) (path path' : String) :
    Follows (Placing ρ model model' id) (placeAttribute pack path state attr)
      (placeAttribute pack path' state' attr') := by
  have layout := needs.elementLayout_mirrored placing listed listed' same
  have bare := placing.bare attr listed attr' listed' same
  have cursor := placing.cursor
  obtain ⟨state, reached⟩ := state
  obtain ⟨state', reached'⟩ := state'
  subst cursor
  simp only [placeAttribute, layout, Cursor.rename]
  cases reached.openEnded with
  | some previous => exact .error
  | none =>
    have offsets : Mirrors (Expr.rename ρ) _ _ := Mirrors.orOverflow (offsetAfter_rename bare pack
      (effectiveAlign pack (elementLayout state (state.attr attr)).2) reached.stop)
    refine offsets.bind fun offset _ _ _ placed => ?_
    have stops : Mirrors (Expr.rename ρ) _ _ := Mirrors.orOverflow (stopAfter_rename
      (bare_placed bare offset (elementLayout state (state.attr attr)).1))
    subst placed
    refine stops.bind fun stop _ _ _ ended => .ok ?_
    · have shape : (state'.attr attr').shape = (state.attr attr).shape.map (Dimension.rename ρ) :=
        (congrArg Attribute.shape bare :)
      have name : (state'.attr attr').name = (state.attr attr).name :=
        (congrArg Attribute.name bare :)
      rw [ended, shape, isUnbounded_rename, name]
      exact needs.place placing listed listed' same offset _ _

private theorem placeRecord_follows (inside : id.index < model.records.size)
    (inside' : (ρ.record id).index < model'.records.size) :
    Follows (fun after after' => after'.recordView (ρ.record id) = (after.recordView id).rename ρ)
      (placeRecord model id) (placeRecord model' (ρ.record id)) := by
  have pack : (model'.record (ρ.record id)).pack = (model.record id).pack :=
    congrArg RecordView.pack needs.view
  have pairs : List.Forall₂ (SameAttribute ρ model model') (model.record id).attributes
      (model'.record (ρ.record id)).attributes :=
    forall₂_map_iff.mpr (congrArg RecordView.attributes needs.view)
  have start : Placing ρ model model' id (model, Layout.initialCursor model (model.record id))
      (model', Layout.initialCursor model' (model'.record (ρ.record id))) :=
    { agree := .refl model
      agree' := .refl model'
      records := rfl
      records' := rfl
      bare := fun _ _ _ _ same => same.bare
      cursor := needs.initialCursor }
  have attributes := Follows.foldlM_pairs (forall₂_mem pairs)
    (fun state state' attr attr' ⟨listed, listed', same⟩ placing =>
      needs.placeAttribute_follows placing listed listed' same (model.record id).pack
        (model.recordPath id) (model'.recordPath (ρ.record id))) start
  rw [placeRecord, placeRecord, pack]
  refine attributes.bind fun state state' _ _ placing => .ok ?_
  have cursor := placing.cursor
  have size := placing.agree.recordCount ▸ inside
  have size' := placing.agree'.recordCount ▸ inside'
  have record := record_modifyRecord state.1 id id
    fun current => { current with size := state.2.stop, align := state.2.align }
  have record' := record_modifyRecord state'.1 (ρ.record id) (ρ.record id)
    fun current => { current with size := state'.2.stop, align := state'.2.align }
  rw [if_pos ⟨rfl, size⟩] at record
  rw [if_pos ⟨rfl, size'⟩] at record'
  refine recordView_later needs.view
    (placing.agree.ofLayout.trans (.modifyRecord state.1 id fun _ => rfl))
    (placing.agree'.ofLayout.trans (.modifyRecord state'.1 (ρ.record id) fun _ => rfl))
    placing.bare ?_ ?_ ?_ ?_
  · intro method _ method' _ same
    have kept : state.1.method method = model.method method := placing.agree.method method
    have kept' : state'.1.method method' = model'.method method' := placing.agree'.method method'
    change (state'.1.method method').configDependent = (state.1.method method).configDependent
    rw [kept, kept']
    exact congrArg MethodView.configDependent same
  · rw [record, record', cursor]
    rfl
  · rw [record, record', cursor]
    rfl
  · rw [record, record']
    simp only [Model.record, placing.records, placing.records']
    exact congrArg RecordView.configDependent needs.view

end SameNeeds

/-!
## Placing all types
-/

/-- A type that is placed shows its layout, and no other type shows it. -/
theorem placeRecord_local {model : Model} (linked : model.Linked) {order : List RecordId}
    (isOrder : IsOrder model order) :
    Local placeRecord order (fun id => id) (fun id (state : Model) => state.recordView id)
      (Agree .layout model) where
  distinct := by
    rw [List.map_id']
    exact isOrder.distinct
  keeps _ _ _ _ agree taken := agree.trans (placeRecord_agree taken)
  others id _ state after agree taken other different := by
    have attributes := agree.recordField Record.attributes fun _ => rfl
    have distinct : (state.record id).attributes.Nodup :=
      attributes id ▸ linked.attributes.nodup (linked.closed.recordAttributes id)
    have inside : ∀ attr ∈ (state.record id).attributes, attr.index < state.attributes.size := by
      rw [attributes, agree.attributeCount]
      exact linked.closed.recordAttributes id
    have same := placeRecord_agree taken
    obtain ⟨records, attrs⟩ := placeRecord_others distinct inside taken
    have record := records other different
    refine same.ofLayout.recordView_same (congrArg Record.size record) (congrArg Record.align record)
      (congrArg Record.configDependent record) (fun attr listed => ?_)
      fun method _ => same.methodField Method.configDependent (fun _ => rfl) method
    rw [attributes] at listed
    rw [attrs attr fun own => different (linked.listedOnce listed (attributes id ▸ own))]

/-- A pass over types in an order of layout goes through in both models alike if every type fills in what
it shows from what the types that it depends on show. -/
theorem IsOrder.pass {ρ : Renaming} {model model' : Model} (alike : Alike ρ model model')
    (closed : model.Closed) {order order' : List RecordId} (isOrder : IsOrder model order)
    (isOrder' : IsOrder model' order') {step : Model → RecordId → Except Fault Model}
    {fine fine' : Model → Prop} {start start' final : Model}
    (local_ : Local step order (fun id => id) (fun id (state : Model) => state.recordView id) fine)
    (local_' : Local step order' (fun id => id) (fun id (state : Model) => state.recordView id) fine')
    (initial : fine start) (initial' : fine' start') (same : Alike ρ start start')
    (accepted : order.foldlM step start = .ok final)
    (pair : ∀ id : RecordId, id.index < model.records.size → ∀ state state', fine state →
      fine' state' → state'.recordView (ρ.record id) = (state.recordView id).rename ρ →
      (∀ target, dependsOn model id target = true →
        state'.recordView (ρ.record target) = (state.recordView target).rename ρ) →
      Follows (fun after after' =>
          after'.recordView (ρ.record id) = (after.recordView id).rename ρ)
        (step state id) (step state' (ρ.record id))) :
    ∃ final', order'.foldlM step start' = .ok final' ∧ fine final ∧ fine' final' ∧
      ∀ id : RecordId, id.index < model.records.size →
        final'.recordView (ρ.record id) = (final.recordView id).rename ρ := by
  have listed' : ∀ id, ρ.record id ∈ order' ↔ id ∈ order := by
    intro id
    rw [isOrder'.complete, isOrder.complete, alike.records, alike.recordRange]
  have unique : ∀ one ∈ order, ∀ other ∈ order, ∀ item' ∈ order', item' = ρ.record one →
      item' = ρ.record other → one = other := by
    rintro one - other - _ - rfl again
    exact ρ.record.injective again
  have matched : ∀ id' ∈ order', ∃ id ∈ order, id' = ρ.record id := by
    intro id' listed
    obtain ⟨id, rfl⟩ := ρ.record.surjective id'
    exact ⟨id, (listed' id).mp listed, rfl⟩
  obtain ⟨final', accepted', good, good', views, -, -⟩ :=
    local_.mirrored local_' initial initial' accepted unique matched <| by
      rintro seen id rest seen' _ rest' split split' rfl state after state' good good' own own' earlier
        taken
      have inside := (isOrder.complete id).mp (by simp [split])
      refine pair id inside state state' good good' ?_ (fun target depends => ?_) after taken
      · exact own'.trans ((same.view id).trans (congrArg (RecordView.rename ρ) own.symm))
      · have needed := mem_dependencies_of_dependsOn closed depends
        exact earlier target (isOrder.before split target needed) _
          (isOrder'.before split' _ ((mem_dependencies_alike alike id target).mpr needed)) rfl
  refine ⟨final', accepted', good, good', fun id inside => ?_⟩
  have listed := (isOrder.complete id).mpr inside
  exact views id listed _ ((listed' id).mpr listed) rfl

/-- Types that are placed in one order are placed in any. -/
theorem placeRecords_alike {ρ : Renaming} {model model' : Model}
    (same : Resolution.SameResolved ρ model model') (linked : model.Linked) (linked' : model'.Linked)
    {order order' : List RecordId} (isOrder : IsOrder model order) (isOrder' : IsOrder model' order')
    {placed : Model} (accepted : order.foldlM placeRecord model = .ok placed) :
    ∃ placed', order'.foldlM placeRecord model' = .ok placed' ∧ Agree .layout model placed ∧
      Agree .layout model' placed' ∧ Alike ρ placed placed' := by
  have alike := same.alike
  obtain ⟨placed', accepted', agree, agree', views⟩ :=
    isOrder.pass alike linked.closed isOrder' (placeRecord_local linked isOrder)
      (placeRecord_local linked' isOrder') (.refl model) (.refl model') alike accepted <| by
        intro id inside state state' agree agree' view earlier
        have attributes := agree.recordField Record.attributes (fun _ => rfl) id
        have attributes' := agree'.recordField Record.attributes (fun _ => rfl) (ρ.record id)
        have needs : SameNeeds ρ state state' id :=
          { inside := by
              rw [attributes, agree.attributeCount]
              exact linked.closed.recordAttributes id
            inside' := by
              rw [attributes', agree'.attributeCount]
              exact linked'.closed.recordAttributes (ρ.record id)
            view := view
            distinct := agree.ofLayout.attributeNames id ▸ same.distinct id
            distinct' := agree'.ofLayout.attributeNames (ρ.record id) ▸ same.distinct' (ρ.record id)
            target := fun target depends => earlier target (dependsOn_agree agree id target ▸ depends)
            base := fun attr listed enumeration known => by
              rw [attributes] at listed
              rw [agree.attrField Attribute.type fun _ => rfl] at known
              have inRange := (linked.closed.attr (linked.closed.recordAttributes id attr listed)).type
              rw [known] at inRange
              simp only [Model.enumeration, agree.enumerations, agree'.enumerations]
              exact (same.values.enumeration enumeration (inRange_cons.mp inRange).1).1 }
        refine needs.placeRecord_follows (agree.recordCount ▸ inside) ?_
        rw [agree'.recordCount, alike.records]
        exact (alike.recordRange id).mpr inside
  refine ⟨placed', accepted', agree, agree', .of_inside ?_ fun id inside => ?_⟩
  · exact alike.toSameNames.retain agree.ofLayout.retains agree'.ofLayout.retains
  · exact views id (agree.recordCount ▸ inside)

end Layout

end RecordSchema
