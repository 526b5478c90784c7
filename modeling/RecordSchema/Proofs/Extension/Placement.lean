import RecordSchema.Proofs.Extension.Within
import RecordSchema.Proofs.Layout.Placement

/-!
# Placement in a larger model

Where the attributes of a type lie follows from the type, from its base and from the types that it
embeds. These are in the smaller model if the type is, so by induction along the order of layout a type is
laid out alike in both. The larger model has an order of its own, which does not matter.
-/

set_option autoImplicit false

namespace RecordSchema

open Model Outcome

/-!
## Derived fields
-/

namespace Model.Within

variable {move : MethodId → MethodId} {forget : Forget} {part whole more more' : Model}
  (within : Within move part whole) (agree : Agree forget part more) (agree' : Agree forget whole more')

include within agree agree'

/-- Derived fields are filled in alike in both models. -/
theorem derive
    (record : ∀ id : RecordId, id.index < part.records.size →
      more'.record id = (more.record id).renumber move)
    (attr : ∀ id : AttributeId, id.index < part.attributes.size →
      more'.attr id = (more.attr id).renumber move)
    (method : ∀ id : MethodId, id.index < part.methods.size →
      more'.method (move id) = more.method id) : Within move more more' where
  census := by
    rw [agree.census, agree'.census]
    exact within.census
  package id inside := by
    simp only [Model.package, agree.packages, agree'.packages] at inside ⊢
    exact within.package id inside
  record id inside := record id (agree.recordCount ▸ inside)
  attr id inside := attr id (agree.attributeCount ▸ inside)
  bitfield id inside := by
    simp only [Model.bitfield, agree.bitfields, agree'.bitfields] at inside ⊢
    exact within.bitfield id inside
  method id inside := by
    rw [agree.methodCount] at inside
    exact ⟨agree'.methodCount ▸ (within.method id inside).1, method id inside⟩
  enumeration id inside := by
    simp only [Model.enumeration, agree.enumerations, agree'.enumerations] at inside ⊢
    exact within.enumeration id inside
  constant id inside := by
    simp only [Model.constant, agree.constants, agree'.constants] at inside ⊢
    exact within.constant id inside
  outermost := by
    simp only [Model.outermost?, agree.roots, agree'.roots]
    exact within.outermost

/-- What is not derived is the same in both models. -/
theorem attrForgotten (id : AttributeId) (inside : id.index < part.attributes.size)
    (kept : ∀ item : Attribute,
      forget.attr (item.renumber move) = (forget.attr item).renumber move) :
    forget.attr (more'.attr id) = forget.attr ((more.attr id).renumber move) := by
  rw [agree'.attr, within.attr id inside, kept, kept, agree.attr]

theorem recordForgotten (id : RecordId) (inside : id.index < part.records.size)
    (kept : ∀ item : Record, forget.record (item.renumber move) = (forget.record item).renumber move) :
    forget.record (more'.record id) = forget.record ((more.record id).renumber move) := by
  rw [agree'.record, within.record id inside, kept, kept, agree.record]

theorem methodForgotten (id : MethodId) (inside : id.index < part.methods.size) :
    forget.method (more'.method (move id)) = forget.method (more.method id) := by
  rw [agree'.method, (within.method id inside).2, agree.method]

/-- A field that is neither derived nor renumbered. -/
theorem recordField {α : Type} (read : Record → α)
    (kept : ∀ item, read (forget.record item) = read item)
    (same : ∀ item : Record, read (item.renumber move) = read item) {id : RecordId}
    (inside : id.index < part.records.size) : read (more'.record id) = read (more.record id) := by
  rw [agree'.recordField read kept, within.record id inside, same, agree.recordField read kept]

end Model.Within

namespace Layout

/-!
## Induction along an order
-/

/-- What holds of a type if it holds of those that its layout reads holds of every type. -/
theorem IsOrder.induction {model : Model} {order : List RecordId} (isOrder : IsOrder model order)
    (closed : model.Closed) {property : RecordId → Prop}
    (step : ∀ id : RecordId, id.index < model.records.size →
      (∀ target, dependsOn model id target = true → property target) → property id) :
    ∀ id : RecordId, id.index < model.records.size → property id := by
  have along : ∀ ids, Ordered model ids → (∀ id ∈ ids, id.index < model.records.size) →
      ∀ id ∈ ids, property id := by
    intro ids ordered
    induction ordered with
    | nil => exact fun _ _ none => nomatch none
    | @cons record earlier needed _ ih =>
      intro inside
      obtain ⟨here, others⟩ := List.forall_mem_cons.mp inside
      refine List.forall_mem_cons.mpr ⟨step record here fun target depends => ?_, ih others⟩
      exact ih others target (needed target (mem_dependencies_of_dependsOn closed depends))
  intro id inside
  refine along order.reverse isOrder.ordered (fun other listed => ?_) id ?_
  · exact (isOrder.complete other).mp (List.mem_reverse.mp listed)
  · exact List.mem_reverse.mpr ((isOrder.complete id).mpr inside)

/-!
## Attributes
-/

private theorem eq_of_layout_attr {attr other : Attribute}
    (same : Forget.layout.attr other = Forget.layout.attr attr) (offset : other.offset = attr.offset)
    (elementSize : other.elementSize = attr.elementSize) : other = attr :=
  calc other
      = { Forget.layout.attr other with offset := other.offset, elementSize := other.elementSize } := rfl
    _ = { Forget.layout.attr attr with offset := attr.offset, elementSize := attr.elementSize } := by
      rw [same, offset, elementSize]
    _ = attr := rfl

private theorem eq_of_layout_record {record other : Record}
    (same : Forget.layout.record other = Forget.layout.record record) (size : other.size = record.size)
    (align : other.align = record.align) : other = record :=
  calc other
      = { Forget.layout.record other with size := other.size, align := other.align } := rfl
    _ = { Forget.layout.record record with size := record.size, align := record.align } := by
      rw [same, size, align]
    _ = record := rfl

section Places

variable {move : MethodId → MethodId} {part whole : Model}

/-- Attributes of the same layout so far have one place to go. -/
theorem Places.determined {pack : Option UInt32} {cursor next next' : Cursor} {id : AttributeId}
    (places : Places part pack cursor id next) (places' : Places whole pack cursor id next')
    (same : Forget.layout.attr (whole.attr id) = Forget.layout.attr ((part.attr id).renumber move))
    (layout : elementLayout whole (whole.attr id) = elementLayout part (part.attr id)) :
    whole.attr id = (part.attr id).renumber move ∧ next' = next := by
  have declared : (whole.attr id).declaredOffset = (part.attr id).declaredOffset :=
    (congrArg Attribute.declaredOffset same :)
  have elementSize : (whole.attr id).elementSize = (part.attr id).elementSize := by
    rw [places'.elementSize, layout, places.elementSize]
  have offset : (whole.attr id).offset = (part.attr id).offset := by
    have placed := places.offset
    have placed' := places'.offset
    rw [layout] at placed'
    simp only [offsetAfter, declared] at placed placed'
    exact Option.some.inj (placed'.symm.trans placed)
  have attr : whole.attr id = (part.attr id).renumber move := eq_of_layout_attr same offset elementSize
  refine ⟨attr, ?_⟩
  have stop : next'.stop = next.stop := by
    have ended := places'.stop
    rw [attr] at ended
    exact Option.some.inj (ended.symm.trans places.stop)
  have align : next'.align = next.align := by rw [places'.align, places.align, layout]
  have openEnded : next'.openEnded = next.openEnded := by
    rw [places'.openEnded, places.openEnded, attr]
    rfl
  calc next'
      = ⟨next'.stop, next'.align, next'.openEnded⟩ := rfl
    _ = ⟨next.stop, next.align, next.openEnded⟩ := by rw [stop, align, openEnded]
    _ = next := rfl

theorem PlacesAll.determined {pack : Option UInt32} {cursor final final' : Cursor}
    {ids : List AttributeId} (places : PlacesAll part pack cursor ids final)
    (places' : PlacesAll whole pack cursor ids final')
    (same : ∀ id ∈ ids,
      Forget.layout.attr (whole.attr id) = Forget.layout.attr ((part.attr id).renumber move))
    (layout : ∀ id ∈ ids,
      elementLayout whole (whole.attr id) = elementLayout part (part.attr id)) :
    (∀ id ∈ ids, whole.attr id = (part.attr id).renumber move) ∧ final' = final := by
  induction places with
  | nil =>
    cases places'
    exact ⟨(fun _ none => nomatch none), rfl⟩
  | cons first _ ih =>
    cases places' with
    | cons first' rest' =>
      obtain ⟨sameHere, sameLater⟩ := List.forall_mem_cons.mp same
      obtain ⟨layoutHere, layoutLater⟩ := List.forall_mem_cons.mp layout
      obtain ⟨here, rfl⟩ := first.determined first' sameHere layoutHere
      obtain ⟨later, end_⟩ := ih rest' sameLater layoutLater
      exact ⟨List.forall_mem_cons.mpr ⟨here, later⟩, end_⟩

end Places

/-!
## Record types
-/

/-- A type and its attributes are the same in both models. -/
structure SameType (move : MethodId → MethodId) (part whole : Model) (id : RecordId) : Prop where
  record : whole.record id = (part.record id).renumber move
  attributes : ∀ attr ∈ (part.record id).attributes, whole.attr attr = (part.attr attr).renumber move

section Types

variable {move : MethodId → MethodId} {part whole placed placed' : Model}
  (within : Within move part whole) (closed : part.Closed) (agree : Agree .layout part placed)
  (agree' : Agree .layout whole placed')

include within closed agree agree'

/-- An element has the same size if the types of elements have. -/
theorem elementLayout_within {id : AttributeId} (inside : id.index < part.attributes.size)
    (targets : ∀ target, (part.attr id).type = .record target →
      (placed'.record target).size = (placed.record target).size ∧
        (placed'.record target).align = (placed.record target).align) :
    elementLayout placed' (placed'.attr id) = elementLayout placed (placed.attr id) := by
  have same := within.attrForgotten agree agree' id inside fun _ => rfl
  have type : (placed'.attr id).type = (placed.attr id).type := (congrArg Attribute.type same :)
  have shape : (placed'.attr id).shape = (placed.attr id).shape := (congrArg Attribute.shape same :)
  have accessor : (placed'.attr id).accessor = (placed.attr id).accessor.map move :=
    (congrArg Attribute.accessor same :)
  have types : (placed.attr id).type = (part.attr id).type :=
    agree.attrField Attribute.type (fun _ => rfl) id
  have accessors : (placed.attr id).accessor = (part.attr id).accessor :=
    agree.attrField Attribute.accessor (fun _ => rfl) id
  have held := closed.attr inside
  unfold elementLayout
  rw [type]
  cases known : (placed.attr id).type with
  | builtin type => rfl
  | enumeration target =>
    have there := held.type
    rw [← types, known] at there
    have enumeration : placed'.enumeration target = placed.enumeration target := by
      simp only [Model.enumeration, agree.enumerations, agree'.enumerations]
      exact within.enumeration target (inRange_cons.mp there).1
    simp only [enumeration]
  | record target =>
    obtain ⟨size, align⟩ := targets target (types.symm.trans known)
    have names : ((placed'.attr id).accessor.map fun method => (placed'.method method).name) =
        (placed.attr id).accessor.map fun method => (placed.method method).name := by
      rw [accessor, Option.map_map]
      refine Option.map_congr fun method found => ?_
      have there := held.accessor method (accessors ▸ found)
      exact congrArg Method.name (within.methodForgotten agree agree' method there)
    simp only [size, align, dynamicSize, names, Attribute.rank, shape]

theorem LaidOut.determined {id : RecordId} (inside : id.index < part.records.size)
    (laidOut : LaidOut placed id) (laidOut' : LaidOut placed' id)
    (earlier : ∀ target, dependsOn part id target = true → SameType move placed placed' target) :
    SameType move placed placed' id := by
  obtain ⟨final, places, size, align⟩ := laidOut
  obtain ⟨final', places', size', align'⟩ := laidOut'
  have same := within.recordForgotten agree agree' id inside fun _ => rfl
  have bases : (placed.record id).base = (part.record id).base :=
    agree.recordField Record.base (fun _ => rfl) id
  have attributes : (placed.record id).attributes = (part.record id).attributes :=
    agree.recordField Record.attributes (fun _ => rfl) id
  have held := closed.recordAttributes id
  have start : initialCursor placed' (placed'.record id) =
      initialCursor placed (placed.record id) := by
    have base' := within.recordField agree agree' Record.base (fun _ => rfl) (fun _ => rfl) inside
    unfold initialCursor
    rw [base']
    cases found : (placed.record id).base with
    | none => rfl
    | some base =>
      have before := (earlier base (dependsOn_base (bases ▸ found))).record
      simp only [before]
      rfl
  have attributes' :=
    within.recordField agree agree' Record.attributes (fun _ => rfl) (fun _ => rfl) inside
  have pack' := within.recordField agree agree' Record.pack (fun _ => rfl) (fun _ => rfl) inside
  have forgotten : ∀ attr ∈ (placed.record id).attributes,
      Forget.layout.attr (placed'.attr attr) =
        Forget.layout.attr ((placed.attr attr).renumber move) := fun attr listed =>
    within.attrForgotten agree agree' attr (held attr (attributes ▸ listed)) fun _ => rfl
  have layouts : ∀ attr ∈ (placed.record id).attributes,
      elementLayout placed' (placed'.attr attr) = elementLayout placed (placed.attr attr) := by
    intro attr listed
    rw [attributes] at listed
    refine elementLayout_within within closed agree agree' (held attr listed) fun target type => ?_
    have before := (earlier target (dependsOn_attr listed type)).record
    exact ⟨(congrArg Record.size before :), (congrArg Record.align before :)⟩
  rw [start, attributes', pack'] at places'
  obtain ⟨attrs, rfl⟩ := places.determined places' forgotten layouts
  exact ⟨eq_of_layout_record same (size'.trans size.symm) (align'.trans align.symm), attrs⟩

end Types

/-- Types of the smaller model are placed alike in the larger one. -/
theorem placeRecords_within {move : MethodId → MethodId} {part whole placed placed' : Model}
    (within : Within move part whole) (linked : part.Linked) (linked' : whole.Linked)
    {order order' : List RecordId} (isOrder : IsOrder part order) (isOrder' : IsOrder whole order')
    (accepted : order.foldlM placeRecord part = .ok placed)
    (accepted' : order'.foldlM placeRecord whole = .ok placed') : Within move placed placed' := by
  obtain ⟨agree, laidOut⟩ := placeRecords_laidOut linked isOrder accepted
  obtain ⟨agree', laidOut'⟩ := placeRecords_laidOut linked' isOrder' accepted'
  have same := isOrder.induction linked.closed fun id inside earlier =>
    LaidOut.determined within linked.closed agree agree' inside (laidOut id inside)
      (laidOut' id (Nat.lt_of_lt_of_le inside within.census.records)) earlier
  refine within.derive agree agree' (fun id inside => (same id inside).record) (fun id inside => ?_)
    fun id inside => within.methodForgotten agree agree' id inside
  have listed := (linked.attributes.mem_iff inside).mpr rfl
  rw [← agree.recordField Record.attributes fun _ => rfl] at listed
  exact (same _ (linked.closed.attr inside).owner).attributes id listed

end Layout

end RecordSchema
