import RecordSchema.Layout.Placement
import RecordSchema.Proofs.Expr.References
import RecordSchema.Proofs.Layout.Order
import RecordSchema.Proofs.Model.Agreement
import RecordSchema.Proofs.Outcome

/-!
# What placement writes

Placing a record type puts its attributes one after the other, from where its base ends to where the
type ends. What the layout of a type reads is settled before its turn comes, so the equations between
offsets, element sizes and the size of the type still hold when all types are placed.
-/

set_option autoImplicit false

namespace RecordSchema.Layout

open Model Outcome

/-- An attribute lies between two cursors as placement puts it. -/
structure Places (model : Model) (pack : Option UInt32) (cursor : Cursor) (id : AttributeId)
    (next : Cursor) : Prop where
  notLast : cursor.openEnded = none
  elementSize : (model.attr id).elementSize = (elementLayout model (model.attr id)).1
  offset : offsetAfter pack (effectiveAlign pack (elementLayout model (model.attr id)).2)
    (model.attr id) cursor.stop = some (model.attr id).offset
  stop : stopAfter (model.attr id) = some next.stop
  align : next.align =
    if pack.isSome then
      max cursor.align (effectiveAlign pack (elementLayout model (model.attr id)).2)
    else cursor.align
  openEnded : next.openEnded =
    if isUnbounded (model.attr id).shape then some (model.attr id).name else none

/-- The attributes of a list lie one after the other between two cursors. -/
inductive PlacesAll (model : Model) (pack : Option UInt32) :
    Cursor → List AttributeId → Cursor → Prop where
  | nil {cursor : Cursor} : PlacesAll model pack cursor [] cursor
  | cons {cursor next final : Cursor} {id : AttributeId} {rest : List AttributeId} :
      Places model pack cursor id next → PlacesAll model pack next rest final →
      PlacesAll model pack cursor (id :: rest) final

/-- The attributes of a record type reach from where its base ends to where it ends. -/
def LaidOut (model : Model) (id : RecordId) : Prop :=
  ∃ final, PlacesAll model (model.record id).pack (initialCursor model (model.record id))
      (model.record id).attributes final ∧
    (model.record id).size = final.stop ∧ (model.record id).align = final.align

namespace PlacesAll

variable {model : Model} {pack : Option UInt32} {cursor final : Cursor}

theorem concat {next : Cursor} {ids : List AttributeId} {id : AttributeId}
    (places : PlacesAll model pack cursor ids next) (last : Places model pack next id final) :
    PlacesAll model pack cursor (ids ++ [id]) final := by
  induction places with
  | nil => exact .cons last .nil
  | cons first _ ih => exact .cons first (ih last)

/-- An attribute of the list and what lies before and behind it. -/
theorem split {before rest : List AttributeId} {id : AttributeId}
    (places : PlacesAll model pack cursor (before ++ id :: rest) final) :
    ∃ reached next, PlacesAll model pack cursor before reached ∧
      Places model pack reached id next ∧ PlacesAll model pack next rest final := by
  induction before generalizing cursor with
  | nil =>
    cases places with
    | cons first tail => exact ⟨_, _, .nil, first, tail⟩
  | cons other before ih =>
    cases places with
    | cons first tail =>
      obtain ⟨reached, next, head, one, tail⟩ := ih tail
      exact ⟨reached, next, .cons first head, one, tail⟩

end PlacesAll

/-- Each attribute of a type that is laid out lies between two cursors. -/
theorem LaidOut.exists_places {model : Model} {id : RecordId} {attr : AttributeId}
    (laidOut : LaidOut model id) (listed : attr ∈ (model.record id).attributes) :
    ∃ cursor next, Places model (model.record id).pack cursor attr next := by
  obtain ⟨final, places, _⟩ := laidOut
  obtain ⟨before, rest, split⟩ := List.append_of_mem listed
  rw [split] at places
  obtain ⟨cursor, next, _, one, _⟩ := places.split
  exact ⟨cursor, next, one⟩

/-!
## What layout reads
-/

/-- What the layout of a record type reads and writes is the same in two models. -/
structure SameLayout (before after : Model) (id : RecordId) : Prop where
  pack : (after.record id).pack = (before.record id).pack
  base : (after.record id).base = (before.record id).base
  attributes : (after.record id).attributes = (before.record id).attributes
  size : (after.record id).size = (before.record id).size
  align : (after.record id).align = (before.record id).align
  attr : ∀ attr ∈ (before.record id).attributes,
    Forget.later.attr (after.attr attr) = Forget.later.attr (before.attr attr)
  needed : ∀ target, dependsOn before id target = true →
    (after.record target).size = (before.record target).size ∧
      (after.record target).align = (before.record target).align
  enumerations : after.enumerations = before.enumerations
  methodName : ∀ method, (after.method method).name = (before.method method).name

theorem dependsOn_base {model : Model} {id base : RecordId}
    (found : (model.record id).base = some base) : dependsOn model id base = true := by
  simp [dependsOn, found]

theorem dependsOn_attr {model : Model} {id target : RecordId} {attr : AttributeId}
    (listed : attr ∈ (model.record id).attributes) (type : (model.attr attr).type = .record target) :
    dependsOn model id target = true := by
  simp only [dependsOn, Bool.or_eq_true, List.any_eq_true]
  exact .inr ⟨attr, listed, by simp [type]⟩

private theorem elementLayout_congr {before after : Model} {old new : Attribute}
    (type : new.type = old.type) (shape : new.shape = old.shape) (accessor : new.accessor = old.accessor)
    (target : ∀ id, old.type = .record id →
      (after.record id).size = (before.record id).size ∧
        (after.record id).align = (before.record id).align)
    (enumerations : after.enumerations = before.enumerations)
    (methodName : ∀ method, (after.method method).name = (before.method method).name) :
    elementLayout after new = elementLayout before old := by
  unfold elementLayout
  rw [type]
  cases known : old.type with
  | builtin type => rfl
  | enumeration id => simp only [Model.enumeration, enumerations]
  | record id =>
    obtain ⟨size, align⟩ := target id known
    simp only [size, align, dynamicSize, accessor, Attribute.rank, shape, methodName]

theorem Places.congr {before after : Model} {pack : Option UInt32} {cursor next : Cursor}
    {id : AttributeId} (places : Places before pack cursor id next)
    (same : Forget.later.attr (after.attr id) = Forget.later.attr (before.attr id))
    (layout : elementLayout after (after.attr id) = elementLayout before (before.attr id)) :
    Places after pack cursor id next := by
  have elementSize : (after.attr id).elementSize = (before.attr id).elementSize :=
    (congrArg Attribute.elementSize same :)
  have offset : (after.attr id).offset = (before.attr id).offset := (congrArg Attribute.offset same :)
  have shape : (after.attr id).shape = (before.attr id).shape := (congrArg Attribute.shape same :)
  have name : (after.attr id).name = (before.attr id).name := (congrArg Attribute.name same :)
  have declared : (after.attr id).declaredOffset = (before.attr id).declaredOffset :=
    (congrArg Attribute.declaredOffset same :)
  constructor
  case notLast => exact places.notLast
  case elementSize => rw [elementSize, layout, places.elementSize]
  case offset =>
    rw [layout, offset, ← places.offset]
    simp only [offsetAfter, declared]
  case stop =>
    rw [← places.stop]
    simp only [stopAfter, shape, offset, elementSize]
  case align => rw [layout, places.align]
  case openEnded => rw [shape, name, places.openEnded]

theorem PlacesAll.congr {before after : Model} {pack : Option UInt32} {cursor final : Cursor}
    {ids : List AttributeId} (places : PlacesAll before pack cursor ids final)
    (same : ∀ id ∈ ids, Forget.later.attr (after.attr id) = Forget.later.attr (before.attr id))
    (layout : ∀ id ∈ ids,
      elementLayout after (after.attr id) = elementLayout before (before.attr id)) :
    PlacesAll after pack cursor ids final := by
  induction places with
  | nil => exact .nil
  | cons first _ ih =>
    exact .cons (first.congr (same _ List.mem_cons_self) (layout _ List.mem_cons_self))
      (ih (fun id member => same id (List.mem_cons_of_mem _ member))
        fun id member => layout id (List.mem_cons_of_mem _ member))

/-- The equations of a layout hold on where what they speak of is the same. -/
theorem LaidOut.congr {before after : Model} {id : RecordId} (laidOut : LaidOut before id)
    (same : SameLayout before after id) : LaidOut after id := by
  obtain ⟨final, places, size, align⟩ := laidOut
  have start : initialCursor after (after.record id) = initialCursor before (before.record id) := by
    unfold initialCursor
    rw [same.base]
    cases found : (before.record id).base with
    | none => rfl
    | some base =>
      obtain ⟨baseSize, baseAlign⟩ := same.needed base (dependsOn_base found)
      simp only [baseSize, baseAlign]
  refine ⟨final, ?_, by rw [same.size, size], by rw [same.align, align]⟩
  rw [same.pack, same.attributes, start]
  refine places.congr same.attr fun attr listed => ?_
  have forgotten := same.attr attr listed
  exact elementLayout_congr (congrArg Attribute.type forgotten :) (congrArg Attribute.shape forgotten :)
    (congrArg Attribute.accessor forgotten :)
    (fun target type => same.needed target (dependsOn_attr listed type)) same.enumerations
    same.methodName

/-!
## Placing one record type
-/

theorem placeAttribute_ok {model after : Model} {pack : Option UInt32} {path : String}
    {cursor next : Cursor} {id : AttributeId}
    (accepted : placeAttribute pack path (model, cursor) id = .ok (after, next)) :
    ∃ offset elementSize,
      elementSize = (elementLayout model (model.attr id)).1 ∧
      cursor.openEnded = none ∧
      offsetAfter pack (effectiveAlign pack (elementLayout model (model.attr id)).2)
        (model.attr id) cursor.stop = some offset ∧
      stopAfter { model.attr id with offset, elementSize } = some next.stop ∧
      next.align = (if pack.isSome then
        max cursor.align (effectiveAlign pack (elementLayout model (model.attr id)).2)
        else cursor.align) ∧
      next.openEnded =
        (if isUnbounded (model.attr id).shape then some (model.attr id).name else none) ∧
      after = model.modifyAttribute id fun current => { current with offset, elementSize } := by
  simp only [placeAttribute, bind, Except.bind] at accepted
  cases last : cursor.openEnded with
  | some previous =>
    simp only [last, refuse] at accepted
    cases accepted
  | none =>
    simp only [last] at accepted
    obtain ⟨offset, placed, accepted⟩ := bind_ok accepted
    obtain ⟨stop, ended, accepted⟩ := bind_ok accepted
    cases accepted
    exact ⟨offset, _, rfl, rfl, orOverflow_ok placed, orOverflow_ok ended, rfl, rfl, rfl⟩

/-- Only offset and element size of the attribute itself change. -/
theorem placeAttribute_places {model after : Model} {pack : Option UInt32} {path : String}
    {cursor next : Cursor} {id : AttributeId} (inside : id.index < model.attributes.size)
    (accepted : placeAttribute pack path (model, cursor) id = .ok (after, next)) :
    Places after pack cursor id next ∧ Agree .layout model after ∧
      after.records = model.records ∧ ∀ other, other ≠ id → after.attr other = model.attr other := by
  obtain ⟨offset, elementSize, size, notLast, placed, stop, align, openEnded, rfl⟩ :=
    placeAttribute_ok accepted
  have self : (model.modifyAttribute id fun current => { current with offset, elementSize }).attr id =
      { model.attr id with offset, elementSize } := by
    rw [attr_modifyAttribute, if_pos ⟨rfl, inside⟩]
  have layout : elementLayout (model.modifyAttribute id fun current =>
      { current with offset, elementSize }) { model.attr id with offset, elementSize } =
        elementLayout model (model.attr id) :=
    elementLayout_congr rfl rfl rfl (fun _ _ => ⟨rfl, rfl⟩) rfl fun _ => rfl
  refine ⟨?_, .modifyAttribute model id fun _ => rfl, rfl, ?_⟩
  · constructor
    case notLast => exact notLast
    case elementSize =>
      rw [self, layout]
      exact size
    case offset =>
      rw [self, layout]
      exact placed
    case stop =>
      rw [self]
      exact stop
    case align => rw [self, layout, align]
    case openEnded =>
      rw [self]
      exact openEnded
  · intro other different
    rw [attr_modifyAttribute, if_neg fun both => different both.1.symm]

/-- Attributes placed one after the other keep their places while the next ones are placed. -/
theorem placeAttributes_places {model after : Model} {pack : Option UInt32} {path : String}
    {cursor final : Cursor} {ids : List AttributeId} (distinct : ids.Nodup)
    (inside : ∀ id ∈ ids, id.index < model.attributes.size)
    (accepted : ids.foldlM (placeAttribute pack path) (model, cursor) = .ok (after, final)) :
    PlacesAll after pack cursor ids final ∧ Agree .layout model after ∧
      after.records = model.records ∧ ∀ other, other ∉ ids → after.attr other = model.attr other := by
  refine foldlM_invariant accepted (fun seen state =>
    PlacesAll state.1 pack cursor seen state.2 ∧ Agree .layout model state.1 ∧
      state.1.records = model.records ∧
      ∀ other, other ∉ seen → state.1.attr other = model.attr other)
    ⟨.nil, .refl model, rfl, fun _ _ => rfl⟩ ?_
  rintro seen id rest ⟨state, reached⟩ ⟨later, next⟩ split ⟨places, agree, records, others⟩ taken
  have member : id ∈ ids := by simp [split]
  have fresh : id ∉ seen := by
    rw [split, List.nodup_append] at distinct
    exact fun old => distinct.2.2 id old id List.mem_cons_self rfl
  obtain ⟨one, same, sameRecords, unchanged⟩ :=
    placeAttribute_places (agree.attributeCount ▸ inside id member) taken
  have settled : ∀ other ∈ seen, later.attr other = state.attr other :=
    fun other old => unchanged other fun equal => fresh (equal ▸ old)
  refine ⟨?_, agree.trans same, sameRecords.trans records, ?_⟩
  · refine (places.congr (fun other old => by rw [settled other old]) ?_).concat one
    intro other old
    rw [settled other old]
    refine elementLayout_congr rfl rfl rfl (fun target _ => ?_) same.enumerations
      (same.methodField Method.name fun _ => rfl)
    simp only [Model.record, sameRecords, and_self]
  · intro other unlisted
    rw [List.mem_append, List.mem_singleton, not_or] at unlisted
    exact (unchanged other unlisted.2).trans (others other unlisted.1)

theorem placeAttributes_agree {model after : Model} {pack : Option UInt32} {path : String}
    {cursor final : Cursor} {ids : List AttributeId}
    (accepted : ids.foldlM (placeAttribute pack path) (model, cursor) = .ok (after, final)) :
    Agree .layout model after := by
  refine foldlM_preserves accepted (fun state => Agree .layout model state.1) (.refl model) ?_
  rintro attr _ ⟨state, reached⟩ ⟨later, next⟩ agree taken
  obtain ⟨offset, elementSize, _, _, _, _, _, _, rfl⟩ := placeAttribute_ok taken
  exact agree.trans (.modifyAttribute state attr fun _ => rfl)

theorem placeRecord_agree {model after : Model} {id : RecordId}
    (accepted : placeRecord model id = .ok after) : Agree .layout model after := by
  simp only [placeRecord] at accepted
  obtain ⟨⟨placed, cursor⟩, attributes, accepted⟩ := bind_ok accepted
  cases accepted
  exact (placeAttributes_agree attributes).trans (.modifyRecord placed id fun _ => rfl)

theorem placeRecords_agree {model after : Model} {order : List RecordId}
    (accepted : order.foldlM placeRecord model = .ok after) : Agree .layout model after :=
  foldlM_preserves accepted (Agree .layout model) (.refl model)
    fun _ _ _ _ agree taken => agree.trans (placeRecord_agree taken)

/-- Placing a type touches nothing but the type and its attributes. -/
theorem placeRecord_others {model after : Model} {id : RecordId}
    (distinct : (model.record id).attributes.Nodup)
    (inside : ∀ attr ∈ (model.record id).attributes, attr.index < model.attributes.size)
    (accepted : placeRecord model id = .ok after) :
    (∀ other, other ≠ id → after.record other = model.record other) ∧
      ∀ attr, attr ∉ (model.record id).attributes → after.attr attr = model.attr attr := by
  simp only [placeRecord] at accepted
  obtain ⟨⟨placed, cursor⟩, attributes, accepted⟩ := bind_ok accepted
  cases accepted
  obtain ⟨_, _, records, others⟩ := placeAttributes_places distinct inside attributes
  refine ⟨fun other different => ?_, others⟩
  rw [record_modifyRecord, if_neg fun both => different both.1.symm]
  simp only [Model.record, records]

/-- Placing a type lays it out. -/
theorem placeRecord_laidOut {model after : Model} {id : RecordId}
    (there : id.index < model.records.size)
    (distinct : (model.record id).attributes.Nodup)
    (inside : ∀ attr ∈ (model.record id).attributes, attr.index < model.attributes.size)
    (apart : dependsOn model id id = false) (accepted : placeRecord model id = .ok after) :
    LaidOut after id := by
  obtain ⟨foreign, _⟩ := placeRecord_others distinct inside accepted
  simp only [placeRecord] at accepted
  obtain ⟨⟨placed, cursor⟩, attributes, accepted⟩ := bind_ok accepted
  cases accepted
  obtain ⟨places, agree, records, _⟩ := placeAttributes_places distinct inside attributes
  have old : ∀ other, placed.record other = model.record other := by
    intro other
    simp only [Model.record, records]
  have self : (placed.modifyRecord id fun current =>
      { current with size := cursor.stop, align := cursor.align }).record id =
        { model.record id with size := cursor.stop, align := cursor.align } := by
    rw [record_modifyRecord, old, records, if_pos ⟨rfl, there⟩]
  refine ⟨cursor, ?_, ?_, ?_⟩
  · have start : initialCursor (placed.modifyRecord id fun current =>
        { current with size := cursor.stop, align := cursor.align })
          { model.record id with size := cursor.stop, align := cursor.align } =
        initialCursor model (model.record id) := by
      unfold initialCursor
      dsimp only
      cases found : (model.record id).base with
      | none => rfl
      | some base =>
        have different : base ≠ id := by
          rintro rfl
          rw [dependsOn_base found] at apart
          cases apart
        simp only [foreign base different]
    rw [self, start]
    refine places.congr (fun _ _ => rfl) fun attr listed => ?_
    refine elementLayout_congr rfl rfl rfl (fun target type => ?_) rfl fun _ => rfl
    have known : (model.attr attr).type = .record target := by
      rw [← type]
      exact (agree.attrField Attribute.type (fun _ => rfl) attr).symm
    have different : target ≠ id := by
      rintro rfl
      rw [dependsOn_attr listed known] at apart
      cases apart
    rw [foreign target different, old]
    exact ⟨rfl, rfl⟩
  · rw [self]
  · rw [self]

/-!
## Placing all record types
-/

theorem dependsOn_agree {before after : Model} (agree : Agree .layout before after)
    (id target : RecordId) : dependsOn after id target = dependsOn before id target := by
  have base := agree.recordField Record.base (fun _ => rfl) id
  have attributes := agree.recordField Record.attributes (fun _ => rfl) id
  have type := agree.attrField Attribute.type fun _ => rfl
  simp only [dependsOn, base, attributes, type]

/-- What a type depends on is in range, so its place in the order counts. -/
theorem mem_dependencies_of_dependsOn {model : Model} (closed : model.Closed) {id target : RecordId}
    (depends : dependsOn model id target = true) : target ∈ dependencies model id := by
  refine mem_dependencies.mpr ⟨?_, depends⟩
  simp only [dependsOn, Bool.or_eq_true, beq_iff_eq, List.any_eq_true] at depends
  rcases depends with base | ⟨attr, listed, type⟩
  · exact closed.base id target base
  · have inRange := (closed.attr (closed.recordAttributes id attr listed)).type
    rw [type] at inRange
    exact (inRange_cons.mp inRange).1

/-- The types that are through are laid out, and nothing but the layout differs. -/
structure LaidOutUpTo (model : Model) (seen : List RecordId) (state : Model) : Prop where
  agree : Agree .layout model state
  laidOut : ∀ id ∈ seen, LaidOut state id

section Orders

variable {model : Model} (linked : model.Linked) {order : List RecordId}
  (isOrder : IsOrder model order)

include linked isOrder

/-- A type that comes next is laid out, and what is laid out already stays so. -/
theorem LaidOutUpTo.step {seen rest : List RecordId} {id : RecordId} {state after : Model}
    (upTo : LaidOutUpTo model seen state) (split : order = seen ++ id :: rest)
    (taken : placeRecord state id = .ok after) : LaidOutUpTo model (seen ++ [id]) after := by
  have member : id ∈ order := by simp [split]
  have there := (isOrder.complete id).mp member
  have fresh : id ∉ seen := by
    have distinct := isOrder.distinct
    rw [split, List.nodup_append] at distinct
    exact fun old => distinct.2.2 id old id List.mem_cons_self rfl
  have depends := dependsOn_agree upTo.agree
  have attributes := upTo.agree.recordField Record.attributes (fun _ => rfl)
  have known := linked.closed.recordAttributes
  have apart : dependsOn state id id = false := by
    rw [depends]
    by_contra self
    have loop := mem_dependencies_of_dependsOn linked.closed (Bool.not_eq_false _ ▸ self)
    exact fresh (isOrder.before split id loop)
  have same := placeRecord_agree taken
  have distinct : (state.record id).attributes.Nodup :=
    attributes id ▸ linked.attributes.nodup (known id)
  have inside : ∀ attr ∈ (state.record id).attributes, attr.index < state.attributes.size := by
    rw [attributes, upTo.agree.attributeCount]
    exact known id
  have one := placeRecord_laidOut (upTo.agree.recordCount ▸ there) distinct inside apart taken
  obtain ⟨others, unchanged⟩ := placeRecord_others distinct inside taken
  refine ⟨upTo.agree.trans same, fun other listed => ?_⟩
  rcases List.mem_append.mp listed with old | last
  · have different : other ≠ id := fun equal => fresh (equal ▸ old)
    refine (upTo.laidOut other old).congr ?_
    obtain ⟨front, back, splitSeen⟩ := List.append_of_mem old
    constructor
    case needed =>
      intro target needs
      rw [depends] at needs
      have earlier : target ∈ front := by
        have place : order = front ++ other :: (back ++ id :: rest) := by simp [split, splitSeen]
        exact isOrder.before place target (mem_dependencies_of_dependsOn linked.closed needs)
      have inSeen : target ∈ seen := by simp [splitSeen, earlier]
      rw [others target fun equal => fresh (equal ▸ inSeen)]
      exact ⟨rfl, rfl⟩
    case attr =>
      intro attr held
      refine congrArg Forget.later.attr (unchanged attr fun own => different ?_)
      rw [attributes] at held own
      exact linked.listedOnce held own
    case enumerations => exact same.enumerations
    case methodName => exact same.methodField Method.name fun _ => rfl
    all_goals rw [others other different]
  · cases List.mem_singleton.mp last
    exact one

theorem placeRecords_laidOut {placed : Model} (accepted : order.foldlM placeRecord model = .ok placed) :
    Agree .layout model placed ∧
      ∀ id : RecordId, id.index < model.records.size → LaidOut placed id := by
  have all : LaidOutUpTo model order placed :=
    foldlM_invariant accepted (LaidOutUpTo model) ⟨.refl model, by simp⟩
      fun _ _ _ _ _ split upTo taken => upTo.step linked isOrder split taken
  exact ⟨all.agree, fun id inside => all.laidOut id ((isOrder.complete id).mpr inside)⟩

end Orders

/-!
## What placement refers to
-/

section Closed

variable {census : Census} {model : Model}

private theorem elementLayout_inRange (model : Model) (attr : Attribute) :
    InRange census (elementLayout model attr).1.references := by
  unfold elementLayout
  split
  · exact inRange_nil
  · exact inRange_nil
  · rename_i target _
    dsimp only
    split
    · rename_i constant
      cases known : (model.record target).size with
      | const value => exact inRange_nil
      | operand part | concat parts | add left right | mul left right =>
        rw [known] at constant
        cases constant
    · exact inRange_nil

private theorem placeAttribute_closed (closed : model.ClosedFor census) {after : Model}
    {pack : Option UInt32} {path : String} {cursor next : Cursor} {id : AttributeId}
    (stop : InRange census cursor.stop.references) (inside : id.index < model.attributes.size)
    (accepted : placeAttribute pack path (model, cursor) id = .ok (after, next)) :
    after.ClosedFor census ∧ InRange census next.stop.references := by
  obtain ⟨offset, elementSize, size, _, placed, ended, _, _, rfl⟩ := placeAttribute_ok accepted
  have held := closed.attr inside
  have sizeInRange : InRange census elementSize.references := size ▸ elementLayout_inRange model _
  have offsetInRange : InRange census offset.references := by
    unfold offsetAfter at placed
    split at placed
    · rename_i declared
      cases placed
      exact held.declaredOffset _ declared
    · split at placed
      · obtain ⟨value, _, rfl⟩ := Option.map_eq_some_iff.mp placed
        exact inRange_nil
      · cases placed
        exact stop
  constructor
  · refine closed.modifyAttribute id fun item inRange => Attribute.closed_iff.mp ?_
    exact { Attribute.closed_iff.mpr inRange with
      offset := offsetInRange
      elementSize := sizeInRange }
  · unfold stopAfter at ended
    split at ended
    · cases ended
      exact offsetInRange
    · obtain ⟨count, counted, ended⟩ := Option.bind_eq_some_iff.mp ended
      obtain ⟨extent, extended, ended⟩ := Option.bind_eq_some_iff.mp ended
      refine Expr.sum_inRange ended offsetInRange (Expr.product_inRange extended sizeInRange ?_)
      refine Expr.productOf_inRange counted fun factor member => ?_
      obtain ⟨dimension, listed, counts⟩ := List.mem_filterMap.mp member
      have shape := held.shape dimension listed
      rw [Dimension.references, counts] at shape
      simpa using shape

theorem placeRecord_closed (closed : model.ClosedFor census) {after : Model} {id : RecordId}
    (attributes : census.attributes = model.attributes.size)
    (records : census.records = model.records.size) (accepted : placeRecord model id = .ok after) :
    after.ClosedFor census := by
  simp only [placeRecord] at accepted
  obtain ⟨⟨placed, cursor⟩, folded, accepted⟩ := bind_ok accepted
  cases accepted
  have start : InRange census (initialCursor model (model.record id)).stop.references := by
    unfold initialCursor
    split
    · rename_i base found
      exact (closed.record (records ▸ closed.base id base found)).size
    · exact inRange_nil
  obtain ⟨placedClosed, stop, _⟩ := foldlM_preserves folded
    (fun state : Model × Cursor => state.1.ClosedFor census ∧
      InRange census state.2.stop.references ∧ state.1.attributes.size = model.attributes.size)
    ⟨closed, start, rfl⟩ (by
      rintro attr listed ⟨state, reached⟩ ⟨later, next⟩ ⟨before, stop, size⟩ taken
      have inside : attr.index < state.attributes.size := by
        rw [size, ← attributes]
        exact closed.recordAttributes id attr listed
      obtain ⟨after, nextStop⟩ := placeAttribute_closed before stop inside taken
      have agree := (placeAttribute_places inside taken).2.1
      exact ⟨after, nextStop, agree.attributeCount.trans size⟩)
  refine placedClosed.modifyRecord id fun item inRange => Record.closed_iff.mp ?_
  exact { Record.closed_iff.mpr inRange with size := stop }

theorem placeRecords_closed {placed : Model} (closed : model.Closed) {order : List RecordId}
    (accepted : order.foldlM placeRecord model = .ok placed) : placed.ClosedFor model.census := by
  have main := foldlM_preserves accepted
    (fun state : Model => state.ClosedFor model.census ∧ Agree .layout model state)
    ⟨closed, .refl model⟩ fun _ _ _ _ ⟨before, agree⟩ taken =>
      ⟨placeRecord_closed before agree.attributeCount.symm agree.recordCount.symm taken,
        agree.trans (placeRecord_agree taken)⟩
  exact main.1

end Closed

end RecordSchema.Layout
