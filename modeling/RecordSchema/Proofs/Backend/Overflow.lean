import RecordSchema.Proofs.Backend.StoredBases
import RecordSchema.Proofs.Layout.Overflow
import RecordSchema.Proofs.Traversal.Runs
import RecordSchema.Generator

/-!
# Generated code whose numbers are no words

Layout multiplies dimensions from the first on and goes no further than to one that is no number, and it
compares places without subtracting them. An accessor multiplies the dimensions behind each one, and a
class has the difference of two places for its padding. So code generation can come to numbers that layout
has not: behind a dimension that is no number, and in a gap behind an end below zero.
-/

set_option autoImplicit false

namespace RecordSchema.Accessors

open Cpp Layout Outcome

/-- The bytes from one element to the next along a dimension are no word: the size of an element times the
leading numbers among the dimensions that follow. -/
def StrideExceeds (attr : Attribute) : Prop :=
  ∃ (size : Int) (before : List Dimension) (counts : List Int) (rest : List Dimension),
    attr.elementSize = .const size ∧ before ≠ [] ∧
      attr.shape = before ++ counts.map (fun count => .bounded (.const count)) ++ rest ∧
        ¬ Word.Fits (size * counts.prod)

/-- The bytes of the padding before a storage member are no word. -/
def GapExceeds (model : Model) (record : Record) : Prop :=
  ∃ before attr after start stop, record.attributes = before ++ attr :: after ∧
    (model.attr attr).stored = true ∧ (model.attr attr).offset = .const start ∧
      runningEnd model record before = some (.const stop) ∧ stop < start ∧
        ¬ Word.Fits (start - stop)

/-- A number of the class of a record type is no word. -/
inductive ClassExceeds (model : Model) (id : RecordId) : Prop where
  | stride {attr : AttributeId} : attr ∈ (model.record id).attributes →
      (model.attr attr).stored = false → StrideExceeds (model.attr attr) → ClassExceeds model id
  | gap : GapExceeds model (model.record id) → ClassExceeds model id

/-!
## Addresses
-/

section Strides

variable {elementSize : Expr} {position : Nat} {offset : Expr} {dimensions : List Dimension}

/-- A stride comes to nothing where leading numbers among the dimensions lead out of the range. -/
theorem stride_eq_none_iff (word : elementSize.IsWord) : stride elementSize dimensions = none ↔
    ∃ (size : Int) (counts : List Int) (rest : List Expr), elementSize = .const size ∧
      dimensions.filterMap Dimension.count? = counts.map .const ++ rest ∧
        ¬ Word.Fits (size * counts.prod) := by
  cases constant : elementSize.constant? with
  | none =>
    have symbolic : ∀ value, elementSize = .const value → value = 0 := by
      rintro value rfl
      cases constant
    obtain ⟨result, computed⟩ :=
      Expr.foldlM_product_of_factor (dimensions.filterMap Dimension.count?) symbolic
    constructor
    · intro failed
      rw [stride, computed] at failed
      cases failed
    · rintro ⟨size, _, _, rfl, -, -⟩
      cases constant
  | some size =>
    obtain rfl := Expr.constant?_eq_some_iff.mp constant
    rw [stride, Expr.foldlM_product_eq_none_iff (word size rfl)]
    constructor
    · rintro ⟨counts, rest, split, exceeds⟩
      exact ⟨size, counts, rest, rfl, split, exceeds⟩
    · rintro ⟨_, counts, rest, ⟨⟩, split, exceeds⟩
      exact ⟨counts, rest, split, exceeds⟩

private theorem exists_behind_cons_iff {α : Type} {property : List α → Prop} {first : α} {rest : List α} :
    (∃ before item behind, first :: rest = before ++ item :: behind ∧ property behind) ↔
      property rest ∨ ∃ before item behind, rest = before ++ item :: behind ∧ property behind := by
  constructor
  · rintro ⟨before, item, behind, split, holds⟩
    cases before with
    | nil =>
      cases split
      exact .inl holds
    | cons other before =>
      cases split
      exact .inr ⟨before, item, behind, rfl, holds⟩
  · rintro (holds | ⟨before, item, behind, rfl, holds⟩)
    · exact ⟨[], first, rest, rfl, holds⟩
    · exact ⟨first :: before, item, behind, rfl, holds⟩

/-- Only strides can come to nothing: an index is no number, so its product with a stride is none but
zero. -/
theorem addStrides_eq_none_iff (offsetWord : offset.IsWord) :
    addStrides elementSize position offset dimensions = none ↔
      ∃ before dimension rest, dimensions = before ++ dimension :: rest ∧
        stride elementSize rest = none := by
  induction dimensions generalizing position offset with
  | nil => simp [addStrides]
  | cons dimension rest ih =>
    rw [exists_behind_cons_iff, addStrides]
    cases strided : stride elementSize rest with
    | none => simp
    | some step =>
      obtain ⟨distance, multiplied, zero⟩ := Expr.product_of_factor
        (.operand (.text ("i" ++ toString position))) step
          (.inl fun _ same => by cases same)
      have distanceWord : distance.IsWord := fun value same => by
        rw [zero value same]
        exact Word.fits_zero
      cases added : Expr.sum offset distance with
      | none =>
        obtain ⟨start, value, rfl, rfl, exceeds⟩ := Expr.sum_eq_none_iff.mp added
        rw [zero value rfl, Int.add_zero] at exceeds
        exact absurd (offsetWord start rfl) exceeds
      | some reached =>
        simp only [Option.bind_eq_bind, Option.bind_some, multiplied, added, reduceCtorEq, false_or]
        exact ih (Expr.isWord_sum added offsetWord distanceWord)

end Strides

private theorem filterMap_bounded (counts : List Expr) :
    (counts.map Dimension.bounded).filterMap Dimension.count? = counts := by
  induction counts with
  | nil => rfl
  | cons count rest ih => exact congrArg (count :: ·) ih

theorem filterMap_numbers (counts : List Int) :
    (counts.map fun count => Dimension.bounded (.const count)).filterMap Dimension.count? =
      counts.map .const := by
  rw [← filterMap_bounded (counts.map .const), List.map_map]
  rfl

private theorem eq_map_bounded {dimensions : List Dimension}
    (bounded : ∀ dimension ∈ dimensions, ∃ count, dimension = .bounded count) :
    dimensions = (dimensions.filterMap Dimension.count?).map .bounded := by
  induction dimensions with
  | nil => rfl
  | cons dimension rest ih =>
    obtain ⟨⟨count, rfl⟩, others⟩ := List.forall_mem_cons.mp bounded
    exact congrArg (Dimension.bounded count :: ·) (ih others)

/-- An element of an attribute has no address exactly where a stride exceeds. -/
theorem elementOffset_eq_none_iff {attr : Attribute}
    (tail : ∀ dimension ∈ attr.shape.tail, ∃ count, dimension = .bounded count)
    (offset : attr.offset.IsWord) (size : attr.elementSize.IsWord) :
    elementOffset attr = none ↔ StrideExceeds attr := by
  rw [elementOffset, addStrides_eq_none_iff offset]
  simp only [stride_eq_none_iff size]
  constructor
  · rintro ⟨before, dimension, behind, split, bytes, counts, rest, same, counted, exceeds⟩
    have bounded : ∀ other ∈ behind, ∃ count, other = .bounded count := by
      intro other listed
      refine tail other ?_
      rw [split]
      cases before with
      | nil => exact listed
      | cons first before => simp [listed]
    refine ⟨bytes, before ++ [dimension], counts, rest.map .bounded, same, by simp, ?_, exceeds⟩
    rw [split, eq_map_bounded bounded, counted, List.map_append, List.map_map]
    simp only [List.append_assoc, List.cons_append, List.nil_append]
    rfl
  · rintro ⟨bytes, before, counts, rest, same, nonempty, split, exceeds⟩
    obtain ⟨front, dimension, rfl⟩ := List.eq_nil_or_concat before |>.resolve_left nonempty
    refine ⟨front, dimension, counts.map (fun count => .bounded (.const count)) ++ rest, ?_, bytes,
      counts, rest.filterMap Dimension.count?, same, ?_, exceeds⟩
    · rw [split, List.concat_eq_append]
      simp only [List.append_assoc, List.cons_append, List.nil_append]
    · rw [List.filterMap_append, filterMap_numbers]

/-!
## Storage members
-/

section Storage

variable {model : Model} {record : Record}

theorem storageMembersFrom_of_unstored {ids : List AttributeId}
    (unstored : ∀ id ∈ ids, (model.attr id).stored = false) (cursor : Int) (padding : Nat) :
    storageMembersFrom model cursor padding (ids.map model.attr) = some [] := by
  cases ids with
  | nil => rfl
  | cons id rest =>
    rw [List.map_cons, storageMembersFrom, unstored id List.mem_cons_self]
    rfl

theorem unstored_of_marks {ids : List AttributeId} {count : Nat}
    (marks : List.replicate count false = ids.map fun id => (model.attr id).stored) :
    ∀ id ∈ ids, (model.attr id).stored = false := by
  intro id listed
  have marked : (model.attr id).stored ∈ ids.map fun id => (model.attr id).stored :=
    List.mem_map_of_mem listed
  rw [← marks] at marked
  exact (List.mem_replicate.mp marked).2

/-- A storage member comes to nothing for the padding before it or for one behind it. -/
theorem storageMembersFrom_cons_eq_none_iff {attr : Attribute} {rest : List Attribute}
    {cursor start stop : Int} {padding : Nat} (stored : attr.stored = true)
    (fixed : fixedRange attr = some (some (start, stop))) :
    storageMembersFrom model cursor padding (attr :: rest) = none ↔
      (cursor < start ∧ ¬ Word.Fits (start - cursor)) ∨
        storageMembersFrom model stop (if cursor < start then padding + 1 else padding) rest =
          none := by
  obtain ⟨size, count, extent, offset, bytes, counted, multiplied, added⟩ := fixedRange_words fixed
  have elements : elementCount attr = some count := by rw [elementCount, counted]; rfl
  have place : attr.offset.constant?.getD cursor = start := by rw [offset]; rfl
  have width : attr.elementSize.constant?.getD 0 = size := by rw [bytes]; rfl
  rw [storageMembersFrom, if_pos stored]
  simp only [place, width, elements, multiplied, added, Option.bind_eq_bind, Option.bind_some]
  split
  · rename_i gap
    cases checked : Word.check (start - cursor) with
    | none => simp [gap, Word.check_eq_none_iff.mp checked]
    | some bytes =>
      have fits : Word.Fits (start - cursor) := (Word.check_eq_some_iff.mp checked).1
      cases storageMembersFrom model stop (padding + 1) rest <;> simp [fits]
  · rename_i close
    cases storageMembersFrom model stop padding rest <;> simp [close]

/-- The gaps from an attribute of a record type on, once those before it are stored. -/
theorem storageMembersFrom_eq_none_iff {seen rest : List AttributeId} {cursor : Int} {padding : Nat}
    (reached : runningEnd model record seen = some (.const cursor))
    (marks : marksOf true (some cursor) (rest.map model.attr) =
      some (rest.map fun id => (model.attr id).stored)) :
    storageMembersFrom model cursor padding (rest.map model.attr) = none ↔
      ∃ before attr after start stop, rest = before ++ attr :: after ∧
        (model.attr attr).stored = true ∧ (model.attr attr).offset = .const start ∧
          runningEnd model record (seen ++ before) = some (.const stop) ∧ stop < start ∧
            ¬ Word.Fits (start - stop) := by
  induction rest generalizing seen cursor padding with
  | nil => simp [storageMembersFrom]
  | cons id rest ih =>
    rw [List.map_cons, marksOf] at marks
    obtain ⟨range, fixed, marks⟩ := Option.bind_eq_some_iff.mp marks
    rw [if_pos rfl] at marks
    split at marks
    · have unstored : ∀ other ∈ id :: rest, (model.attr other).stored = false :=
        unstored_of_marks (Option.some.inj marks)
      rw [storageMembersFrom_of_unstored unstored]
      simp only [reduceCtorEq, false_iff]
      rintro ⟨before, attr, after, _, _, split, stored, -⟩
      rw [unstored attr (by simp [split])] at stored
      cases stored
    · rename_i next stops
      obtain ⟨others, later, marks⟩ := Option.map_eq_some_iff.mp marks
      obtain ⟨stored, rfl⟩ := List.cons.inj marks
      obtain ⟨previous, start, known, rfl, -⟩ := storedStop_eq stops
      cases known
      obtain ⟨_, _, _, offset, -⟩ := fixedRange_words fixed
      have onward : runningEnd model record (seen ++ [id]) = some (.const next) := by
        rw [runningEnd, List.getLast?_concat]
        exact stopAfter_of_fixedRange fixed
      rw [List.map_cons, storageMembersFrom_cons_eq_none_iff stored.symm fixed, ih onward later]
      constructor
      · rintro (exceeds | ⟨before, attr, after, first, stop, rfl, marked, place, ends, exceeds⟩)
        · exact ⟨[], id, rest, start, cursor, rfl, stored.symm, offset, by simpa using reached,
            exceeds⟩
        · exact ⟨id :: before, attr, after, first, stop, rfl, marked, place,
            by simpa using ends, exceeds⟩
      · rintro ⟨before, attr, after, first, stop, split, marked, place, ends, exceeds⟩
        cases before with
        | nil =>
          cases split
          rw [List.append_nil, reached] at ends
          cases ends
          cases offset.symm.trans place
          exact .inl exceeds
        | cons other before =>
          cases split
          exact .inr ⟨before, attr, after, first, stop, rfl, marked, place, by simpa using ends,
            exceeds⟩

/-- The storage members of a type come to nothing exactly where a gap exceeds. -/
theorem storageMembers_eq_none_iff {id : RecordId} (marked : Marked model id) :
    storageMembers model (model.record id) = none ↔ GapExceeds model (model.record id) := by
  by_cases any : ∃ attr ∈ (model.record id).attributes, (model.attr attr).stored = true
  · obtain ⟨attr, own, stored⟩ := any
    obtain ⟨storing, start, known⟩ := Marked.start marked own stored
    have marks := marked
    rw [Marked, storing, known] at marks
    have reached : runningEnd model (model.record id) [] = some (.const start) ∧
        (((model.record id).base.map fun base =>
          (model.record base).size.constant?).getD none).getD 0 = start := by
      unfold storageStart at known
      change some (initialCursor model (model.record id)).stop = _ ∧ _
      rw [initialCursor]
      cases based : (model.record id).base with
      | none =>
        rw [based] at known
        cases known
        exact ⟨rfl, rfl⟩
      | some base =>
        rw [based] at known
        exact ⟨congrArg some (Expr.constant?_eq_some_iff.mp known), congrArg (Option.getD · 0) known⟩
    obtain ⟨reached, first⟩ := reached
    rw [storageMembers]
    simp only [first]
    rw [storageMembersFrom_eq_none_iff reached marks]
    rfl
  · have unstored : ∀ attr ∈ (model.record id).attributes, (model.attr attr).stored = false :=
      fun attr own => Bool.eq_false_iff.mpr fun stored => any ⟨attr, own, stored⟩
    rw [storageMembers, storageMembersFrom_of_unstored unstored]
    simp only [reduceCtorEq, false_iff]
    rintro ⟨before, attr, after, _, _, split, stored, -⟩
    exact any ⟨attr, by simp [split], stored⟩

end Storage

/-!
## Classes
-/

section Classes

variable {model : Model}

/-- What an attribute is written as comes to nothing exactly where its address does. -/
theorem methodBody_attr_eq_none_iff {owner : RecordId} {method : Method} {attr : AttributeId}
    (body : method.body = .attr attr) : methodBody model owner method = none ↔
      (model.attr attr).stored = false ∧ elementOffset (model.attr attr) = none := by
  rw [methodBody, body, Option.map_eq_none_iff, attributeBody]
  have read : elementRead model owner (model.attr attr) = none ↔
      (model.attr attr).stored = false ∧ elementOffset (model.attr attr) = none := by
    rw [elementRead]
    cases (model.attr attr).stored with
    | true => simp
    | false => cases elementOffset (model.attr attr) <;> simp
  rw [← read]
  cases elementRead model owner (model.attr attr) with
  | none => simp
  | some text => split <;> simp

private theorem attr_of_methodBody_eq_none {owner : RecordId} {method : Method}
    (failed : methodBody model owner method = none) : ∃ attr, method.body = .attr attr := by
  rw [methodBody] at failed
  split at failed
  · rename_i attr body
    exact ⟨attr, body⟩
  all_goals cases failed

theorem exists_foldlM_assign
    (counted : ∀ attr, ∃ count, elementCount (model.attr attr) = some count) (owner : RecordId)
    (texts : List (Destination × String)) (start : Assignments) :
    ∃ direct, texts.foldlM (assign model owner) start = some direct := by
  refine exists_foldlM_option fun assignment _ state => ?_
  unfold assign
  split
  · rename_i attr _
    dsimp only
    split
    · obtain ⟨count, known⟩ := counted attr
      rw [assignArray, known]
      exact ⟨_, rfl⟩
    · exact ⟨_, rfl⟩
  · exact ⟨_, rfl⟩

private theorem exists_constructorMember
    (counted : ∀ attr, ∃ count, elementCount (model.attr attr) = some count) (owner : RecordId)
    (constructor : Constructor) : ∃ made, constructorMember model owner constructor = some made := by
  obtain ⟨direct, folded⟩ :=
    exists_foldlM_assign counted owner (assignmentTexts model owner constructor) {}
  rw [constructorMember]
  split
  · exact ⟨_, rfl⟩
  · rw [assignments, folded]
    exact ⟨_, rfl⟩

/-- A class comes to nothing exactly where a number of it exceeds. -/
theorem classOf_eq_none_iff {id : RecordId} (sound : model.Sound) (marked : Marked model id)
    (counted : ∀ attr, ∃ count, elementCount (model.attr attr) = some count)
    (addresses : ∀ attr ∈ (model.record id).attributes,
      elementOffset (model.attr attr) = none ↔ StrideExceeds (model.attr attr)) :
    classOf model id = none ↔ ClassExceeds model id := by
  obtain ⟨constructors, constructed⟩ := @exists_mapM_option _ _ (model.record id).constructors
    (constructorMember model id) fun constructor _ => exists_constructorMember counted id constructor
  have parts : classOf model id = none ↔
      (∃ method ∈ (model.record id).methods, methodBody model id (model.method method) = none) ∨
        storageMembers model (model.record id) = none := by
    have members : ((model.record id).methods.mapM fun method =>
        methodMember model id (model.method method)) = none ↔
          ∃ method ∈ (model.record id).methods, methodBody model id (model.method method) = none := by
      rw [mapM_eq_none_iff]
      refine exists_congr fun method => and_congr_right fun _ => ?_
      rw [methodMember]
      cases methodBody model id (model.method method) <;> simp
    rw [← members, classOf, constructed]
    cases (model.record id).methods.mapM fun method =>
        methodMember model id (model.method method) with
    | none => simp
    | some methods => cases storageMembers model (model.record id) <;> simp
  rw [parts, storageMembers_eq_none_iff marked]
  constructor
  · rintro (⟨method, listed, failed⟩ | gap)
    · obtain ⟨attr, body⟩ := attr_of_methodBody_eq_none failed
      have own := sound.attribute_of_reader listed body
      obtain ⟨unstored, unplaced⟩ := (methodBody_attr_eq_none_iff body).mp failed
      exact .stride own unstored ((addresses attr own).mp unplaced)
    · exact .gap gap
  · rintro (⟨own, unstored, exceeds⟩ | gap)
    · obtain ⟨method, listed, -, body⟩ := sound.exists_accessor own
      exact .inl ⟨method, listed, (methodBody_attr_eq_none_iff body).mpr
        ⟨unstored, (addresses _ own).mpr exceeds⟩⟩
    · exact .inr gap

end Classes

/-!
## Shapes of numbers
-/

private theorem exists_numbers {dimensions : List Dimension}
    (plain : ∀ dimension ∈ dimensions, ∃ count, dimension = .bounded (.const count)) :
    ∃ counts : List Int, dimensions = counts.map fun count => .bounded (.const count) := by
  induction dimensions with
  | nil => exact ⟨[], rfl⟩
  | cons dimension rest ih =>
    obtain ⟨⟨count, rfl⟩, others⟩ := List.forall_mem_cons.mp plain
    obtain ⟨counts, rfl⟩ := ih others
    exact ⟨count :: counts, rfl⟩

/-- The number of bytes of an attribute that has an end is a word if all numbers are known. -/
theorem fits_extent {attr : Attribute} {counts : List Int} {size : Int} {stop : Expr}
    (shape : attr.shape = counts.map fun count => .bounded (.const count))
    (bytes : attr.elementSize = .const size) (ended : stopAfter attr = some stop) :
    Word.Fits (size * counts.prod) := by
  have bounded : isUnbounded attr.shape = false := by
    rw [shape]
    simp [isUnbounded, Dimension.count?]
  rw [stopAfter, if_neg (Bool.eq_false_iff.mp bounded), shape, filterMap_numbers, bytes] at ended
  obtain ⟨count, counted, ended⟩ := Option.bind_eq_some_iff.mp ended
  obtain ⟨rfl, -⟩ := Expr.productOf_consts counted
  obtain ⟨extent, extended, -⟩ := Option.bind_eq_some_iff.mp ended
  obtain ⟨_, multiplied, -⟩ := Option.map_eq_some_iff.mp extended
  exact (Word.mul_eq_some_iff.mp multiplied).1

end RecordSchema.Accessors

namespace RecordSchema

open Layout

/-!
## Built models
-/

private theorem Word.fits_of_mul {factor value : Int} (positive : 0 < factor)
    (fits : Word.Fits (factor * value)) : Word.Fits value := by
  unfold Word.Fits at *
  rcases Int.le_total 0 value with natural | negative
  · have least := Int.mul_le_mul_of_nonneg_right (Int.add_one_le_of_lt positive) natural
    omega
  · have most := Int.mul_le_mul_of_nonpos_right (Int.add_one_le_of_lt positive) negative
    omega

namespace Stages

variable {units : List SourceUnit} {built : Built} (stages : Stages units built)

include stages

/-- An attribute of a built model has an end, and offset and size are words if they are numbers. -/
theorem measured {id : RecordId} {attr : AttributeId} (own : attr ∈ (built.model.record id).attributes) :
    (∃ stop, stopAfter (built.model.attr attr) = some stop) ∧
      (built.model.attr attr).offset.IsWord ∧ (built.model.attr attr).elementSize.IsWord := by
  obtain ⟨numbered, sized⟩ := stages.words
  have laidOut := stages.laidOut (Model.inside_of_mem Record.attributes rfl own)
  obtain ⟨_, next, one⟩ := laidOut.exists_places own
  obtain ⟨final, places, -⟩ := laidOut
  exact ⟨⟨next.stop, one.stop⟩,
    places.words numbered sized (isWord_initialCursor sized _) attr own⟩

theorem counted (attr : AttributeId) :
    ∃ count, Accessors.elementCount (built.model.attr attr) = some count := by
  by_cases inside : attr.index < built.model.attributes.size
  · have own := (stages.sound.attributes.mem_iff inside).mpr rfl
    obtain ⟨⟨stop, ended⟩, -⟩ := stages.measured own
    obtain ⟨result, fixed, -⟩ := exists_count (stages.boundedTail attr) ended
    exact ⟨result.getD 0, by rw [Accessors.elementCount, fixed]; rfl⟩
  · rw [built.model.attr_eq_default inside]
    exact ⟨1, rfl⟩

/-- The class of a type in a built model comes to nothing exactly where a number of it exceeds. -/
theorem classOf_eq_none_iff {id : RecordId} (inside : id.index < built.model.records.size) :
    Accessors.classOf built.model id = none ↔ Accessors.ClassExceeds built.model id := by
  refine Accessors.classOf_eq_none_iff stages.sound (stages.marked inside) stages.counted ?_
  intro attr own
  obtain ⟨-, offset, size⟩ := stages.measured own
  exact Accessors.elementOffset_eq_none_iff (stages.boundedTail attr) offset size

/-- Where all dimensions are numbers, strides are parts of a product that layout has computed. -/
theorem symbolic_of_strideExceeds {id : RecordId} {attr : AttributeId}
    (own : attr ∈ (built.model.record id).attributes)
    (exceeds : Accessors.StrideExceeds (built.model.attr attr)) :
    ∃ dimension ∈ (built.model.attr attr).shape, ∀ count, dimension ≠ .bounded (.const count) := by
  by_contra plain
  push Not at plain
  obtain ⟨size, before, counts, rest, bytes, -, split, exceeds⟩ := exceeds
  obtain ⟨numbers, same⟩ := Accessors.exists_numbers plain
  obtain ⟨⟨stop, ended⟩, -⟩ := stages.measured own
  have all := Accessors.fits_extent same bytes ended
  have positive := (stages.words.1 attr).positive
  rw [same, Accessors.filterMap_numbers] at positive
  have each : ∀ count ∈ numbers, 0 < count := fun count listed =>
    positive count (List.mem_map_of_mem listed)
  rw [same] at split
  obtain ⟨front, back, rfl, fronts, rfl⟩ := List.map_eq_append_iff.mp split
  obtain ⟨lead, middle, rfl, rfl, middles⟩ := List.map_eq_append_iff.mp fronts
  have injective : Function.Injective fun count => Dimension.bounded (.const count) :=
    fun _ _ equal => by cases equal; rfl
  obtain rfl := injective.list_map middles
  have outer : 0 < lead.prod * back.prod :=
    Int.mul_pos (List.prod_pos fun count listed => each count (by simp [listed]))
      (List.prod_pos fun count listed => each count (by simp [listed]))
  refine exceeds (Word.fits_of_mul outer ?_)
  rw [List.prod_append, List.prod_append] at all
  convert all using 1
  ac_rfl

/-- The class of a type can only come to nothing behind a dimension that is no number, or behind an end
below zero. -/
theorem unusual_of_classExceeds {id : RecordId} (exceeds : Accessors.ClassExceeds built.model id) :
    (∃ attr ∈ (built.model.record id).attributes, ∃ dimension ∈ (built.model.attr attr).shape,
      ∀ count, dimension ≠ .bounded (.const count)) ∨
    ∃ before rest stop, (built.model.record id).attributes = before ++ rest ∧
      runningEnd built.model (built.model.record id) before = some (.const stop) ∧ stop < 0 := by
  rcases exceeds with ⟨own, -, exceeds⟩ | ⟨before, attr, after, start, stop, split, -, place, ends,
    gap, exceeds⟩
  · exact .inl ⟨_, own, stages.symbolic_of_strideExceeds own exceeds⟩
  · have word := (stages.measured (split ▸ List.mem_append_right before List.mem_cons_self)).2.1 start place
    refine .inr ⟨before, attr :: after, stop, split, ends, ?_⟩
    unfold Word.Fits at word exceeds
    omega

end Stages

/-!
## Generators
-/

open Traversal

namespace Accessors

theorem backend_failsOnly (header : String) (model : Model) :
    (backend header).FailsOnly model fun step fault =>
      fault = .overflow ∧ ∃ id, step = .record id ∧ classOf model id = none where
  prologue := .pure _
  enterPackage _ := .pure _
  visitConstant _ := .pure _
  visitEnumeration _ := .pure _
  visitRecord id := by
    refine .bind ?_ fun _ => .pure _
    cases made : classOf model id with
    | none => exact .throw ⟨rfl, id, rfl, made⟩
    | some text => exact .pure text
  referenceRecord _ := .pure _
  leavePackage _ := .pure _
  finish := .pure _
  epilogue := .pure _

end Accessors

theorem Wrappers.backend_failsOnly (options : Options) (model : Model) :
    (backend options).FailsOnly model fun _ fault => fault ≠ .overflow where
  prologue := .bind (.set _) fun _ => .pure _
  enterPackage _ := .bind (.modify _) fun _ => .pure _
  visitConstant _ := .pure _
  visitEnumeration _ := .pure _
  visitRecord _ := .bind (.modify _) fun _ => .pure _
  referenceRecord _ := .pure _
  leavePackage _ := by
    refine .bind .get fun registry => ?_
    split
    · exact .throw (by simp)
    · exact .bind (.set _) fun _ => .pure _
  finish := .pure _
  epilogue := .pure _

theorem StorageClasses.backend_failsOnly (options : Options) (model : Model) :
    (backend options).FailsOnly model fun _ fault => fault ≠ .overflow where
  prologue := .pure _
  enterPackage _ := .pure _
  visitConstant _ := .pure _
  visitEnumeration _ := .pure _
  visitRecord id := by
    simp only [backend]
    split
    · exact .pure _
    · exact .throw (by simp)
  referenceRecord _ := .pure _
  leavePackage _ := .pure _
  finish := .pure _
  epilogue := .pure _

private theorem Dispatcher.collecting_failsOnly (name : String) (options : Options)
    (finish : Model → State → Generated × State) (model : Model) :
    (collecting name options finish).FailsOnly model fun _ fault => fault ≠ .overflow where
  prologue := .bind (.modify _) fun _ => .pure _
  enterPackage _ := .pure _
  visitConstant _ := .pure _
  visitEnumeration _ := .pure _
  visitRecord _ := .bind (.modify _) fun _ => .pure _
  referenceRecord _ := .pure _
  leavePackage _ := .pure _
  finish := .bind .get fun _ => .bind (.set _) fun _ => .pure _
  epilogue := .pure _

namespace Generator

private theorem runWith_ne_overflow {σ : Type} {model : Model} {backend : Backend σ}
    (faults : backend.FailsOnly model fun _ fault => fault ≠ .overflow) (outer : Option String)
    (start : σ) (remarks : σ → List Warning × Option (NameHash × Nat)) :
    (runWith model outer start remarks backend).result ≠ .error .overflow := by
  intro failed
  obtain ⟨step, -, other⟩ := run_fails faults (Prod.ext failed rfl)
  exact other rfl

/-- Accessors come to nothing exactly where the class of a type that is visited does. -/
theorem accessors_overflow_iff (model : Model) (outer : Option String) (header : String) :
    (runQuietly model outer () (Accessors.backend header)).result = .error .overflow ↔
      ∃ id ∈ visited model, Accessors.classOf model id = none := by
  have faults := Accessors.backend_failsOnly header model
  rw [← filterMap_steps model true outer]
  constructor
  · intro failed
    obtain ⟨step, listed, -, id, rfl, made⟩ := run_fails faults (Prod.ext failed rfl)
    exact ⟨id, List.mem_filterMap.mpr ⟨_, listed, rfl⟩, made⟩
  · rintro ⟨id, visit, made⟩
    obtain ⟨step, listed, visit⟩ := List.mem_filterMap.mp visit
    have same : step = .record id := by
      cases step <;> cases visit
      rfl
    subst same
    cases ran : (Traversal.run model (Accessors.backend header) outer).run.run () with
    | mk result last =>
      change ((Traversal.run model (Accessors.backend header) outer).run.run ()).1 = _
      rw [ran]
      cases result with
      | error fault =>
        obtain ⟨_, -, rfl, -⟩ := run_fails faults ran
        rfl
      | ok generated =>
        obtain ⟨front, back, split⟩ := List.append_of_mem listed
        obtain ⟨_, _, _, _, _, -, -, called, -⟩ := run_visit ran split
        obtain ⟨_, _, taken, -⟩ := run_bind_ok called
        rw [made] at taken
        cases taken

/-- Nothing but accessors computes with numbers of the model. -/
theorem ne_overflow_of_ne_accessors {generator : Generator} (other : generator ≠ .accessors)
    (model : Model) (options : GenerationOptions) :
    (generator.run model options).result ≠ .error .overflow := by
  cases generator with
  | accessors => exact absurd rfl other
  | wrappers => exact runWith_ne_overflow (Wrappers.backend_failsOnly _ _) _ _ _
  | storageClasses => exact runWith_ne_overflow (StorageClasses.backend_failsOnly _ _) _ _ _
  | numberDispatcher | nameDispatcher =>
    exact runWith_ne_overflow (Dispatcher.collecting_failsOnly _ _ _ _) _ _ _

end Generator

/-- Code generation for a built model comes to no answer if and only if it is that of accessors, and in
the class of a type that is visited a stride or a gap is no word. For that some dimension must be no
number, or some end must lie below zero. -/
theorem build_generation {units : List SourceUnit} {built : Built}
    (accepted : build units = .ok built) (options : GenerationOptions) (generator : Generator) :
    ((generator.run built.model options).result = .error .overflow ↔
      generator = .accessors ∧
        ∃ id ∈ visited built.model, Accessors.ClassExceeds built.model id) ∧
    ∀ id, Accessors.ClassExceeds built.model id →
      (∃ attr ∈ (built.model.record id).attributes, ∃ dimension ∈ (built.model.attr attr).shape,
        ∀ count, dimension ≠ .bounded (.const count)) ∨
      ∃ before rest stop, (built.model.record id).attributes = before ++ rest ∧
        runningEnd built.model (built.model.record id) before = some (.const stop) ∧ stop < 0 := by
  obtain ⟨stages⟩ := build_stages accepted
  refine ⟨?_, fun id exceeds => stages.unusual_of_classExceeds exceeds⟩
  by_cases same : generator = .accessors
  · subst same
    rw [Generator.run, Generator.accessors_overflow_iff]
    simp only [true_and]
    refine exists_congr fun id => and_congr_right fun visit => ?_
    exact stages.classOf_eq_none_iff ((build_mem_visited accepted id).mp visit).1
  · simp only [same, false_and, iff_false]
    exact Generator.ne_overflow_of_ne_accessors same built.model options

/-- A table without bound of rows that are longer than a word can count. -/
def endlessUnits : List SourceUnit :=
  let table : Declaration.Attribute :=
    { name := "cells", typeName := some "uint8_t", shape := ["*", "4294967296", "4294967296"] }
  let record : Declaration.Record := { name := "Table", attributes := [table] }
  [{ document := { packages := [.mk "Sample" none [] [] [] [] [record]] } }]

/-- A model can be built for which accessors cannot be generated. -/
theorem build_not_generated : ∃ built, build endlessUnits = .ok built ∧
    (Generator.accessors.run built.model {}).result = .error .overflow := by
  have computed : ∃ built, build endlessUnits = .ok built ∧ ⟨0⟩ ∈ visited built.model ∧
      (Accessors.classOf built.model ⟨0⟩).isNone := exists_built (by decide +kernel)
  obtain ⟨built, accepted, visit, made⟩ := computed
  exact ⟨built, accepted, (Generator.accessors_overflow_iff _ _ _).mpr
    ⟨⟨0⟩, visit, Option.isNone_iff_eq_none.mp made⟩⟩

theorem build_generation_sample : ∃ built, build endlessUnits = .ok built ∧
    Accessors.ClassExceeds built.model ⟨0⟩ ∧
    (Generator.accessors.run built.model {}).result = .error .overflow ∧
    (Generator.wrappers.run built.model {}).result ≠ .error .overflow := by
  have computed : ∃ built, build endlessUnits = .ok built ∧ ⟨0⟩ ∈ visited built.model ∧
      ⟨0⟩ ∈ (built.model.record ⟨0⟩).attributes ∧ (built.model.attr ⟨0⟩).stored = false ∧
      (built.model.attr ⟨0⟩).elementSize = .const 1 ∧
      (built.model.attr ⟨0⟩).shape =
        [.unbounded, .bounded (.const 4294967296), .bounded (.const 4294967296)] :=
    exists_built (by decide +kernel)
  obtain ⟨built, accepted, visit, own, unstored, size, shape⟩ := computed
  have exceeds : Accessors.ClassExceeds built.model ⟨0⟩ :=
    .stride own unstored ⟨1, [.unbounded], [4294967296, 4294967296], [], size, by simp, shape,
      by decide⟩
  refine ⟨built, accepted, exceeds, ?_, fun failed => ?_⟩
  · exact (build_generation accepted {} .accessors).1.mpr ⟨rfl, ⟨0⟩, visit, exceeds⟩
  · cases ((build_generation accepted {} .wrappers).1.mp failed).1

end RecordSchema
