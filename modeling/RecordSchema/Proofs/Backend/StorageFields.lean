import RecordSchema.Proofs.Backend.Addressing
import RecordSchema.Proofs.Backend.Overflow

/-!
# Storage members lie where the layout says

The leading attributes of a type that are stored have numbers for their places. Placed one after the other
behind the base, with the padding between them, their storage members start where the layout has put the
attributes. An element of a storage member then has the address that is computed for an attribute without
one. The padding itself can be no word, and then there are no storage members at all.
-/

set_option autoImplicit false

namespace RecordSchema.Accessors

open Cpp Layout Outcome

/-- A stored attribute: where it starts, the size of its elements and its dimensions, all of them numbers. -/
structure Field where
  attr : AttributeId
  start : Int
  size : Int
  counts : List Int

/-- The bytes of a field. -/
def Field.bytes (field : Field) : Int :=
  field.size * field.counts.prod

/-- The attribute of a field is stored, needs no config object and has the numbers of the field. -/
structure Field.Describes (field : Field) (model : Model) : Prop where
  stored : (model.attr field.attr).stored = true
  independent : (model.attr field.attr).configDependent = false
  offset : (model.attr field.attr).offset = .const field.start
  elementSize : (model.attr field.attr).elementSize = .const field.size
  shape : (model.attr field.attr).shape = field.counts.map fun count => .bounded (.const count)

/-- The member that holds a field: an array with the dimensions of the field. -/
def Field.member (model : Model) (field : Field) : ClassMember :=
  let attr := model.attr field.attr
  .field (storageType model attr.type) attr.fieldName
    (String.join (field.counts.map fun count => "[" ++ toString count ++ "]")) attr.comment

/-- How many elements come before the one at some indices. With each further dimension the elements before
become rows of so many elements. -/
def rowMajor (indices counts : List Int) : Int :=
  (indices.zip counts).foldl (fun before step => before * step.2 + step.1) 0

/-- Where an element of a field lies. -/
def Field.element (field : Field) (indices : List Int) : Int :=
  field.start + field.size * rowMajor indices field.counts

/-- The indices of an element in an array of some rank. -/
def indices (valuation : Valuation) (rank : Nat) : List Int :=
  (List.range rank).map (indexAt valuation)

/-- Where fields start that are placed one after the other from a byte on, padding in between. How many
bytes each of them takes is given in their order. -/
def fieldStarts : Int → List ClassMember → List Int → List Int
  | cursor, .pad _ bytes :: members, extents => fieldStarts (cursor + bytes) members extents
  | cursor, .field .. :: members, extent :: extents =>
    cursor :: fieldStarts (cursor + extent) members extents
  | _, _, _ => []

def isPad : ClassMember → Bool
  | .pad .. => true
  | _ => false

/-- Storage members from a byte on: a member for each field, and padding that lets the field start at its
place. -/
structure Placed (model : Model) (cursor : Int) (fields : List Field) (members : List ClassMember) :
    Prop where
  written : members.filter (fun member => !isPad member) = fields.map (Field.member model)
  starts : fieldStarts cursor members (fields.map Field.bytes) = fields.map Field.start
  pads : ∀ number bytes, .pad number bytes ∈ members → 0 < bytes

/-!
## Numbers of an attribute
-/

private theorem fixedCount_numbers {shape : List Dimension} {start count : Int}
    (fixed : fixedCount start shape = some (some count)) :
    ∃ counts : List Int, shape = counts.map (fun count => .bounded (.const count)) ∧
      count = start * counts.prod := by
  induction shape generalizing start with
  | nil =>
    cases fixed
    exact ⟨[], rfl, by simp⟩
  | cons dimension rest ih =>
    cases dimension with
    | unbounded => cases fixed
    | bounded factor =>
      cases factor with
      | const value =>
        rw [fixedCount] at fixed
        obtain ⟨next, multiplied, fixed⟩ := Option.bind_eq_some_iff.mp fixed
        obtain ⟨counts, rfl, product⟩ := ih fixed
        have first := (Word.mul_eq_some_iff.mp multiplied).2
        refine ⟨value :: counts, rfl, ?_⟩
        rw [product, ← first, List.prod_cons, Int.mul_assoc]
      | operand | concat | add | mul => cases fixed

/-- What is stored has numbers. -/
theorem exists_field {model : Model} {id : AttributeId} (stored : (model.attr id).stored = true)
    (independent : (model.attr id).configDependent = false) {start stop : Int}
    (fixed : fixedRange (model.attr id) = some (some (start, stop))) :
    ∃ field : Field, field.attr = id ∧ field.start = start ∧ field.Describes model ∧
      field.start + field.bytes = stop := by
  obtain ⟨size, count, extent, offset, bytes, counted, multiplied, added⟩ := fixedRange_words fixed
  obtain ⟨counts, shape, product⟩ := fixedCount_numbers counted
  have extended := (Word.mul_eq_some_iff.mp multiplied).2
  have reached := (Word.add_eq_some_iff.mp added).2
  refine ⟨⟨id, start, size, counts⟩, rfl, rfl, ⟨stored, independent, offset, bytes, shape⟩, ?_⟩
  rw [← reached, ← extended, product, Int.one_mul]
  rfl

/-!
## Storage members
-/

section Members

variable {model : Model}

theorem Placed.nil (model : Model) (cursor : Int) : Placed model cursor [] [] where
  written := rfl
  starts := rfl
  pads _ _ none := nomatch none

private theorem Field.Describes.member_eq {field : Field} (describes : field.Describes model) :
    fieldMember model (model.attr field.attr) = field.member model := by
  rw [fieldMember, describes.shape, List.map_map]
  rfl

theorem Placed.field {field : Field} (describes : field.Describes model) {fields : List Field}
    {members : List ClassMember} (placed : Placed model (field.start + field.bytes) fields members) :
    Placed model field.start (field :: fields) (fieldMember model (model.attr field.attr) :: members) where
  written := by
    rw [describes.member_eq, List.map_cons, ← placed.written]
    rfl
  starts := congrArg (field.start :: ·) placed.starts
  pads number bytes member := by
    rcases List.mem_cons.mp member with same | later
    · cases same
    · exact placed.pads number bytes later

theorem Placed.pad {cursor bytes : Int} {fields : List Field} {members : List ClassMember}
    (placed : Placed model (cursor + bytes) fields members) (positive : 0 < bytes) (number : Nat) :
    Placed model cursor fields (.pad number bytes :: members) where
  written := placed.written
  starts := placed.starts
  pads other extent member := by
    rcases List.mem_cons.mp member with same | later
    · cases same
      exact positive
    · exact placed.pads other extent later

/-- Padding fills the gap before the members that come next, if there is one. -/
theorem Placed.behind {cursor start : Int} {fields : List Field} {members : List ClassMember}
    (placed : Placed model start fields members) (behind : cursor ≤ start) (padding : Nat) :
    Placed model cursor fields
      ((if cursor < start then [.pad padding (start - cursor)] else []) ++ members) := by
  split
  · rename_i gap
    have distance : cursor + (start - cursor) = start := by omega
    refine .pad ?_ (by omega) padding
    rw [distance]
    exact placed
  · have same : start = cursor := by omega
    exact same ▸ placed

/-- The marks of attributes tell the fields. Where the attributes before end is where they begin. -/
theorem exists_fields {ids : List AttributeId} {cursor : Int}
    (marks : marksOf true (some cursor) (ids.map model.attr) =
      some (ids.map fun id => (model.attr id).stored)) :
    ∃ fields rest, ids = fields.map Field.attr ++ rest ∧ (∀ field ∈ fields, field.Describes model) ∧
      (∀ id ∈ rest, (model.attr id).stored = false) ∧
      ∀ padding members, storageMembersFrom model cursor padding (ids.map model.attr) = some members →
        Placed model cursor fields members := by
  induction ids generalizing cursor with
  | nil =>
    refine ⟨[], [], rfl, by simp, by simp, fun padding members written => ?_⟩
    cases written
    exact .nil model cursor
  | cons id rest ih =>
    rw [List.map_cons, marksOf] at marks
    obtain ⟨range, fixed, marks⟩ := Option.bind_eq_some_iff.mp marks
    rw [if_pos rfl] at marks
    split at marks
    · have unstored : ∀ other ∈ id :: rest, (model.attr other).stored = false :=
        unstored_of_marks (Option.some.inj marks)
      refine ⟨[], id :: rest, rfl, by simp, unstored, fun padding members written => ?_⟩
      rw [storageMembersFrom_of_unstored unstored] at written
      cases written
      exact .nil model cursor
    · rename_i next stops
      obtain ⟨others, later, marks⟩ := Option.map_eq_some_iff.mp marks
      obtain ⟨stored, rfl⟩ := List.cons.inj marks
      obtain ⟨previous, start, known, rfl, behind⟩ := storedStop_eq stops
      cases known
      obtain ⟨field, rfl, rfl, describes, reached⟩ :=
        exists_field stored.symm (unflagged_of_storedStop stops) fixed
      obtain ⟨fields, rest, rfl, all, unstored, placed⟩ := ih later
      refine ⟨field :: fields, rest, rfl, List.forall_mem_cons.mpr ⟨describes, all⟩, unstored,
        fun padding members written => ?_⟩
      obtain ⟨number, others, onward, rfl⟩ := storageMembersFrom_cons stored.symm fixed written
      have member : Placed model field.start (field :: fields)
          (fieldMember model (model.attr field.attr) :: others) :=
        .field describes (reached ▸ placed number others onward)
      exact member.behind behind padding

/-- The fields of a type lie behind its base. -/
theorem Marked.fields {id : RecordId} (marked : Marked model id) :
    ∃ fields rest, (model.record id).attributes = fields.map Field.attr ++ rest ∧
      (∀ field ∈ fields, field.Describes model) ∧
      (∀ attr ∈ rest, (model.attr attr).stored = false) ∧
      ∀ members, storageMembers model (model.record id) = some members →
        ∀ valuation, Placed model (baseEnd model valuation id) fields members := by
  by_cases any : ∃ attr ∈ (model.record id).attributes, (model.attr attr).stored = true
  · obtain ⟨attr, own, stored⟩ := any
    obtain ⟨storing, start, known⟩ := Marked.start marked own stored
    have marks := marked
    rw [Marked, storing, known] at marks
    obtain ⟨fields, rest, split, all, unstored, placed⟩ := exists_fields marks
    refine ⟨fields, rest, split, all, unstored, fun members written valuation => ?_⟩
    obtain ⟨begins, list⟩ := baseEnd_eq valuation known
    rw [list] at written
    rw [begins]
    exact placed 0 members written
  · have unstored : ∀ attr ∈ (model.record id).attributes, (model.attr attr).stored = false :=
      fun attr own => Bool.eq_false_iff.mpr fun stored => any ⟨attr, own, stored⟩
    refine ⟨[], _, rfl, by simp, unstored, fun members written valuation => ?_⟩
    rw [storageMembers, storageMembersFrom_of_unstored unstored] at written
    cases written
    exact .nil model _

end Members

/-!
## Elements
-/

private theorem foldl_rowMajor (valuation : Valuation) (position : Nat) (counts : List Int) (before : Int) :
    (((List.range' position counts.length).map (indexAt valuation)).zip counts).foldl
        (fun before step => before * step.2 + step.1) before =
      before * counts.prod +
        flatIndex valuation position (counts.map fun count => .bounded (.const count)) := by
  induction counts generalizing position before with
  | nil => simp [flatIndex]
  | cons count rest ih =>
    have behind : elements valuation (rest.map fun count => .bounded (.const count)) = rest.prod := by
      rw [elements, filterMap_numbers, List.map_map]
      exact congrArg List.prod (List.map_id rest)
    rw [List.length_cons, List.range'_succ, List.map_cons, List.zip_cons_cons, List.foldl_cons, ih,
      List.map_cons, flatIndex, behind, List.prod_cons]
    grind

/-- An element of a field lies where the address is that is computed for the attribute. -/
theorem Field.eval_elementOffset {model : Model} {field : Field} (describes : field.Describes model)
    {address : Expr} (computed : elementOffset (model.attr field.attr) = some address)
    (valuation : Valuation) :
    address.eval valuation = field.element (indices valuation field.counts.length) := by
  have counted := foldl_rowMajor valuation 0 field.counts 0
  rw [Int.zero_mul, Int.zero_add, ← List.range_eq_range'] at counted
  rw [eval_addStrides valuation computed, describes.offset, describes.elementSize, describes.shape,
    Field.element, rowMajor, indices, counted, Expr.eval_const, Expr.eval_const]

/-- What an accessor reads of a field is the element at its indices. -/
theorem Field.elementRead_eq {model : Model} {field : Field} (describes : field.Describes model)
    (owner : RecordId) : elementRead model owner (model.attr field.attr) =
      some ((model.attr field.attr).fieldName ++
        String.join ((List.range field.counts.length).map fun position => "[i" ++ toString position ++ "]")) := by
  have opens : "[i" = "[" ++ "i" := rfl
  rw [elementRead, if_pos describes.stored, Attribute.rank, describes.shape, List.length_map, subscripts,
    indexNames, List.map_map]
  simp only [Function.comp_def, opens, String.append_assoc]

/-- All dimensions of a field are numbers, and so no stride of it exceeds. -/
theorem Field.exists_elementOffset {units : List SourceUnit} {built : Built}
    (stages : Stages units built) {id : RecordId} {field : Field}
    (own : field.attr ∈ (built.model.record id).attributes) (describes : field.Describes built.model) :
    ∃ address, elementOffset (built.model.attr field.attr) = some address := by
  obtain ⟨-, offset, size⟩ := stages.measured own
  cases computed : elementOffset (built.model.attr field.attr) with
  | some address => exact ⟨address, rfl⟩
  | none =>
    have exceeds := (elementOffset_eq_none_iff (stages.boundedTail field.attr) offset size).mp computed
    obtain ⟨dimension, listed, symbolic⟩ := stages.symbolic_of_strideExceeds own exceeds
    rw [describes.shape] at listed
    obtain ⟨count, -, rfl⟩ := List.mem_map.mp listed
    exact absurd rfl (symbolic count)

/-!
## Built models
-/

/-- The stored attributes of a type come first and need no config object. Storage members are written
unless padding exceeds, and they start where the attributes do. An element of a storage member lies at the
address that is computed from the indices. -/
theorem build_storageFields {units : List SourceUnit} {built : Built} (accepted : build units = .ok built)
    {id : RecordId} (inside : id.index < built.model.records.size) :
    ∃ (fields : List Field) (rest : List AttributeId),
      (built.model.record id).attributes = fields.map Field.attr ++ rest ∧
      (∀ field ∈ fields, field.Describes built.model) ∧
      (∀ attr ∈ rest, (built.model.attr attr).stored = false) ∧
      (storageMembers built.model (built.model.record id) = none ↔
        GapExceeds built.model (built.model.record id)) ∧
      (∀ members, storageMembers built.model (built.model.record id) = some members →
        ∀ valuation, Placed built.model (baseEnd built.model valuation id) fields members) ∧
      ∀ field ∈ fields,
        (∀ owner, elementRead built.model owner (built.model.attr field.attr) =
          some ((built.model.attr field.attr).fieldName ++ String.join
            ((List.range field.counts.length).map fun position => "[i" ++ toString position ++ "]"))) ∧
        ∃ address, elementOffset (built.model.attr field.attr) = some address ∧
          ∀ valuation, address.eval valuation =
            field.element (indices valuation field.counts.length) := by
  obtain ⟨stages⟩ := build_stages accepted
  have marked := stages.marked inside
  obtain ⟨fields, rest, split, describes, unstored, placed⟩ := Marked.fields marked
  refine ⟨fields, rest, split, describes, unstored, storageMembers_eq_none_iff marked, placed,
    fun field listed => ⟨fun owner => Field.elementRead_eq (describes field listed) owner, ?_⟩⟩
  have own : field.attr ∈ (built.model.record id).attributes :=
    split ▸ List.mem_append_left _ (List.mem_map_of_mem listed)
  obtain ⟨address, computed⟩ := Field.exists_elementOffset stages own (describes field listed)
  exact ⟨address, computed, Field.eval_elementOffset (describes field listed) computed⟩

theorem build_storageFields_sample : ∃ built members, build sampleUnits = .ok built ∧
    storageMembers built.model (built.model.record ⟨1⟩) = some members ∧ members.length = 3 ∧
    (∃ fields : List Field, (∀ field ∈ fields, field.Describes built.model) ∧ ⟨2⟩ ∈ fields.map Field.attr ∧
      ∀ valuation, Placed built.model (baseEnd built.model valuation ⟨1⟩) fields members) ∧
    ∃ address, elementOffset (built.model.attr ⟨2⟩) = some address ∧
      address.eval (sampleIndices 2 1) = 4 + 4 * (2 * 2 + 1) := by
  have computed : ∃ built, build sampleUnits = .ok built ∧ 1 < built.model.records.size ∧
      ⟨2⟩ ∈ (built.model.record ⟨1⟩).attributes ∧ (built.model.attr ⟨2⟩).stored = true ∧
      (built.model.attr ⟨2⟩).offset = .const 4 ∧ (built.model.attr ⟨2⟩).elementSize = .const 4 ∧
      (built.model.attr ⟨2⟩).shape.filterMap Dimension.count? = [.const 3, .const 2] ∧
      (storageMembers built.model (built.model.record ⟨1⟩)).map List.length = some 3 :=
    exists_built (by decide +kernel)
  obtain ⟨built, accepted, inside, own, stored, offset, size, counts, written⟩ := computed
  obtain ⟨members, written, count⟩ := Option.map_eq_some_iff.mp written
  obtain ⟨fields, rest, split, describes, unstored, -, placed, elements⟩ :=
    build_storageFields accepted inside
  have listed : ⟨2⟩ ∈ fields.map Field.attr := by
    rw [split] at own
    refine (List.mem_append.mp own).resolve_right fun behind => ?_
    rw [unstored _ behind] at stored
    cases stored
  refine ⟨built, members, accepted, written, count, ⟨fields, describes, listed, placed members written⟩, ?_⟩
  obtain ⟨field, member, same⟩ := List.mem_map.mp listed
  obtain ⟨-, address, addressed, value⟩ := elements field member
  obtain ⟨-, -, place, bytes, shape⟩ := describes field member
  obtain ⟨attr, start, width, numbers⟩ := field
  obtain rfl : attr = ⟨2⟩ := same
  cases place.symm.trans offset
  cases bytes.symm.trans size
  rw [shape, filterMap_numbers] at counts
  have injective : Function.Injective Expr.const := fun _ _ equal => by
    cases equal
    rfl
  obtain rfl : numbers = [3, 2] := injective.list_map counts
  exact ⟨address, addressed, (value _).trans (by decide +kernel)⟩

/-- A byte far below the start of a record type, which the next one extends by nothing, and a byte behind
that which is as far away as places go. -/
def farUnits : List SourceUnit :=
  let first : Declaration.Record :=
    { name := "First"
      attributes := [{ name := "early", typeName := some "uint8_t", offset := some "-100" }] }
  let second : Declaration.Record := { name := "Second", base := some "First" }
  let third : Declaration.Record :=
    { name := "Third", base := some "Second"
      attributes := [{ name := "late", typeName := some "uint8_t", offset := some "9223372036854775800" }] }
  [{ document := { packages := [.mk "Sample" none [] [] [] [] [first, second, third]] } }]

/-- A stored attribute can be farther behind the base than the bytes of padding can say. -/
theorem build_not_storageFields : ∃ built, build farUnits = .ok built ∧
    ¬ ∀ id : RecordId, id.index < built.model.records.size → ∃ fields rest members,
      (built.model.record id).attributes = fields.map Field.attr ++ rest ∧
        storageMembers built.model (built.model.record id) = some members ∧
          ∀ valuation, Placed built.model (baseEnd built.model valuation id) fields members := by
  have computed : ∃ built, build farUnits = .ok built ∧ 2 < built.model.records.size ∧
      (storageMembers built.model (built.model.record ⟨2⟩)).isNone := exists_built (by decide +kernel)
  obtain ⟨built, accepted, inside, none⟩ := computed
  refine ⟨built, accepted, fun all => ?_⟩
  obtain ⟨_, _, members, -, written, -⟩ := all ⟨2⟩ inside
  rw [written] at none
  cases none

end RecordSchema.Accessors
