import Mathlib.Algebra.BigOperators.Group.List.Lemmas
import RecordSchema.Backend.Accessors
import RecordSchema.Proofs.Build
import RecordSchema.Proofs.Layout.Consecutive

/-!
# Addresses of elements

The accessor of an attribute computes the byte offset of an element from its indices, the last of
which runs fastest. Elements at different indices do not overlap, and all lie where the layout has
put the attribute.
-/

set_option autoImplicit false

namespace RecordSchema.Accessors

open Layout (elements extent isUnbounded)

/-- The value of the index along a dimension. -/
def indexAt (valuation : Valuation) (position : Nat) : Int :=
  valuation.part (.text ("i" ++ toString position))

/-- How many elements come before the one at the indices from a position on. -/
def flatIndex (valuation : Valuation) : Nat → List Dimension → Int
  | _, [] => 0
  | position, _ :: rest =>
    indexAt valuation position * elements valuation rest + flatIndex valuation (position + 1) rest

/-- Whether indices are within bounds, from a position on. An index along a dimension without bound
may be any natural number. -/
def WithinBounds (valuation : Valuation) (position : Nat) (shape : List Dimension) : Prop :=
  ∀ entry ∈ shape.zipIdx position, 0 ≤ indexAt valuation entry.2 ∧
    ∀ count ∈ entry.1.count?, indexAt valuation entry.2 < count.eval valuation

/-- Whether every bounded dimension is positive. -/
def Positive (valuation : Valuation) (shape : List Dimension) : Prop :=
  ∀ count ∈ shape.filterMap Dimension.count?, 0 < count.eval valuation

/-- Whether the bounded dimensions are the same in two valuations. -/
def SameCounts (first second : Valuation) (shape : List Dimension) : Prop :=
  ∀ count ∈ shape.filterMap Dimension.count?, count.eval first = count.eval second

/-- Whether no dimension is without bound. -/
def Bounded (shape : List Dimension) : Prop :=
  ∀ dimension ∈ shape, ∃ count, dimension = .bounded count

/-- What a valuation gives is an element: its indices are within bounds, and the sizes make sense. -/
structure Regular (valuation : Valuation) (attr : Attribute) : Prop where
  size : 0 ≤ attr.elementSize.eval valuation
  positive : Positive valuation attr.shape
  within : WithinBounds valuation 0 attr.shape

/-- Whether two valuations give an attribute the same place, element size and dimensions; they may
differ in indices. -/
structure SameGeometry (first second : Valuation) (attr : Attribute) : Prop where
  offset : attr.offset.eval first = attr.offset.eval second
  size : attr.elementSize.eval first = attr.elementSize.eval second
  counts : SameCounts first second attr.shape

section Decidability

variable (valuation other : Valuation) (position : Nat) (shape : List Dimension) (attr : Attribute)

instance : Decidable (WithinBounds valuation position shape) :=
  inferInstanceAs (Decidable (∀ entry ∈ shape.zipIdx position, _ ∧ _))

instance : Decidable (Positive valuation shape) :=
  inferInstanceAs (Decidable (∀ count ∈ shape.filterMap Dimension.count?, _))

instance : Decidable (SameCounts valuation other shape) :=
  inferInstanceAs (Decidable (∀ count ∈ shape.filterMap Dimension.count?, _))

instance : Decidable (Regular valuation attr) :=
  decidable_of_iff (0 ≤ attr.elementSize.eval valuation ∧ Positive valuation attr.shape ∧
      WithinBounds valuation 0 attr.shape)
    ⟨fun ⟨size, positive, within⟩ => ⟨size, positive, within⟩,
      fun ⟨size, positive, within⟩ => ⟨size, positive, within⟩⟩

instance : Decidable (SameGeometry valuation other attr) :=
  decidable_of_iff (attr.offset.eval valuation = attr.offset.eval other ∧
      attr.elementSize.eval valuation = attr.elementSize.eval other ∧
      SameCounts valuation other attr.shape)
    ⟨fun ⟨offset, size, counts⟩ => ⟨offset, size, counts⟩,
      fun ⟨offset, size, counts⟩ => ⟨offset, size, counts⟩⟩

end Decidability

/-- An expression gives the byte offsets of the elements of an attribute. -/
structure Addresses (attr : Attribute) (address : Expr) : Prop where
  value : ∀ valuation, address.eval valuation = attr.offset.eval valuation +
    ((List.range attr.rank).map fun position => indexAt valuation position *
      attr.elementSize.eval valuation * elements valuation (attr.shape.drop (position + 1))).sum
  start : ∀ valuation, Regular valuation attr → attr.offset.eval valuation ≤ address.eval valuation
  stop : ∀ valuation, Regular valuation attr → isUnbounded attr.shape = false →
    address.eval valuation + attr.elementSize.eval valuation ≤
      attr.offset.eval valuation + extent valuation attr
  apart : ∀ first second, Regular first attr → Regular second attr → SameGeometry first second attr →
    (∃ position < attr.rank, indexAt first position ≠ indexAt second position) →
      address.eval first + attr.elementSize.eval first ≤ address.eval second ∨
        address.eval second + attr.elementSize.eval second ≤ address.eval first

/-!
## Sums of strides
-/

section Values

variable {valuation : Valuation} {elementSize : Expr}

@[simp] theorem elements_nil : elements valuation [] = 1 := rfl

private theorem elements_bounded (count : Expr) (rest : List Dimension) :
    elements valuation (.bounded count :: rest) =
      count.eval valuation * elements valuation rest :=
  List.prod_cons

variable (valuation) in
private theorem eval_stride {dimensions : List Dimension} {result : Expr}
    (computed : stride elementSize dimensions = some result) :
    result.eval valuation = elementSize.eval valuation * elements valuation dimensions :=
  Expr.eval_foldlM_product valuation computed

variable (valuation) in
theorem eval_addStrides {position : Nat} {offset result : Expr} {dimensions : List Dimension}
    (computed : addStrides elementSize position offset dimensions = some result) :
    result.eval valuation = offset.eval valuation +
      elementSize.eval valuation * flatIndex valuation position dimensions := by
  induction dimensions generalizing position offset with
  | nil =>
    cases computed
    simp [flatIndex]
  | cons dimension rest ih =>
    rw [addStrides] at computed
    obtain ⟨step, strided, computed⟩ := Option.bind_eq_some_iff.mp computed
    obtain ⟨distance, multiplied, computed⟩ := Option.bind_eq_some_iff.mp computed
    obtain ⟨reached, added, computed⟩ := Option.bind_eq_some_iff.mp computed
    have index : (Expr.operand (.text ("i" ++ toString position))).eval valuation =
        indexAt valuation position := rfl
    rw [ih computed, Expr.eval_sum valuation added, Expr.eval_product valuation multiplied,
      eval_stride valuation strided, index, flatIndex]
    grind

private theorem flatIndex_eq_sum (size : Int) (position : Nat) (dimensions : List Dimension) :
    size * flatIndex valuation position dimensions =
      ((List.range dimensions.length).map fun step => indexAt valuation (position + step) * size *
        elements valuation (dimensions.drop (step + 1))).sum := by
  induction dimensions generalizing position with
  | nil => simp [flatIndex]
  | cons dimension rest ih =>
    have shifted : (fun step => indexAt valuation (position + 1 + step) * size *
          elements valuation (rest.drop (step + 1))) =
        (fun step => indexAt valuation (position + step) * size *
          elements valuation ((dimension :: rest).drop (step + 1))) ∘ Nat.succ := by
      funext step
      simp [Nat.add_assoc, Nat.add_comm 1]
    rw [flatIndex, Int.mul_add, ih, shifted, List.length_cons, List.range_succ_eq_map, List.map_cons,
      List.map_map, List.sum_cons]
    congr 1
    simp only [Nat.add_zero, Nat.zero_add, List.drop_succ_cons, List.drop_zero]
    grind

end Values

/-!
## Order of elements
-/

section Order

variable {valuation first second : Valuation} {position : Nat} {dimension : Dimension}
  {shape rest : List Dimension}

private theorem withinBounds_cons : WithinBounds valuation position (dimension :: rest) ↔
    (0 ≤ indexAt valuation position ∧
      ∀ count ∈ dimension.count?, indexAt valuation position < count.eval valuation) ∧
    WithinBounds valuation (position + 1) rest := by
  rw [WithinBounds, List.zipIdx_cons]
  exact List.forall_mem_cons

theorem filterMap_count_tail {count : Expr} (member : count ∈ rest.filterMap Dimension.count?) :
    count ∈ (dimension :: rest).filterMap Dimension.count? := by
  obtain ⟨other, inside, found⟩ := List.mem_filterMap.mp member
  exact List.mem_filterMap.mpr ⟨other, List.mem_cons_of_mem _ inside, found⟩

private theorem elements_congr (same : SameCounts first second shape) :
    elements first shape = elements second shape :=
  congrArg List.prod (List.map_congr_left same)

/-- Whoever counts the elements before one within bounds does not get to all of them. -/
theorem flatIndex_lt (bounded : Bounded shape) (positive : Positive valuation shape)
    (within : WithinBounds valuation position shape) :
    0 ≤ flatIndex valuation position shape ∧
      flatIndex valuation position shape < elements valuation shape := by
  induction shape generalizing position with
  | nil => simp [flatIndex]
  | cons dimension rest ih =>
    obtain ⟨boundedHead, boundedTail⟩ := List.forall_mem_cons.mp bounded
    obtain ⟨count, rfl⟩ := boundedHead
    obtain ⟨⟨natural, below⟩, later⟩ := withinBounds_cons.mp within
    obtain ⟨lower, upper⟩ := ih boundedTail
      (fun count member => positive count (filterMap_count_tail member)) later
    have least : indexAt valuation position + 1 ≤ count.eval valuation := below count rfl
    have few : (indexAt valuation position + 1) * elements valuation rest ≤
        count.eval valuation * elements valuation rest :=
      Int.mul_le_mul_of_nonneg_right least (by omega)
    have start : 0 ≤ indexAt valuation position * elements valuation rest :=
      Int.mul_nonneg natural (by omega)
    rw [Int.add_mul, Int.one_mul] at few
    rw [flatIndex, elements_bounded]
    omega

private theorem flatIndex_nonneg (bounded : Bounded shape.tail) (positive : Positive valuation shape)
    (within : WithinBounds valuation position shape) : 0 ≤ flatIndex valuation position shape := by
  cases shape with
  | nil => simp [flatIndex]
  | cons dimension rest =>
    have boundedTail : Bounded rest := bounded
    obtain ⟨⟨natural, _⟩, later⟩ := withinBounds_cons.mp within
    obtain ⟨lower, upper⟩ := flatIndex_lt boundedTail
      (fun count member => positive count (filterMap_count_tail member)) later
    have start : 0 ≤ indexAt valuation position * elements valuation rest :=
      Int.mul_nonneg natural (by omega)
    rw [flatIndex]
    omega

/-- The leading dimension may be without bound, as nothing is multiplied by it. Index and rest are quotient
and remainder of one number. -/
theorem flatIndex_injective (bounded : Bounded shape.tail) (same : SameCounts first second shape)
    (positive : Positive first shape) (withinFirst : WithinBounds first position shape)
    (withinSecond : WithinBounds second position shape)
    (equal : flatIndex first position shape = flatIndex second position shape) :
    ∀ step, position ≤ step → step < position + shape.length →
      indexAt first step = indexAt second step := by
  induction shape generalizing position with
  | nil =>
    intro step lower upper
    rw [List.length_nil] at upper
    omega
  | cons dimension rest ih =>
    have boundedTail : Bounded rest := bounded
    have sameTail : SameCounts first second rest :=
      fun count member => same count (filterMap_count_tail member)
    have positiveTail : Positive first rest :=
      fun count member => positive count (filterMap_count_tail member)
    have positiveSecond : Positive second rest :=
      fun count member => sameTail count member ▸ positiveTail count member
    have counts := elements_congr sameTail
    have laterFirst := (withinBounds_cons.mp withinFirst).2
    have laterSecond := (withinBounds_cons.mp withinSecond).2
    obtain ⟨lowerFirst, upperFirst⟩ := flatIndex_lt boundedTail positiveTail laterFirst
    obtain ⟨lowerSecond, upperSecond⟩ := flatIndex_lt boundedTail positiveSecond laterSecond
    have some : 0 < elements first rest := by omega
    have leading := (Int.ediv_emod_unique some).mpr
      ⟨Int.add_comm _ (elements first rest * indexAt first position), lowerFirst, upperFirst⟩
    have other := (Int.ediv_emod_unique some).mpr
      ⟨Int.add_comm _ (elements first rest * indexAt second position), lowerSecond,
        counts ▸ upperSecond⟩
    rw [flatIndex, flatIndex, ← counts, Int.mul_comm, Int.mul_comm (indexAt second position)] at equal
    rw [equal] at leading
    have head : indexAt first position = indexAt second position := leading.1.symm.trans other.1
    have tail := leading.2.symm.trans other.2
    intro step lower upper
    rcases Nat.eq_or_lt_of_le lower with rfl | later
    · exact head
    · refine ih (fun other member => boundedTail other (List.mem_of_mem_tail member)) sameTail
        positiveTail laterFirst laterSecond tail step later ?_
      rw [List.length_cons] at upper
      omega

end Order

private theorem bounded_of_isUnbounded {shape : List Dimension} (bounded : isUnbounded shape = false) :
    Bounded shape := by
  intro dimension member
  have counted := List.any_eq_false.mp bounded dimension member
  cases dimension with
  | bounded count => exact ⟨count, rfl⟩
  | unbounded => exact absurd rfl counted

/-- There is room for one more behind the first elements if there are more. -/
theorem room_behind {size few many : Int} (natural : 0 ≤ size) (fewer : few < many) :
    size * few + size ≤ size * many := by
  have room := Int.mul_le_mul_of_nonneg_left (Int.add_one_le_of_lt fewer) natural
  rwa [Int.mul_add, Int.mul_one] at room

private theorem elementOffset_addresses {attr : Attribute} {address : Expr} (tail : Bounded attr.shape.tail)
    (computed : elementOffset attr = some address) : Addresses attr address := by
  have value := fun valuation => eval_addStrides valuation computed
  constructor
  case value =>
    intro valuation
    rw [value, flatIndex_eq_sum]
    simp only [Nat.zero_add]
    rfl
  case start =>
    intro valuation regular
    have before : 0 ≤ flatIndex valuation 0 attr.shape := flatIndex_nonneg tail regular.positive regular.within
    have distance := Int.mul_nonneg regular.size before
    rw [value]
    omega
  case stop =>
    intro valuation regular bounded
    obtain ⟨_, below⟩ := flatIndex_lt (bounded_of_isUnbounded bounded) regular.positive regular.within
    have room := room_behind regular.size below
    rw [value, extent, if_neg (by simp [bounded])]
    omega
  case apart =>
    intro first second regularFirst regularSecond same ⟨position, inside, different⟩
    have unequal : flatIndex first 0 attr.shape ≠ flatIndex second 0 attr.shape := by
      intro equal
      exact different (flatIndex_injective tail same.counts regularFirst.positive
        regularFirst.within regularSecond.within equal position (Nat.zero_le _)
        (Nat.lt_of_lt_of_eq inside (Nat.zero_add _).symm))
    rw [value, value, ← same.offset, ← same.size]
    rcases Int.lt_or_gt_of_ne unequal with before | after
    · have room := room_behind regularFirst.size before
      exact .inl (by omega)
    · have room := room_behind regularFirst.size after
      exact .inr (by omega)

/-- The layout goes on behind the bytes of an attribute. -/
def Reserved (model : Model) (id : AttributeId) : Prop :=
  ∃ cursor next, Layout.Places model (model.record (model.attr id).owner).pack cursor id next ∧
    ∀ valuation, next.stop.eval valuation =
      (model.attr id).offset.eval valuation + extent valuation (model.attr id)

private theorem reserved_of_laidOut {model : Model} {id : AttributeId}
    (laidOut : Layout.LaidOut model (model.attr id).owner)
    (listed : id ∈ (model.record (model.attr id).owner).attributes) : Reserved model id := by
  obtain ⟨cursor, next, placed⟩ := laidOut.exists_places listed
  exact ⟨cursor, next, placed, fun valuation => Layout.eval_stopAfter valuation placed.stop⟩

/-- In a built model, the elements of an attribute lie side by side in the bytes that the layout has
put aside for it. -/
theorem build_elementOffset {units : List SourceUnit} {built : Built}
    (accepted : build units = .ok built) {id : AttributeId}
    (inside : id.index < built.model.attributes.size) {address : Expr}
    (computed : elementOffset (built.model.attr id) = some address) :
    Addresses (built.model.attr id) address ∧ Reserved built.model id := by
  obtain ⟨stages⟩ := build_stages accepted
  have sound := stages.sound
  have owner := (sound.closed.attr inside).owner
  exact ⟨elementOffset_addresses (stages.boundedTail id) computed,
    reserved_of_laidOut (stages.laidOut owner) ((sound.attributes.mem_iff inside).mpr rfl)⟩

/-- Indices of an element of a table, where all other leaves count seven. -/
def sampleIndices (row column : Int) : Valuation where
  part operand :=
    if operand = .text "i0" then row else if operand = .text "i1" then column else 7
  row _ := 0

theorem build_elementOffset_sample : ∃ built address, build sampleUnits = .ok built ∧
    elementOffset (built.model.attr ⟨4⟩) = some address ∧ Reserved built.model ⟨4⟩ ∧
    (address.eval (sampleIndices 2 3) + 2 ≤ address.eval (sampleIndices 9 0) ∨
      address.eval (sampleIndices 9 0) + 2 ≤ address.eval (sampleIndices 2 3)) := by
  have computed : ∃ built, build sampleUnits = .ok built ∧ 4 < built.model.attributes.size ∧
      (elementOffset (built.model.attr ⟨4⟩)).isSome ∧ (built.model.attr ⟨4⟩).rank = 2 ∧
      (built.model.attr ⟨4⟩).elementSize = .const 2 ∧
      Regular (sampleIndices 2 3) (built.model.attr ⟨4⟩) ∧
      Regular (sampleIndices 9 0) (built.model.attr ⟨4⟩) ∧
      SameGeometry (sampleIndices 2 3) (sampleIndices 9 0) (built.model.attr ⟨4⟩) :=
    exists_built (by decide +kernel)
  obtain ⟨built, accepted, inside, some, rank, size, regularFirst, regularSecond, same⟩ := computed
  obtain ⟨address, found⟩ := Option.isSome_iff_exists.mp some
  obtain ⟨addresses, reserved⟩ := build_elementOffset accepted inside found
  have apart := addresses.apart _ _ regularFirst regularSecond same
    ⟨0, by rw [rank]; decide, by decide⟩
  rw [size] at apart
  exact ⟨built, address, accepted, found, reserved, apart⟩

end RecordSchema.Accessors
