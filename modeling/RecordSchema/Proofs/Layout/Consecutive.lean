import Mathlib.Algebra.BigOperators.Group.List.Basic
import Mathlib.Algebra.Order.BigOperators.GroupWithZero.List
import Mathlib.Algebra.Order.Ring.Int
import Mathlib.Order.Bounds.Defs
import RecordSchema.Expr
import RecordSchema.Proofs.Build

/-!
# Attributes without declared offsets lie one behind the other

Offsets and sizes are expressions over members of an instance, so what is said of them is said of
their values. A valuation gives every symbolic leaf an integer; operands written one after another are one
leaf, and sums and products that are computed at once have the value of what they stand for. In every
valuation in which element sizes and dimensions are not negative, an attribute starts where the one before
it ends, or at the next multiple of its alignment if the type is packed and that end is a number.
-/

set_option autoImplicit false

namespace RecordSchema

/-!
## Values of expressions
-/

/-- Integers for the symbolic leaves of expressions. -/
structure Valuation where
  part : Operand → Int
  row : List Operand → Int

namespace Expr

/-- The value of an expression. -/
def eval (valuation : Valuation) : Expr → Int
  | const value => value
  | operand part => valuation.part part
  | concat parts => valuation.row parts
  | add left right => left.eval valuation + right.eval valuation
  | mul left right => left.eval valuation * right.eval valuation

@[simp] theorem eval_const (valuation : Valuation) (value : Int) :
    (const value).eval valuation = value := rfl

theorem eval_sum {left right result : Expr} (valuation : Valuation)
    (computed : sum left right = some result) :
    result.eval valuation = left.eval valuation + right.eval valuation := by
  unfold sum at computed
  split at computed
  · obtain ⟨value, added, rfl⟩ := Option.map_eq_some_iff.mp computed
    exact (Word.add_eq_some_iff.mp added).2.symm
  · cases computed
    simp
  · cases computed
    simp
  · cases computed
    rfl

theorem eval_product {left right result : Expr} (valuation : Valuation)
    (computed : product left right = some result) :
    result.eval valuation = left.eval valuation * right.eval valuation := by
  unfold product at computed
  split at computed
  · obtain ⟨value, multiplied, rfl⟩ := Option.map_eq_some_iff.mp computed
    exact (Word.mul_eq_some_iff.mp multiplied).2.symm
  all_goals
    cases computed
    simp [eval]

/-- Folding further factors into a product multiplies its value by theirs. -/
theorem eval_foldlM_product {factors : List Expr} {first result : Expr} (valuation : Valuation)
    (computed : factors.foldlM product first = some result) :
    result.eval valuation = first.eval valuation * (factors.map (eval valuation)).prod := by
  induction factors generalizing first with
  | nil =>
    cases computed
    simp
  | cons factor rest ih =>
    rw [List.foldlM_cons] at computed
    obtain ⟨middle, multiplied, computed⟩ := Option.bind_eq_some_iff.mp computed
    rw [ih computed, eval_product valuation multiplied, List.map_cons, List.prod_cons, Int.mul_assoc]

private theorem eval_productOf {factors : List Expr} {result : Expr} (valuation : Valuation)
    (computed : productOf factors = some result) :
    result.eval valuation = (factors.map (eval valuation)).prod := by
  rw [eval_foldlM_product valuation computed, eval_const, Int.one_mul]

end Expr

namespace Layout

/-!
## Where attributes end
-/

/-- The number of elements of a shape, not counting along a dimension without bound. -/
def elements (valuation : Valuation) (shape : List Dimension) : Int :=
  ((shape.filterMap Dimension.count?).map (Expr.eval valuation)).prod

/-- The number of bytes of an attribute; one without bound counts as empty. -/
def extent (valuation : Valuation) (attr : Attribute) : Int :=
  if isUnbounded attr.shape then 0
  else attr.elementSize.eval valuation * elements valuation attr.shape

/-- The expression for where the attributes of a list end that starts a record type. -/
def runningEnd (model : Model) (record : Record) (before : List AttributeId) : Option Expr :=
  match before.getLast? with
  | none => some (initialCursor model record).stop
  | some last => stopAfter (model.attr last)

/-- The byte where the attributes of such a list end: after the last one or, if there is none, where
the base ends. -/
def endOf (model : Model) (valuation : Valuation) (record : Record) (before : List AttributeId) :
    Int :=
  match before.getLast?, record.base with
  | some last, _ => (model.attr last).offset.eval valuation + extent valuation (model.attr last)
  | none, some base => (model.record base).size.eval valuation
  | none, none => 0

/-- The alignment of an attribute in a type that is packed to a limit. -/
def packedAlign (model : Model) (limit : UInt32) (attr : Attribute) : Int :=
  max 1 (min limit.toNat (elementLayout model attr).2 : Nat)

/-- Where an attribute starts after those before it. -/
structure StartsAfter (model : Model) (valuation : Valuation) (record : Record)
    (before : List AttributeId) (id : AttributeId) : Prop where
  notBefore : endOf model valuation record before ≤ (model.attr id).offset.eval valuation
  exact : (record.pack = none ∨
      ∃ stop, runningEnd model record before = some stop ∧ stop.isConstant = false) →
    (model.attr id).offset.eval valuation = endOf model valuation record before
  packed : ∀ limit value, record.pack = some limit →
    runningEnd model record before = some (.const value) → 0 ≤ value →
      IsLeast {place | packedAlign model limit (model.attr id) ∣ place ∧ value ≤ place}
        ((model.attr id).offset.eval valuation)

/-- The attributes of a record type lie one behind the other and fill it up to its end. -/
structure Consecutive (model : Model) (valuation : Valuation) (record : Record) : Prop where
  starts : ∀ before id rest, record.attributes = before ++ id :: rest →
    StartsAfter model valuation record before id
  apart : record.attributes.Pairwise fun left right =>
    (model.attr left).offset.eval valuation + extent valuation (model.attr left) ≤
      (model.attr right).offset.eval valuation
  size : record.size.eval valuation = endOf model valuation record record.attributes

/-!
## Alignment
-/

private theorem alignUp_eq {offset result : Int} {alignment : Nat}
    (aligned : alignUp offset alignment = some result) :
    result = (offset + alignment - 1).tdiv alignment * alignment := by
  obtain ⟨reached, added, computed⟩ := Option.bind_eq_some_iff.mp aligned
  cases computed
  rw [← (Word.add_eq_some_iff.mp added).2]

private theorem alignUp_ge {offset result : Int} {alignment : Nat} (positive : 0 < alignment)
    (aligned : alignUp offset alignment = some result) : offset ≤ result := by
  have whole := Int.tdiv_mul_add_tmod (offset + alignment - 1) alignment
  have rest := Int.tmod_lt_of_pos (offset + alignment - 1) (Int.natCast_pos.mpr positive)
  rw [alignUp_eq aligned]
  omega

private theorem alignUp_least {offset result : Int} {alignment : Nat} (positive : 0 < alignment)
    (natural : 0 ≤ offset) (aligned : alignUp offset alignment = some result) :
    IsLeast {place : Int | (alignment : Int) ∣ place ∧ offset ≤ place} result := by
  refine ⟨⟨?_, alignUp_ge positive aligned⟩, ?_⟩
  · rw [alignUp_eq aligned]
    exact Int.dvd_mul_left _ _
  · rintro _ ⟨⟨factor, rfl⟩, later⟩
    have whole := Int.tdiv_mul_add_tmod (offset + alignment - 1) alignment
    have rest := Int.tmod_nonneg alignment (by omega : 0 ≤ offset + alignment - 1)
    have below : (offset + alignment - 1).tdiv alignment * alignment < (factor + 1) * alignment := by
      rw [Int.add_mul, Int.one_mul, Int.mul_comm factor]
      omega
    have few := Int.lt_of_mul_lt_mul_right below (Int.natCast_nonneg _)
    rw [alignUp_eq aligned, Int.mul_comm (alignment : Int)]
    exact Int.mul_le_mul_of_nonneg_right (Int.le_of_lt_add_one few) (Int.natCast_nonneg _)

/-!
## From equations to values
-/

section Values

variable {model : Model} {valuation : Valuation} {pack : Option UInt32} {cursor next : Cursor}
  {id : AttributeId}

variable (valuation) in
theorem eval_stopAfter {attr : Attribute} {stop : Expr} (computed : stopAfter attr = some stop) :
    stop.eval valuation = attr.offset.eval valuation + extent valuation attr := by
  unfold stopAfter at computed
  unfold extent
  split at computed
  · rename_i unbounded
    cases computed
    rw [if_pos unbounded, Int.add_zero]
  · rename_i bounded
    obtain ⟨count, counted, computed⟩ := Option.bind_eq_some_iff.mp computed
    obtain ⟨bytes, multiplied, computed⟩ := Option.bind_eq_some_iff.mp computed
    rw [if_neg bounded, Expr.eval_sum valuation computed, Expr.eval_product valuation multiplied,
      Expr.eval_productOf valuation counted, elements]

private theorem extent_nonneg {attr : Attribute} (size : 0 ≤ attr.elementSize.eval valuation)
    (dimensions : ∀ count ∈ attr.shape.filterMap Dimension.count?, 0 ≤ count.eval valuation) :
    0 ≤ extent valuation attr := by
  unfold extent
  split
  · exact Int.le_refl 0
  · refine Int.mul_nonneg size (List.prod_nonneg fun value member => ?_)
    obtain ⟨count, listed, rfl⟩ := List.mem_map.mp member
    exact dimensions count listed

theorem effectiveAlign_pos (pack : Option UInt32) (alignment : Nat) :
    0 < effectiveAlign pack alignment := by
  cases pack with
  | none => exact Nat.one_pos
  | some limit => exact Nat.lt_of_lt_of_le Nat.one_pos (Nat.le_max_right ..)

variable (valuation) in
theorem Places.stop_le (places : Places model pack cursor id next)
    (plain : (model.attr id).declaredOffset = none) :
    cursor.stop.eval valuation ≤ (model.attr id).offset.eval valuation := by
  have placed := places.offset
  unfold offsetAfter at placed
  rw [plain] at placed
  dsimp only at placed
  split at placed
  · rename_i value limit stop
    obtain ⟨result, aligned, offset⟩ := Option.map_eq_some_iff.mp placed
    rw [stop, ← offset]
    exact alignUp_ge (effectiveAlign_pos _ _) aligned
  · exact Int.le_of_eq (congrArg (Expr.eval valuation) (Option.some.inj placed))

theorem Places.exact (places : Places model pack cursor id next)
    (plain : (model.attr id).declaredOffset = none)
    (free : pack = none ∨ cursor.stop.isConstant = false) :
    (model.attr id).offset = cursor.stop := by
  have placed := places.offset
  unfold offsetAfter at placed
  rw [plain] at placed
  dsimp only at placed
  split at placed
  · rename_i value limit stop
    rw [stop] at free
    rcases free with none | symbolic
    · cases none
    · cases symbolic
  · exact (Option.some.inj placed).symm

theorem Places.packed (places : Places model pack cursor id next)
    (plain : (model.attr id).declaredOffset = none) {limit : UInt32} {value : Int}
    (limited : pack = some limit) (stop : cursor.stop = .const value) (natural : 0 ≤ value) :
    IsLeast {place | packedAlign model limit (model.attr id) ∣ place ∧ value ≤ place}
      ((model.attr id).offset.eval valuation) := by
  have placed := places.offset
  simp only [offsetAfter, plain, stop, limited] at placed
  obtain ⟨result, aligned, offset⟩ := Option.map_eq_some_iff.mp placed
  rw [← offset]
  have least := alignUp_least (effectiveAlign_pos _ _) natural aligned
  have same : packedAlign model limit (model.attr id) =
      (effectiveAlign (some limit) (elementLayout model (model.attr id)).2 : Nat) := by
    simp only [packedAlign, effectiveAlign]
    omega
  rw [same]
  exact least

end Values

/-!
## All attributes of a type
-/

section Types

variable {model : Model} {valuation : Valuation} {record : Record} {pack : Option UInt32}

/-- A cursor reached by placing attributes stands at their running end. -/
theorem PlacesAll.runningEnd {before : List AttributeId} {reached : Cursor}
    (places : PlacesAll model pack (initialCursor model record) before reached) :
    runningEnd model record before = some reached.stop := by
  rcases List.eq_nil_or_concat before with rfl | ⟨front, last, rfl⟩
  · cases places
    rfl
  · rw [List.concat_eq_append] at places ⊢
    obtain ⟨_, next, _, one, tail⟩ := places.split
    cases tail
    rw [Layout.runningEnd, List.getLast?_concat]
    exact one.stop

variable (valuation) in
theorem eval_runningEnd {before : List AttributeId} {stop : Expr}
    (found : runningEnd model record before = some stop) :
    stop.eval valuation = endOf model valuation record before := by
  unfold runningEnd at found
  unfold endOf
  cases last : before.getLast? with
  | some id =>
    rw [last] at found
    exact eval_stopAfter valuation found
  | none =>
    rw [last] at found
    cases found
    unfold initialCursor
    cases record.base <;> rfl

/-- What lies between two cursors lies behind the first and ends where the second stands. -/
theorem PlacesAll.apart {cursor final : Cursor} {ids : List AttributeId}
    (places : PlacesAll model pack cursor ids final)
    (plain : ∀ id ∈ ids, (model.attr id).declaredOffset = none)
    (sizes : ∀ id ∈ ids, 0 ≤ extent valuation (model.attr id)) :
    (∀ id ∈ ids, cursor.stop.eval valuation ≤ (model.attr id).offset.eval valuation) ∧
      ids.Pairwise fun left right =>
        (model.attr left).offset.eval valuation + extent valuation (model.attr left) ≤
          (model.attr right).offset.eval valuation := by
  induction places with
  | nil => simp
  | @cons cursor next final id rest first _ ih =>
    obtain ⟨behind, pairwise⟩ := ih (fun other member => plain other (List.mem_cons_of_mem _ member))
      fun other member => sizes other (List.mem_cons_of_mem _ member)
    have start := first.stop_le valuation (plain id List.mem_cons_self)
    have stop := eval_stopAfter valuation first.stop
    have size := sizes id List.mem_cons_self
    refine ⟨List.forall_mem_cons.mpr ⟨start, fun other member => ?_⟩,
      List.pairwise_cons.mpr ⟨fun other member => ?_, pairwise⟩⟩
    · have later := behind other member
      omega
    · have later := behind other member
      omega

private theorem LaidOut.consecutive {id : RecordId} (laidOut : LaidOut model id)
    (plain : ∀ attr ∈ (model.record id).attributes, (model.attr attr).declaredOffset = none)
    (sizes : ∀ attr ∈ (model.record id).attributes,
      0 ≤ (model.attr attr).elementSize.eval valuation)
    (dimensions : ∀ attr ∈ (model.record id).attributes,
      ∀ count ∈ (model.attr attr).shape.filterMap Dimension.count?, 0 ≤ count.eval valuation) :
    Consecutive model valuation (model.record id) := by
  obtain ⟨final, places, size, _⟩ := laidOut
  constructor
  case starts =>
    intro before attr rest split
    have member : attr ∈ (model.record id).attributes := by simp [split]
    rw [split] at places
    obtain ⟨reached, next, head, one, _⟩ := places.split
    have stop := head.runningEnd
    have value := eval_runningEnd valuation stop
    constructor
    case notBefore => exact value ▸ one.stop_le valuation (plain attr member)
    case exact =>
      intro free
      rw [one.exact (plain attr member), value]
      rcases free with unpacked | ⟨other, found, symbolic⟩
      · exact .inl unpacked
      · rw [stop] at found
        cases found
        exact .inr symbolic
    case packed =>
      intro limit number limited found natural
      rw [stop] at found
      exact one.packed (plain attr member) limited (Option.some.inj found) natural
  case apart =>
    exact (places.apart plain fun attr member =>
      extent_nonneg (sizes attr member) (dimensions attr member)).2
  case size => rw [size, eval_runningEnd valuation places.runningEnd]

end Types

/-- The attributes of a built record type, none of which says where it lies, are laid out one behind
the other from the end of its base to its own end. -/
theorem build_consecutive {units : List SourceUnit} {built : Built} (accepted : build units = .ok built)
    {id : RecordId} (inside : id.index < built.model.records.size) (valuation : Valuation)
    (plain : ∀ attr ∈ (built.model.record id).attributes,
      (built.model.attr attr).declaredOffset = none)
    (sizes : ∀ attr ∈ (built.model.record id).attributes,
      0 ≤ (built.model.attr attr).elementSize.eval valuation)
    (dimensions : ∀ attr ∈ (built.model.record id).attributes,
      ∀ count ∈ (built.model.attr attr).shape.filterMap Dimension.count?,
        0 ≤ count.eval valuation) :
    Consecutive built.model valuation (built.model.record id) := by
  obtain ⟨stages⟩ := build_stages accepted
  exact (stages.laidOut inside).consecutive plain sizes dimensions

theorem build_consecutive_sample : ∃ built, build sampleUnits = .ok built ∧
    Consecutive built.model ⟨fun _ => 5, fun _ => 0⟩ (built.model.record ⟨1⟩) := by
  have computed : ∃ built, build sampleUnits = .ok built ∧ 1 < built.model.records.size ∧
      ∀ attr ∈ (built.model.record ⟨1⟩).attributes,
        (built.model.attr attr).declaredOffset = none ∧
        0 ≤ (built.model.attr attr).elementSize.eval ⟨fun _ => 5, fun _ => 0⟩ ∧
        ∀ count ∈ (built.model.attr attr).shape.filterMap Dimension.count?,
          0 ≤ count.eval ⟨fun _ => 5, fun _ => 0⟩ :=
    exists_built (by decide +kernel)
  obtain ⟨built, accepted, inside, attributes⟩ := computed
  exact ⟨built, accepted, build_consecutive accepted inside _ (fun attr member => (attributes attr member).1)
    (fun attr member => (attributes attr member).2.1) fun attr member => (attributes attr member).2.2⟩

end Layout

end RecordSchema
