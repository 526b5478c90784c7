import RecordSchema.Proofs.Layout.OpenEnds
import RecordSchema.Proofs.Layout.Storage
import RecordSchema.Proofs.Layout.Words
import RecordSchema.Proofs.Resolution.Refusals

/-!
# Layouts that leave the range of words

Nothing bounds the numbers of a declaration but the range of a word. Where an attribute is placed, four
numbers are computed from them, and a build comes to no result exactly where it gets to one that is no
word. What is computed later from the same numbers, to find the stored attributes, has been in range
before.
-/

set_option autoImplicit false

namespace RecordSchema.Layout

open Model Outcome

/-- A number that is no word comes up where an attribute is placed: the end of what lies before moved by
the alignment, the number of elements along leading dimensions, the number of bytes, or the end. -/
inductive Exceeds (pack : Option UInt32) (alignment : Nat) (attr : Attribute) (size stop : Expr) :
    Prop where
  | aligned {limit : UInt32} {value : Int} :
      attr.declaredOffset = none → pack = some limit → stop = .const value →
        ¬ Word.Fits (value + alignment) → Exceeds pack alignment attr size stop
  | counted {counts : List Int} {rest : List Expr} :
      isUnbounded attr.shape = false →
        attr.shape.filterMap Dimension.count? = counts.map .const ++ rest →
          ¬ Word.Fits counts.prod → Exceeds pack alignment attr size stop
  | extended {bytes : Int} {counts : List Int} :
      isUnbounded attr.shape = false → attr.shape.filterMap Dimension.count? = counts.map .const →
        size = .const bytes → ¬ Word.Fits (bytes * counts.prod) →
          Exceeds pack alignment attr size stop
  | ended {start bytes : Int} {counts : List Int} :
      isUnbounded attr.shape = false → attr.shape.filterMap Dimension.count? = counts.map .const →
        size = .const bytes → offsetAfter pack alignment attr stop = some (.const start) →
          ¬ Word.Fits (start + bytes * counts.prod) → Exceeds pack alignment attr size stop

/-- Placement comes to an attribute of a type: the types before and the attributes before are placed. -/
def PlacementReaches (resolved : Model) (ordered : List RecordId) (id : RecordId)
    (attr : AttributeId) (model : Model) (cursor : Cursor) : Prop :=
  ∃ front rest state before behind, ordered = front ++ id :: rest ∧
    front.foldlM placeRecord resolved = .ok state ∧
    (state.record id).attributes = before ++ attr :: behind ∧
    before.foldlM (placeAttribute (state.record id).pack (state.recordPath id))
      (state, initialCursor state (state.record id)) = .ok (model, cursor)

/-- Placement comes to an attribute at which a number is no word. -/
def PlacementExceeds (resolved : Model) (ordered : List RecordId) : Prop :=
  ∃ id attr model cursor, PlacementReaches resolved ordered id attr model cursor ∧
    cursor.openEnded = none ∧
    Exceeds (model.record id).pack
      (effectiveAlign (model.record id).pack (elementLayout model (model.attr attr)).2)
      (model.attr attr) (elementLayout model (model.attr attr)).1 cursor.stop

/-!
## One attribute
-/

section Attribute

variable {pack : Option UInt32} {alignment : Nat} {attr : Attribute} {size stop : Expr}

private theorem alignUp_eq_none_iff {offset : Int} :
    alignUp offset alignment = none ↔ ¬ Word.Fits (offset + alignment) := by
  rw [← Word.add_eq_none_iff, alignUp]
  cases Word.add offset alignment with
  | none => simp
  | some reached => simp

private theorem offsetAfter_eq_none_iff : offsetAfter pack alignment attr stop = none ↔
    ∃ limit value, attr.declaredOffset = none ∧ pack = some limit ∧ stop = .const value ∧
      ¬ Word.Fits (value + alignment) := by
  unfold offsetAfter
  split
  · rename_i declared
    simp [declared]
  · rename_i plain
    split
    · simp [plain, alignUp_eq_none_iff]
    · rename_i free
      refine ⟨(fun impossible => nomatch impossible), ?_⟩
      rintro ⟨limit, value, -, packed, same, -⟩
      exact (free value limit same packed).elim

/-- Nothing comes of the end of an attribute that starts at a word where the number of elements, the
number of bytes or the end is no word. -/
theorem stopAfter_eq_none_iff (word : attr.offset.IsWord) : stopAfter attr = none ↔
    isUnbounded attr.shape = false ∧
      ((∃ (counts : List Int) (rest : List Expr),
          attr.shape.filterMap Dimension.count? = counts.map .const ++ rest ∧
            ¬ Word.Fits counts.prod) ∨
        ∃ (bytes : Int) (counts : List Int),
          attr.shape.filterMap Dimension.count? = counts.map .const ∧
            attr.elementSize = .const bytes ∧
              (¬ Word.Fits (bytes * counts.prod) ∨
                ∃ start, attr.offset = .const start ∧
                  ¬ Word.Fits (start + bytes * counts.prod))) := by
  cases bounded : isUnbounded attr.shape with
  | true => simp [stopAfter, bounded]
  | false =>
    rw [stopAfter, bounded]
    simp only [Bool.false_eq_true, if_false, true_and, Option.bind_eq_bind]
    constructor
    · intro failed
      rcases bind_none failed with counted | ⟨count, counted, failed⟩
      · exact .inl (Expr.productOf_eq_none_iff.mp counted)
      rcases bind_none failed with extended | ⟨extent, extended, ended⟩
      · obtain ⟨bytes, number, size, rfl, exceeds⟩ := Expr.product_eq_none_iff.mp extended
        have nonzero : number ≠ 0 := by
          rintro rfl
          exact exceeds (by rw [Int.mul_zero]; exact Word.fits_zero)
        obtain ⟨counts, same, rfl⟩ := Expr.consts_of_productOf counted nonzero
        exact .inr ⟨bytes, counts, same, size, .inl exceeds⟩
      · obtain ⟨start, number, offset, rfl, exceeds⟩ := Expr.sum_eq_none_iff.mp ended
        have nonzero : number ≠ 0 := by
          rintro rfl
          exact exceeds (by rw [Int.add_zero]; exact word start offset)
        obtain ⟨bytes, number, size, rfl, rfl⟩ := Expr.const_of_product extended nonzero
        obtain ⟨counts, same, rfl⟩ :=
          Expr.consts_of_productOf counted fun zero => nonzero (by rw [zero, Int.mul_zero])
        exact .inr ⟨bytes, counts, same, size, .inr ⟨start, offset, exceeds⟩⟩
    · rintro (counted | ⟨bytes, counts, same, size, exceeds⟩)
      · rw [Expr.productOf_eq_none_iff.mpr counted]
        rfl
      · rw [same]
        cases counted : Expr.productOf (counts.map .const) with
        | none => rfl
        | some count =>
          obtain ⟨rfl, -⟩ := Expr.productOf_consts counted
          rw [Option.bind_some]
          cases extended : Expr.product attr.elementSize (.const counts.prod) with
          | none => rfl
          | some extent =>
            rw [size, Expr.product] at extended
            obtain ⟨_, multiplied, rfl⟩ := Option.map_eq_some_iff.mp extended
            obtain ⟨fits, rfl⟩ := Word.mul_eq_some_iff.mp multiplied
            obtain ⟨start, offset, exceeds⟩ := exceeds.resolve_left fun exceeds => exceeds fits
            rw [Option.bind_some]
            exact Expr.sum_eq_none_iff.mpr ⟨start, _, offset, rfl, exceeds⟩

/-- An attribute cannot be placed after a word if and only if a number exceeds. -/
theorem exceeds_iff (positive : 0 < alignment) (numbered : attr.Numbered) (word : stop.IsWord) :
    Exceeds pack alignment attr size stop ↔
      offsetAfter pack alignment attr stop = none ∨
        ∃ offset, offsetAfter pack alignment attr stop = some offset ∧
          stopAfter { attr with offset, elementSize := size } = none := by
  have ends : ∀ offset, offsetAfter pack alignment attr stop = some offset → _ :=
    fun offset placed => @stopAfter_eq_none_iff { attr with offset, elementSize := size }
      (isWord_offsetAfter positive numbered word placed)
  constructor
  · intro exceeds
    cases start : offsetAfter pack alignment attr stop with
    | none => exact .inl rfl
    | some offset =>
      refine .inr ⟨offset, rfl, (ends offset start).mpr ?_⟩
      cases exceeds with
      | aligned plain packed same exceeds =>
        rw [offsetAfter_eq_none_iff.mpr ⟨_, _, plain, packed, same, exceeds⟩] at start
        cases start
      | counted bounded split exceeds => exact ⟨bounded, .inl ⟨_, _, split, exceeds⟩⟩
      | extended bounded all bytes exceeds =>
        exact ⟨bounded, .inr ⟨_, _, all, bytes, .inl exceeds⟩⟩
      | ended bounded all bytes placed exceeds =>
        cases start.symm.trans placed
        exact ⟨bounded, .inr ⟨_, _, all, bytes, .inr ⟨_, rfl, exceeds⟩⟩⟩
  · rintro (failed | ⟨offset, start, failed⟩)
    · obtain ⟨limit, value, plain, packed, same, exceeds⟩ := offsetAfter_eq_none_iff.mp failed
      exact .aligned plain packed same exceeds
    · obtain ⟨bounded, ⟨counts, rest, split, exceeds⟩ | ⟨bytes, counts, all, size, exceeds⟩⟩ :=
        (ends offset start).mp failed
      · exact .counted bounded split exceeds
      rcases exceeds with exceeds | ⟨first, rfl, exceeds⟩
      · exact .extended bounded all size exceeds
      · exact .ended bounded all size start exceeds

end Attribute

private theorem placeAttribute_overflow {model : Model} {pack : Option UInt32} {path : String}
    {cursor : Cursor} {id : AttributeId} (numbered : model.Numbered) (word : cursor.stop.IsWord) :
    placeAttribute pack path (model, cursor) id = .error .overflow ↔
      cursor.openEnded = none ∧
        Exceeds pack (effectiveAlign pack (elementLayout model (model.attr id)).2) (model.attr id)
          (elementLayout model (model.attr id)).1 cursor.stop := by
  rw [exceeds_iff (effectiveAlign_pos _ _) (numbered id) word]
  simp only [placeAttribute, bind, Except.bind]
  cases last : cursor.openEnded with
  | some previous => simp [refuse]
  | none =>
    rw [and_iff_right rfl]
    refine orOverflow_bind.trans (or_congr_right (exists_congr fun offset =>
      and_congr_right fun _ => orOverflow_bind.trans ?_))
    simp

/-!
## All types
-/

/-- The words that placement starts from are there at every attribute that it comes to. -/
theorem PlacementReaches.words {resolved model : Model} {ordered : List RecordId} {id : RecordId}
    {attr : AttributeId} {cursor : Cursor} (numbered : resolved.Numbered) (sized : resolved.Sized)
    (reached : PlacementReaches resolved ordered id attr model cursor) :
    model.Numbered ∧ cursor.stop.IsWord := by
  obtain ⟨front, _, state, before, _, _, earlier, _, placed⟩ := reached
  obtain ⟨numbered, sized⟩ := placeRecords_words numbered sized earlier
  obtain ⟨numbered, -, word⟩ :=
    placeAttributes_words numbered sized (isWord_initialCursor sized _) placed
  exact ⟨numbered, word⟩

private theorem placeRecord_overflow {model : Model} {id : RecordId} :
    placeRecord model id = .error .overflow ↔
      (model.record id).attributes.foldlM (placeAttribute (model.record id).pack (model.recordPath id))
        (model, initialCursor model (model.record id)) = .error .overflow := by
  simp only [placeRecord]
  constructor
  · intro failed
    rcases bind_error failed with failed | ⟨_, -, failed⟩
    · exact failed
    · cases failed
  · intro failed
    rw [failed]
    rfl

/-- Placement comes to no result exactly where it comes to a number that is no word. -/
theorem placeRecords_overflow {resolved : Model} {ordered : List RecordId}
    (numbered : resolved.Numbered) (sized : resolved.Sized) :
    ordered.foldlM placeRecord resolved = .error .overflow ↔ PlacementExceeds resolved ordered := by
  simp only [foldlM_error_iff, placeRecord_overflow]
  constructor
  · rintro ⟨front, id, rest, state, split, earlier, before, attr, behind, ⟨model, cursor⟩, listed,
      placed, failed⟩
    have reached : PlacementReaches resolved ordered id attr model cursor :=
      ⟨front, rest, state, before, behind, split, earlier, listed, placed⟩
    obtain ⟨numbered, word⟩ := reached.words numbered sized
    have pack := (placeAttributes_agree placed).recordField Record.pack (fun _ => rfl) id
    rw [placeAttribute_overflow numbered word, ← pack] at failed
    exact ⟨id, attr, model, cursor, reached, failed⟩
  · rintro ⟨id, attr, model, cursor, reached, failed⟩
    obtain ⟨numbered, word⟩ := reached.words numbered sized
    obtain ⟨front, rest, state, before, behind, split, earlier, listed, placed⟩ := reached
    have pack := (placeAttributes_agree placed).recordField Record.pack (fun _ => rfl) id
    rw [pack, ← placeAttribute_overflow numbered word] at failed
    exact ⟨front, id, rest, state, split, earlier, before, attr, behind, (model, cursor), listed,
      placed, failed⟩

/-!
## Storage
-/

/-- Dimensions whose product layout has computed are multiplied again, as far as they are numbers. -/
theorem exists_fixedCount {shape : List Dimension} {start : Int} {count : Expr}
    (bounded : isUnbounded shape = false)
    (counted : (shape.filterMap Dimension.count?).foldlM Expr.product (.const start) = some count) :
    ∃ result, fixedCount start shape = some result ∧ ∀ value ∈ result, count = .const value := by
  induction shape generalizing start with
  | nil =>
    cases counted
    exact ⟨some start, rfl, fun value same => by cases same; rfl⟩
  | cons dimension rest ih =>
    cases dimension with
    | unbounded => cases bounded
    | bounded factor =>
      cases factor with
      | const value =>
        have split : (Dimension.bounded (.const value) :: rest).filterMap Dimension.count? =
            .const value :: rest.filterMap Dimension.count? := rfl
        rw [split, List.foldlM_cons] at counted
        obtain ⟨next, multiplied, counted⟩ := Option.bind_eq_some_iff.mp counted
        obtain ⟨reached, checked, rfl⟩ := Option.map_eq_some_iff.mp multiplied
        rw [fixedCount, checked]
        exact ih bounded counted
      | operand | concat | add | mul =>
        refine ⟨none, rfl, fun _ impossible => ?_⟩
        cases impossible

/-- The elements of an attribute that has an end can be counted again. -/
theorem exists_count {attr : Attribute} {stop : Expr}
    (tail : ∀ dimension ∈ attr.shape.tail, ∃ count, dimension = .bounded count)
    (ended : stopAfter attr = some stop) :
    ∃ result, fixedCount 1 attr.shape = some result ∧ ∀ value ∈ result,
      isUnbounded attr.shape = false ∧
        Expr.productOf (attr.shape.filterMap Dimension.count?) = some (.const value) := by
  cases unbounded : isUnbounded attr.shape with
  | true =>
    cases shape : attr.shape with
    | nil =>
      rw [shape] at unbounded
      cases unbounded
    | cons first rest =>
      cases first with
      | unbounded => exact ⟨none, rfl, fun _ found => by cases found⟩
      | bounded count =>
        rw [shape, isUnbounded, List.any_cons, Bool.or_eq_true, List.any_eq_true] at unbounded
        obtain impossible | ⟨dimension, listed, ends⟩ := unbounded
        · cases impossible
        · obtain ⟨_, rfl⟩ := tail dimension (by rwa [shape])
          cases ends
  | false =>
    rw [stopAfter, if_neg (Bool.eq_false_iff.mp unbounded)] at ended
    obtain ⟨count, counted, -⟩ := Option.bind_eq_some_iff.mp ended
    obtain ⟨result, fixed, same⟩ := exists_fixedCount unbounded counted
    refine ⟨result, fixed, fun value found => ⟨rfl, ?_⟩⟩
    rw [counted, same value found]

/-- Where an attribute starts and stops is in range once it has an end. -/
theorem exists_fixedRange {attr : Attribute} {stop : Expr}
    (tail : ∀ dimension ∈ attr.shape.tail, ∃ count, dimension = .bounded count)
    (ended : stopAfter attr = some stop) : ∃ range, fixedRange attr = some range := by
  unfold fixedRange
  split
  · rename_i offset size start bytes
    obtain ⟨result, fixed, counts⟩ := exists_count tail ended
    rw [fixed]
    cases result with
    | none => exact ⟨none, rfl⟩
    | some value =>
      obtain ⟨bounded, counted⟩ := counts value rfl
      rw [stopAfter, if_neg (Bool.eq_false_iff.mp bounded), counted, start, bytes,
        Option.bind_eq_bind, Option.bind_some] at ended
      obtain ⟨extent, extended, summed⟩ := Option.bind_eq_some_iff.mp ended
      obtain ⟨_, multiplied, rfl⟩ := Option.map_eq_some_iff.mp extended
      obtain ⟨_, added, rfl⟩ := Option.map_eq_some_iff.mp summed
      simp only [Option.bind_eq_bind, Option.bind_some, multiplied, added]
      exact ⟨_, rfl⟩
  · exact ⟨none, rfl⟩

/-- The attributes of all types have ranges. -/
def Ranged (model : Model) : Prop :=
  ∀ id, ∀ attr ∈ (model.record id).attributes, ∃ range, fixedRange (model.attr attr) = some range

theorem Ranged.of_agree {before after : Model} (ranged : Ranged before)
    (agree : Agree .storage before after) : Ranged after := by
  intro id attr listed
  rw [agree.recordField Record.attributes fun _ => rfl] at listed
  have same : fixedRange (after.attr attr) = fixedRange (before.attr attr) :=
    agree.attrField fixedRange (fun _ => rfl) attr
  rw [same]
  exact ranged id attr listed

private theorem exists_storeAttributes {model : Model} {ids : List AttributeId} {storing : Bool}
    {stop : Option Int}
    (ranged : ∀ id ∈ ids, ∃ range, fixedRange (model.attr id) = some range) :
    ∃ after, storeAttributes model storing stop ids = some after := by
  induction ids generalizing model storing stop with
  | nil => exact ⟨model, rfl⟩
  | cons id rest ih =>
    obtain ⟨⟨range, fixed⟩, others⟩ := List.forall_mem_cons.mp ranged
    rw [storeAttributes, fixed, Option.bind_eq_bind, Option.bind_some]
    split
    · exact ⟨model, rfl⟩
    · refine ih fun other listed => ?_
      have same : Agree .storage model
          (model.modifyAttribute id fun current => { current with stored := true }) :=
        .modifyAttribute model id fun _ => rfl
      have range := same.attrField fixedRange (fun _ => rfl) other
      rw [range]
      exact others other listed

theorem exists_withStorage {model : Model} (ranged : Ranged model) (ordered : List RecordId) :
    ∃ after, withStorage model ordered = some after := by
  unfold withStorage
  induction ordered generalizing model with
  | nil => exact ⟨model, rfl⟩
  | cons id rest ih =>
    obtain ⟨next, taken⟩ := @exists_storeAttributes model (model.record id).attributes
      (baseStored model (model.record id)) (storageStart model (model.record id)) (ranged id)
    obtain ⟨after, finished⟩ := ih (ranged.of_agree (storeAttributes_agree taken))
    exact ⟨after, by rw [List.foldlM_cons, storeRecord_eq, taken]; exact finished⟩

/-- Types that are laid out have ranges. -/
theorem ranged_of_laidOut {model : Model}
    (laidOut : ∀ id : RecordId, id.index < model.records.size → LaidOut model id)
    (tail : ∀ id, ∀ dimension ∈ (model.attr id).shape.tail, ∃ count, dimension = .bounded count) :
    Ranged model := by
  intro id attr listed
  obtain ⟨_, _, one⟩ :=
    (laidOut id (inside_of_mem Record.attributes rfl listed)).exists_places listed
  exact exists_fixedRange (tail attr) one.stop

end RecordSchema.Layout
