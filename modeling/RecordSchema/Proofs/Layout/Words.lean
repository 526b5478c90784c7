import RecordSchema.Proofs.Layout.Consecutive
import RecordSchema.Proofs.Expr.Words

/-!
# Numbers in layouts

The numbers that declarations of attributes give are words, and dimensions are positive. Layout starts
from them and checks every sum and product, so all numbers that it leaves in a model are words too.
-/

set_option autoImplicit false

namespace RecordSchema

open Model Outcome

/-- The numbers in the declaration of an attribute are words, and dimensions are positive. -/
structure Attribute.Numbered (attr : Attribute) : Prop where
  offset : ∀ expr ∈ attr.declaredOffset, expr.IsWord
  counts : ∀ count ∈ attr.shape.filterMap Dimension.count?, count.IsWord
  positive : ∀ value, .const value ∈ attr.shape.filterMap Dimension.count? → 0 < value

private theorem Attribute.numbered_default : (default : Attribute).Numbered where
  offset _ none := nomatch none
  counts _ none := nomatch none
  positive _ none := nomatch none

def Model.Numbered (model : Model) : Prop :=
  ∀ id, (model.attr id).Numbered

/-- The sizes of record types that are numbers are words. -/
def Model.Sized (model : Model) : Prop :=
  ∀ id, (model.record id).size.IsWord

namespace Resolution

/-!
## Declarations
-/

private theorem resolveDimension_numbered {context : Expr.Context} {position : Nat} {raw : String}
    {dimension : Dimension} (accepted : resolveDimension context position raw = .ok dimension) :
    ∀ count ∈ dimension.count?, count.IsWord ∧ ∀ value, count = .const value → 0 < value := by
  simp only [resolveDimension] at accepted
  split at accepted
  · split at accepted
    · cases accepted
      intro _ none
      cases none
    · cases accepted
  · split at accepted
    · cases accepted
    · obtain ⟨count, parsed, accepted⟩ := bind_ok accepted
      split at accepted
      · split at accepted
        · cases accepted
        · rename_i positive
          cases accepted
          rintro _ ⟨⟩
          refine ⟨Expr.isWord_parse parsed, fun value same => ?_⟩
          cases same
          omega
      · rename_i symbolic
        cases accepted
        rintro _ ⟨⟩
        exact ⟨Expr.isWord_parse parsed, fun value same => absurd same (symbolic value)⟩

private theorem resolveShape_numbered {context : Expr.Context} {position : Nat} {raws : List String}
    {shape : List Dimension} (accepted : resolveShape context position raws = .ok shape) :
    ∀ dimension ∈ shape, ∀ count ∈ dimension.count?,
      count.IsWord ∧ ∀ value, count = .const value → 0 < value := by
  induction raws generalizing position shape with
  | nil =>
    cases accepted
    exact fun _ none => nomatch none
  | cons raw rest ih =>
    rw [resolveShape] at accepted
    obtain ⟨dimension, first, accepted⟩ := bind_ok accepted
    obtain ⟨dimensions, later, accepted⟩ := bind_ok accepted
    cases accepted
    exact List.forall_mem_cons.mpr ⟨resolveDimension_numbered first, ih later⟩

private theorem readAttribute_numbered {model : Model} {owner : RecordId} {path : String}
    {declaration : Declaration.Attribute} {attr : Attribute}
    (accepted : readAttribute model owner path declaration = .ok attr) : attr.Numbered := by
  simp only [readAttribute] at accepted
  split at accepted
  · obtain ⟨type, -, accepted⟩ := bind_ok accepted
    obtain ⟨shape, shaped, accepted⟩ := bind_ok accepted
    obtain ⟨declaredOffset, offset, accepted⟩ := bind_ok accepted
    obtain ⟨access, -, accepted⟩ := bind_ok accepted
    cases accepted
    have each : ∀ count ∈ shape.filterMap Dimension.count?,
        count.IsWord ∧ ∀ value, count = .const value → 0 < value := by
      intro count counted
      obtain ⟨dimension, listed, same⟩ := List.mem_filterMap.mp counted
      exact resolveShape_numbered shaped dimension listed count same
    constructor
    case offset =>
      intro expr given
      obtain ⟨raw, -, parsed⟩ := option_mapM_ok offset expr given
      exact Expr.isWord_parse parsed
    case counts => exact fun count counted => (each count counted).1
    case positive => exact fun value counted => (each _ counted).2 value rfl
  · cases accepted

private theorem addAttribute_numbered {model after : Model} {owner : RecordId} {typePath : String}
    {declaration : Declaration.Attribute} (numbered : model.Numbered)
    (accepted : addAttribute owner typePath model declaration = .ok after) : after.Numbered := by
  obtain ⟨attr, extended, -, read, inserted, bitfields⟩ := addAttribute_ok accepted
  obtain ⟨accessor, -, -, -, -, rfl⟩ := insertAttribute_ok inserted
  refine addBitfields_preserves bitfields Model.Numbered (fun id => ?_) ?_
  · rw [attr_withReadAttribute]
    split
    · obtain ⟨offset, counts, positive⟩ := readAttribute_numbered read
      exact ⟨offset, counts, positive⟩
    · exact numbered id
  · intro state next access path name bitfield numbered _ _ _ one id
    obtain ⟨reader, -, -, -, -, rfl⟩ := insertBitfield_ok one
    rw [attr_withReadBitfield]
    split
    · obtain ⟨offset, counts, positive⟩ := numbered id
      exact ⟨offset, counts, positive⟩
    · exact numbered id

theorem Passes.numbered {draft : Draft} {built : Built} (passes : Passes draft built)
    (consistent : draft.Consistent) : built.model.Numbered := by
  have start : passes.withEnumerations.Numbered := by
    intro id
    rw [passes.withEnumerations.attr_eq_default]
    · exact Attribute.numbered_default
    · rw [passes.values_only.1, (passes.isHeaded consistent).noAttributes]
      exact Nat.not_lt_zero _
  have attributes : passes.withAttributes.Numbered :=
    passes.attributes_preserve consistent start fun _ _ numbered added =>
      addAttribute_numbered numbered added
  have methods : passes.withMethods.Numbered :=
    passes.methods_preserve consistent attributes fun _ _ numbered added => by
      obtain ⟨_, _, _, _, _, _, _, rfl⟩ := addDeclaredMethod_ok added
      exact numbered
  refine foldlM_preserves passes.constructors (fun state => state.1.Numbered) methods ?_
  rintro pending _ ⟨state, before⟩ ⟨after, remarks⟩ numbered taken
  obtain ⟨_, _, taken⟩ := bind_ok taken
  cases taken
  exact numbered

/-- No type has a size before layout. -/
theorem Passes.sizes {draft : Draft} {built : Built} (passes : Passes draft built)
    (consistent : draft.Consistent) (id : RecordId) :
    (built.model.record id).size = .const 0 := by
  have headed : (passes.headed.record id).size = .const 0 := by
    refine foldlM_preserves passes.headers (fun state => ∀ id, (state.record id).size = .const 0)
      (fun id => consistent.fresh id ▸ rfl) (fun pending _ state after bare taken id => ?_) id
    simp only [resolveHeader] at taken
    obtain ⟨base, -, taken⟩ := bind_ok taken
    obtain ⟨configs, -, taken⟩ := bind_ok taken
    obtain ⟨identity, -, taken⟩ := bind_ok taken
    obtain rfl := Except.ok.inj taken
    rw [record_modifyRecord]
    split
    · obtain ⟨_, _, _, _, _, _, _, same⟩ :=
        foldl_applyRecordTag (Tag.parseAll pending.declaration.tags)
          { state.record id with base, configs, identity }
      rw [same]
      exact bare id
    · exact bare id
  exact ((passes.step consistent).field Record.size (fun _ => rfl) id).trans headed

theorem resolveDeclarations_words {draft : Draft} {built : Built} (consistent : draft.Consistent)
    (accepted : resolveDeclarations draft = .ok built) : built.model.Numbered ∧ built.model.Sized := by
  obtain ⟨passes⟩ := resolveDeclarations_passes accepted
  refine ⟨passes.numbered consistent, fun id => ?_⟩
  rw [passes.sizes consistent id]
  exact Expr.isWord_const.mpr Word.fits_zero

end Resolution

namespace Layout

/-!
## Placement
-/

/-- Division and multiplication by one number lead no further from zero. -/
theorem tdiv_mul_between (value : Int) (divisor : Nat) :
    0 ≤ value ∧ 0 ≤ value.tdiv divisor * divisor ∧ value.tdiv divisor * divisor ≤ value ∨
      value ≤ 0 ∧ value ≤ value.tdiv divisor * divisor ∧ value.tdiv divisor * divisor ≤ 0 := by
  have natural : ∀ value : Int, 0 ≤ value →
      0 ≤ value.tdiv divisor * divisor ∧ value.tdiv divisor * divisor ≤ value := by
    intro value natural
    have whole := Int.tdiv_mul_add_tmod value divisor
    have rest := Int.tmod_nonneg divisor natural
    have quotient := Int.tdiv_nonneg natural (Int.natCast_nonneg divisor)
    have multiple := Int.mul_nonneg quotient (Int.natCast_nonneg divisor)
    omega
  rcases Int.le_total 0 value with positive | negative
  · exact .inl ⟨positive, natural value positive⟩
  · have mirrored := natural (-value) (by omega)
    rw [Int.neg_tdiv, Int.neg_mul] at mirrored
    exact .inr (by omega)

private theorem alignUp_fits {offset result : Int} {alignment : Nat} (positive : 0 < alignment)
    (fits : Word.Fits offset) (aligned : alignUp offset alignment = some result) :
    Word.Fits result := by
  obtain ⟨reached, added, computed⟩ := Option.bind_eq_some_iff.mp aligned
  obtain ⟨reachedFits, rfl⟩ := Word.add_eq_some_iff.mp added
  cases computed
  have between := tdiv_mul_between (offset + alignment - 1) alignment
  unfold Word.Fits at *
  omega

private theorem isWord_elementLayout {model : Model} (sized : model.Sized) (attr : Attribute) :
    (elementLayout model attr).1.IsWord := by
  have builtin : ∀ type : Builtin, (Expr.const type.size).IsWord := fun type =>
    Expr.isWord_const.mpr (by cases type <;> decide)
  unfold elementLayout
  split
  · exact builtin _
  · exact builtin _
  · dsimp only
    split
    · exact sized _
    · exact fun _ impossible => nomatch impossible

theorem isWord_initialCursor {model : Model} (sized : model.Sized) (record : Record) :
    (initialCursor model record).stop.IsWord := by
  unfold initialCursor
  split
  · exact sized _
  · exact Expr.isWord_const.mpr Word.fits_zero

theorem isWord_offsetAfter {pack : Option UInt32} {alignment : Nat} {attr : Attribute}
    {stop offset : Expr} (positive : 0 < alignment) (numbered : attr.Numbered) (word : stop.IsWord)
    (placed : offsetAfter pack alignment attr stop = some offset) : offset.IsWord := by
  unfold offsetAfter at placed
  split at placed
  · rename_i declared
    cases placed
    exact numbered.offset _ declared
  · split at placed
    · obtain ⟨value, aligned, rfl⟩ := Option.map_eq_some_iff.mp placed
      exact Expr.isWord_const.mpr (alignUp_fits positive (Expr.isWord_const.mp word) aligned)
    · cases placed
      exact word

private theorem isWord_stopAfter {attr : Attribute} {stop : Expr} (offset : attr.offset.IsWord)
    (size : attr.elementSize.IsWord)
    (counts : ∀ count ∈ attr.shape.filterMap Dimension.count?, count.IsWord)
    (ended : stopAfter attr = some stop) : stop.IsWord := by
  unfold stopAfter at ended
  split at ended
  · cases ended
    exact offset
  · obtain ⟨count, counted, ended⟩ := Option.bind_eq_some_iff.mp ended
    obtain ⟨extent, extended, ended⟩ := Option.bind_eq_some_iff.mp ended
    exact Expr.isWord_sum ended offset
      (Expr.isWord_product extended size (Expr.isWord_productOf counted counts))

/-- Placing an attribute keeps declarations and sizes of types, and ends at a word if at a number. -/
theorem placeAttribute_words {model after : Model} {pack : Option UInt32} {path : String}
    {cursor next : Cursor} {id : AttributeId} (numbered : model.Numbered) (sized : model.Sized)
    (word : cursor.stop.IsWord)
    (accepted : placeAttribute pack path (model, cursor) id = .ok (after, next)) :
    after.Numbered ∧ after.Sized ∧ next.stop.IsWord := by
  obtain ⟨offset, elementSize, rfl, -, placed, ended, -, -, rfl⟩ := placeAttribute_ok accepted
  refine ⟨fun other => ?_, sized, ?_⟩
  · rw [attr_modifyAttribute]
    split
    · obtain ⟨offset, counts, positive⟩ := numbered other
      exact ⟨offset, counts, positive⟩
    · exact numbered other
  · have start := isWord_offsetAfter (effectiveAlign_pos _ _) (numbered id) word placed
    refine isWord_stopAfter ?_ ?_ ?_ ended
    · exact start
    · exact isWord_elementLayout sized (model.attr id)
    · exact (numbered id).counts

theorem placeAttributes_words {model after : Model} {pack : Option UInt32} {path : String}
    {cursor final : Cursor} {ids : List AttributeId} (numbered : model.Numbered)
    (sized : model.Sized) (word : cursor.stop.IsWord)
    (accepted : ids.foldlM (placeAttribute pack path) (model, cursor) = .ok (after, final)) :
    after.Numbered ∧ after.Sized ∧ final.stop.IsWord := by
  refine foldlM_preserves accepted
    (fun state => state.1.Numbered ∧ state.1.Sized ∧ state.2.stop.IsWord) ⟨numbered, sized, word⟩ ?_
  rintro id - ⟨state, reached⟩ ⟨later, next⟩ ⟨numbered, sized, word⟩ taken
  exact placeAttribute_words numbered sized word taken

theorem placeRecords_words {model after : Model} {ids : List RecordId} (numbered : model.Numbered)
    (sized : model.Sized) (accepted : ids.foldlM placeRecord model = .ok after) :
    after.Numbered ∧ after.Sized := by
  refine foldlM_preserves accepted (fun state => state.Numbered ∧ state.Sized) ⟨numbered, sized⟩ ?_
  rintro id - state later ⟨numbered, sized⟩ taken
  simp only [placeRecord] at taken
  obtain ⟨⟨placed, cursor⟩, attributes, taken⟩ := bind_ok taken
  cases taken
  obtain ⟨placedNumbered, placedSized, word⟩ :=
    placeAttributes_words numbered sized (isWord_initialCursor sized _) attributes
  refine ⟨placedNumbered, fun other => ?_⟩
  rw [record_modifyRecord]
  split
  · exact word
  · exact placedSized other

/-- Attributes that lie one after the other start and end at words if at numbers. -/
theorem PlacesAll.words {model : Model} (numbered : model.Numbered) (sized : model.Sized)
    {pack : Option UInt32} {cursor final : Cursor} {ids : List AttributeId}
    (places : PlacesAll model pack cursor ids final) (word : cursor.stop.IsWord) :
    ∀ id ∈ ids, (model.attr id).offset.IsWord ∧ (model.attr id).elementSize.IsWord := by
  induction places with
  | nil => exact fun _ none => nomatch none
  | @cons cursor next final id rest first _ ih =>
    have offset := isWord_offsetAfter (effectiveAlign_pos _ _) (numbered id) word first.offset
    have size : (model.attr id).elementSize.IsWord :=
      first.elementSize ▸ isWord_elementLayout sized (model.attr id)
    exact List.forall_mem_cons.mpr ⟨⟨offset, size⟩,
      ih (isWord_stopAfter offset size (numbered id).counts first.stop)⟩

end Layout

theorem Stages.words {units : List SourceUnit} {built : Built} (stages : Stages units built) :
    built.model.Numbered ∧ built.model.Sized := by
  obtain ⟨numbered, sized⟩ := Resolution.resolveDeclarations_words
    (Draft.ofUnits_consistent stages.named) stages.resolution
  obtain ⟨numbered, sized⟩ := Layout.placeRecords_words numbered sized stages.placement
  have agree := stages.agree_later
  refine ⟨fun id => ?_, fun id => agree.recordField Record.size (fun _ => rfl) id ▸ sized id⟩
  obtain ⟨offset, counts, positive⟩ := numbered id
  have shape := agree.attrField Attribute.shape (fun _ => rfl) id
  have declared := agree.attrField Attribute.declaredOffset (fun _ => rfl) id
  exact ⟨declared ▸ offset, shape ▸ counts, shape ▸ positive⟩

end RecordSchema
