import RecordSchema.Proofs.Build

/-!
# Reasons for flags

The flags that are raised are the least ones that raise no others, so each has a reason in the model
itself. The size of a type depends on a config object only if an attribute of the type does, or if the
type has none and the size is that of its base.
-/

set_option autoImplicit false

namespace RecordSchema

open Model Outcome

namespace Layout

/-!
## Flags and their reasons
-/

/-- One model has no flag that another lacks, and they agree in what there was before the flags. -/
structure Below (state top : Model) : Prop where
  agree : Agree .later state top
  attr : ∀ id, (state.attr id).configDependent = true → (top.attr id).configDependent = true
  method : ∀ id, (state.method id).configDependent = true → (top.method id).configDependent = true
  record : ∀ id, (state.record id).configDependent = true → (top.record id).configDependent = true

/-- No flag is raised. -/
structure Unflagged (model : Model) : Prop where
  attr : ∀ id, (model.attr id).configDependent = false
  method : ∀ id, (model.method id).configDependent = false
  record : ∀ id, (model.record id).configDependent = false

/-- A flag is raised if and only if there is a reason. -/
structure Exact (model : Model) : Prop where
  attr : ∀ id, (model.attr id).configDependent = true ↔ attributeDepends model (model.attr id) = true
  method : ∀ id, (model.method id).configDependent = true ↔
    methodDepends model (model.method id) = true
  record : ∀ id, (model.record id).configDependent = true ↔
    exprDepends model id (model.record id).size = true

theorem Unflagged.below {state top : Model} (unflagged : Unflagged state)
    (agree : Agree .later state top) : Below state top where
  agree := agree
  attr id flag := by
    rw [unflagged.attr] at flag
    cases flag
  method id flag := by
    rw [unflagged.method] at flag
    cases flag
  record id flag := by
    rw [unflagged.record] at flag
    cases flag

namespace Below

variable {state top : Model} (below : Below state top)

include below

theorem memberDepends {owner : RecordId} {name : String}
    (depends : memberDepends state owner name = true) : memberDepends top owner name = true := by
  have links : Agree .derived state top :=
    below.agree.coarsen (fun _ => rfl) (fun _ => rfl) fun _ => rfl
  rw [Layout.memberDepends] at depends ⊢
  rw [links.findAttribute?, links.findMethod?]
  split at depends
  · exact below.attr _ depends
  · split at depends
    · exact below.method _ depends
    · cases depends

theorem exprDepends {owner : RecordId} {expr : Expr}
    (depends : exprDepends state owner expr = true) : exprDepends top owner expr = true := by
  rw [Layout.exprDepends, Bool.or_eq_true, List.any_eq_true] at depends ⊢
  rcases depends with config | ⟨name, listed, flagged⟩
  · exact .inl config
  · exact .inr ⟨name, listed, below.memberDepends flagged⟩

theorem attributeDepends {id : AttributeId}
    (depends : attributeDepends state (state.attr id) = true) :
    attributeDepends top (top.attr id) = true := by
  have owner := below.agree.attrField Attribute.owner (fun _ => rfl) id
  have shape := below.agree.attrField Attribute.shape (fun _ => rfl) id
  have type := below.agree.attrField Attribute.type (fun _ => rfl) id
  have offset := below.agree.attrField Attribute.offset (fun _ => rfl) id
  have elementSize := below.agree.attrField Attribute.elementSize (fun _ => rfl) id
  simp only [Layout.attributeDepends, embedsDependent, owner, shape, type, offset, elementSize,
    Bool.or_eq_true, List.any_eq_true] at depends ⊢
  rcases depends with ((⟨count, listed, reads⟩ | embeds) | placed) | sized
  · exact .inl (.inl (.inl ⟨count, listed, below.exprDepends reads⟩))
  · refine .inl (.inl (.inr ?_))
    split at embeds
    · exact below.record _ embeds
    · cases embeds
  · exact .inl (.inr (below.exprDepends placed))
  · exact .inr (below.exprDepends sized)

theorem methodDepends {id : MethodId} (depends : methodDepends state (state.method id) = true) :
    methodDepends top (top.method id) = true := by
  have owner := below.agree.methodField Method.owner (fun _ => rfl) id
  have body := below.agree.methodField Method.body (fun _ => rfl) id
  simp only [Layout.methodDepends, Model.bitfield, owner, body, below.agree.bitfields] at depends ⊢
  split at depends
  · exact below.attr _ depends
  · exact below.attr _ depends
  · obtain ⟨text, listed, reads⟩ := List.any_eq_true.mp depends
    exact List.any_eq_true.mpr ⟨text, listed, below.exprDepends reads⟩

theorem size {id : RecordId} (depends : Layout.exprDepends state id (state.record id).size = true) :
    Layout.exprDepends top id (top.record id).size = true := by
  rw [below.agree.recordField Record.size fun _ => rfl]
  exact below.exprDepends depends

/-- A model whose flags raise no further ones has all that are raised below it. -/
theorem raiseFlags (settled : Settled top) : Below (raiseFlags state) top where
  agree := (Agree.coarsen (agree_raiseFlags state).symm (fun _ => rfl) (fun _ => rfl)
    fun _ => rfl).trans below.agree
  attr id flag := by
    rw [attr_raiseFlags] at flag
    rcases Bool.or_eq_true_iff.mp flag with old | new
    · exact below.attr id old
    · exact settled.attr id (below.attributeDepends new)
  method id flag := by
    rw [method_raiseFlags] at flag
    rcases Bool.or_eq_true_iff.mp flag with old | new
    · exact below.method id old
    · exact settled.method id (below.methodDepends new)
  record id flag := by
    rw [record_raiseFlags] at flag
    rcases Bool.or_eq_true_iff.mp flag with old | new
    · exact below.record id old
    · exact settled.record id (below.size new)

end Below

/-- What holds before the flags and is kept by every round below a model whose flags raise no further
ones holds of the flags that are raised in the end. -/
theorem raiseAll_induction (property : Model → Prop) {model top : Model} (settled : Settled top)
    (below : Below model top) (start : property model)
    (raises : ∀ state, Below state top → property state → property (raiseFlags state)) (fuel : Nat) :
    property (raiseAll fuel model) := by
  induction fuel generalizing model with
  | zero => exact start
  | succ fuel ih =>
    rw [raiseAll]
    split
    · exact start
    · exact ih (below.raiseFlags settled) (raises model below start)

/-- Every flag of one model has a reason in another. -/
structure Reasoned (state top : Model) : Prop where
  attr : ∀ id, (state.attr id).configDependent = true → attributeDepends top (top.attr id) = true
  method : ∀ id, (state.method id).configDependent = true →
    methodDepends top (top.method id) = true
  record : ∀ id, (state.record id).configDependent = true →
    exprDepends top id (top.record id).size = true

private theorem Unflagged.reasoned {state : Model} (unflagged : Unflagged state) (top : Model) :
    Reasoned state top where
  attr id flag := by
    rw [unflagged.attr] at flag
    cases flag
  method id flag := by
    rw [unflagged.method] at flag
    cases flag
  record id flag := by
    rw [unflagged.record] at flag
    cases flag

theorem Reasoned.raiseFlags {state top : Model} (reasoned : Reasoned state top)
    (below : Below state top) : Reasoned (raiseFlags state) top where
  attr id flag := by
    rw [attr_raiseFlags] at flag
    exact (Bool.or_eq_true_iff.mp flag).elim (reasoned.attr id) below.attributeDepends
  method id flag := by
    rw [method_raiseFlags] at flag
    exact (Bool.or_eq_true_iff.mp flag).elim (reasoned.method id) below.methodDepends
  record id flag := by
    rw [record_raiseFlags] at flag
    exact (Bool.or_eq_true_iff.mp flag).elim (reasoned.record id) below.size

/-- If a model has just the flags that the rounds raise, each has a reason in the model itself. -/
theorem Exact.of_raised {model top : Model} (unflagged : Unflagged model)
    (settled : Settled top) (agree : Agree .later model top)
    (raised : Agree .storage (withDependence model) top) : Exact top := by
  have reasoned : Reasoned (withDependence model) top :=
    raiseAll_induction (Reasoned · top) settled (unflagged.below agree) (unflagged.reasoned top)
      (fun _ below reasoned => reasoned.raiseFlags below) _
  constructor
  · intro id
    refine ⟨fun flag => reasoned.attr id ?_, settled.attr id⟩
    rwa [← raised.attrField Attribute.configDependent fun _ => rfl]
  · intro id
    refine ⟨fun flag => reasoned.method id ?_, settled.method id⟩
    rwa [← raised.methodField Method.configDependent fun _ => rfl]
  · intro id
    refine ⟨fun flag => reasoned.record id ?_, settled.record id⟩
    rwa [← raised.recordField Record.configDependent fun _ => rfl]

/-!
## Sizes
-/

section Size

variable {model : Model}

private theorem exprDepends_of_operands {owner : RecordId} {expr : Expr} {parts : List Operand}
    (within : expr.operands ⊆ parts)
    (plain : ∀ part ∈ parts, operandDepends model owner part = false) :
    exprDepends model owner expr = false :=
  exprDepends_eq_false_iff.mpr fun part mentioned => plain part (within mentioned)

/-- Where an attribute ends depends on nothing that the attribute does not depend on. -/
theorem stop_depends {attr : Attribute} {stop : Expr}
    (plain : attributeDepends model attr = false) (stops : stopAfter attr = some stop) :
    exprDepends model attr.owner stop = false := by
  simp only [attributeDepends, Bool.or_eq_false_iff, List.any_eq_false, Bool.not_eq_true] at plain
  obtain ⟨⟨⟨counts, _⟩, offset⟩, element⟩ := plain
  rw [stopAfter] at stops
  split at stops
  · cases stops
    exact offset
  · obtain ⟨count, counted, stops⟩ := Option.bind_eq_some_iff.mp stops
    obtain ⟨extent, extended, stops⟩ := Option.bind_eq_some_iff.mp stops
    refine exprDepends_of_operands (Expr.operands_sum stops) fun part mentioned => ?_
    rcases List.mem_append.mp mentioned with early | late
    · exact exprDepends_eq_false_iff.mp offset part early
    · rcases List.mem_append.mp (Expr.operands_product extended late) with one | many
      · exact exprDepends_eq_false_iff.mp element part one
      · have factors := Expr.operands_foldlM_product counted many
        simp only [Expr.operands, List.nil_append, List.mem_flatMap] at factors
        obtain ⟨factor, listed, held⟩ := factors
        exact exprDepends_eq_false_iff.mp (counts factor listed) part held

private theorem placesAll_depends {pack : Option UInt32} {owner : RecordId} {cursor final : Cursor}
    {ids : List AttributeId} (places : PlacesAll model pack cursor ids final)
    (owned : ∀ id ∈ ids, (model.attr id).owner = owner)
    (plain : ∀ id ∈ ids, attributeDepends model (model.attr id) = false) :
    exprDepends model owner final.stop = true →
      ids = [] ∧ exprDepends model owner cursor.stop = true := by
  induction places with
  | nil => exact fun depends => ⟨rfl, depends⟩
  | @cons cursor next final id rest place _ ih =>
    obtain ⟨own, others⟩ := List.forall_mem_cons.mp owned
    obtain ⟨here, later⟩ := List.forall_mem_cons.mp plain
    intro depends
    obtain ⟨_, depends⟩ := ih others later depends
    have placed := stop_depends here place.stop
    rw [own, depends] at placed
    cases placed

/-- If no attribute of a type depends on a config object, its size does only if it is that of the
base. -/
theorem LaidOut.size_depends {id : RecordId} (laidOut : LaidOut model id)
    (owned : ∀ attr ∈ (model.record id).attributes, (model.attr attr).owner = id)
    (plain : ∀ attr ∈ (model.record id).attributes, attributeDepends model (model.attr attr) = false) :
    exprDepends model id (model.record id).size = true ↔
      (model.record id).attributes = [] ∧ ∃ base, (model.record id).base = some base ∧
        exprDepends model id (model.record base).size = true := by
  obtain ⟨final, places, size, _⟩ := laidOut
  rw [size]
  constructor
  · intro depends
    obtain ⟨empty, start⟩ := placesAll_depends places owned plain depends
    refine ⟨empty, ?_⟩
    rw [initialCursor] at start
    split at start
    · rename_i base found
      exact ⟨base, found, start⟩
    · cases start
  · rintro ⟨empty, base, found, depends⟩
    rw [empty] at places
    cases places
    rw [initialCursor, found]
    exact depends

end Size

end Layout

end RecordSchema
