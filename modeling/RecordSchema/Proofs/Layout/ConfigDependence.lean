import RecordSchema.Layout.ConfigDependence
import RecordSchema.Layout.Storage
import RecordSchema.Proofs.Model.Agreement
import RecordSchema.Proofs.Outcome

/-!
# Flags and storage

Raising flags ends with a model whose flags raise no further ones: each step but the last raises one
at least, and there are no more steps than there are flags to raise. Flags and storage marks change
nothing else.
-/

set_option autoImplicit false

namespace RecordSchema.Layout

open Model Outcome

/-- The flags of a model raise no further ones. -/
structure Settled (model : Model) : Prop where
  attr : ∀ id, attributeDepends model (model.attr id) = true → (model.attr id).configDependent = true
  method : ∀ id, methodDepends model (model.method id) = true →
    (model.method id).configDependent = true
  record : ∀ id, exprDepends model id (model.record id).size = true →
    (model.record id).configDependent = true

/-- Whether an operand is a reason to raise a flag. -/
def operandDepends (model : Model) (owner : RecordId) (part : Operand) : Bool :=
  part.isConfig || part.member?.any (memberDepends model owner)

theorem exprDepends_eq_false_iff {model : Model} {owner : RecordId} {expr : Expr} :
    exprDepends model owner expr = false ↔
      ∀ part ∈ expr.operands, operandDepends model owner part = false := by
  simp only [exprDepends, Expr.hasConfig, Expr.members, operandDepends, Bool.or_eq_false_iff,
    List.any_eq_false, List.mem_filterMap, Bool.not_eq_true]
  constructor
  · rintro ⟨config, members⟩ part mentioned
    refine ⟨config part mentioned, ?_⟩
    cases named : part.member? with
    | none => rfl
    | some name => exact members name ⟨part, mentioned, named⟩
  · intro plain
    refine ⟨fun part mentioned => (plain part mentioned).1, ?_⟩
    rintro name ⟨part, mentioned, named⟩
    have unflagged := (plain part mentioned).2
    rwa [named] at unflagged

section RaiseFlags

variable (model : Model)

theorem attr_raiseFlags (id : AttributeId) :
    (raiseFlags model).attr id = { model.attr id with
      configDependent := (model.attr id).configDependent || attributeDepends model (model.attr id) } :=
  getD_map model.attributes id.index
    (fun attr => { attr with configDependent := attr.configDependent || attributeDepends model attr })
    rfl

theorem method_raiseFlags (id : MethodId) :
    (raiseFlags model).method id = { model.method id with
      configDependent :=
        (model.method id).configDependent || methodDepends model (model.method id) } :=
  getD_map model.methods id.index
    (fun method =>
      { method with configDependent := method.configDependent || methodDepends model method })
    rfl

theorem record_raiseFlags (id : RecordId) :
    (raiseFlags model).record id = { model.record id with
      configDependent :=
        (model.record id).configDependent || exprDepends model id (model.record id).size } := by
  by_cases inside : id.index < model.records.size
  · simp [Model.record, raiseFlags, Array.getD, inside]
  · simp only [Model.record, raiseFlags, Array.getD, Array.size_mapIdx, inside, ↓reduceDIte]
    rfl

theorem agree_raiseFlags : Agree .flags model (raiseFlags model) :=
  { (Agree.refl model : Agree .flags model model) with
    attributeCount := Array.size_map ..
    methodCount := Array.size_map ..
    recordCount := Array.size_mapIdx ..
    attr := fun id => by rw [attr_raiseFlags]; rfl
    method := fun id => by rw [method_raiseFlags]; rfl
    record := fun id => by rw [record_raiseFlags]; rfl }

end RaiseFlags

/-!
## Counting flags
-/

/-- The elements of an array that pass a test, counted by position. -/
private theorem countP_getD {α : Type} (items : Array α) (test : α → Bool) (fallback : α) :
    items.countP test =
      (List.range items.size).countP fun index => test (items.getD index fallback) := by
  have listed : items.toList = (List.range items.size).map fun index => items.getD index fallback := by
    refine List.ext_getElem (by simp) fun index inside _ => ?_
    have bound : index < items.size := by simpa using inside
    simp [Array.getD, bound]
  rw [← Array.countP_toList, listed, List.countP_map]
  rfl

/-- If no more elements pass the weaker of two tests, the tests agree. -/
private theorem countP_eq_of_imp {α : Type} {items : List α} {weak strong : α → Bool}
    (implied : ∀ item ∈ items, strong item = true → weak item = true)
    (few : items.countP weak ≤ items.countP strong) :
    ∀ item ∈ items, weak item = true → strong item = true := by
  induction items with
  | nil =>
    intro item member
    cases member
  | cons first rest ih =>
    have tailImplied : ∀ item ∈ rest, strong item = true → weak item = true :=
      fun item member => implied item (List.mem_cons_of_mem _ member)
    have tail : rest.countP strong ≤ rest.countP weak := List.countP_mono_left tailImplied
    rw [List.countP_cons, List.countP_cons] at few
    intro item member holds
    rcases List.mem_cons.mp member with rfl | later
    · cases missing : strong item with
      | true => rfl
      | false =>
        simp only [holds, missing, ↓reduceIte, Bool.false_eq_true] at few
        omega
    · refine ih tailImplied ?_ item later holds
      cases strongFirst : strong first with
      | true =>
        rw [strongFirst, implied first List.mem_cons_self strongFirst] at few
        exact Nat.le_of_add_le_add_right few
      | false =>
        rw [strongFirst] at few
        exact Nat.le_trans (Nat.le_add_right ..) few

/-- How many flags there are. -/
def flagLimit (model : Model) : Nat :=
  model.attributes.size + model.methods.size + model.records.size

private theorem flagCount_eq (model : Model) :
    flagCount model =
      (List.range model.attributes.size).countP (fun index => (model.attr ⟨index⟩).configDependent) +
      (List.range model.methods.size).countP (fun index => (model.method ⟨index⟩).configDependent) +
      (List.range model.records.size).countP
        (fun index => (model.record ⟨index⟩).configDependent) := by
  rw [flagCount, countP_getD model.attributes _ default, countP_getD model.methods _ default,
    countP_getD model.records _ default]
  rfl

private theorem flagCount_le (model : Model) : flagCount model ≤ flagLimit model := by
  rw [flagCount_eq, flagLimit]
  have bound : ∀ (size : Nat) (flag : Nat → Bool), (List.range size).countP flag ≤ size := by
    intro size flag
    simpa using List.countP_le_length (p := flag) (l := List.range size)
  exact Nat.add_le_add (Nat.add_le_add (bound _ _) (bound _ _)) (bound _ _)

/-- Raising the flags in some positions counts no fewer, and no more only if they were raised. -/
private theorem countP_or (size : Nat) (flag depends : Nat → Bool) :
    (List.range size).countP flag ≤ (List.range size).countP (fun index => flag index || depends index) ∧
      ((List.range size).countP (fun index => flag index || depends index) ≤
          (List.range size).countP flag →
        ∀ index < size, depends index = true → flag index = true) := by
  have kept : ∀ index ∈ List.range size, flag index = true →
      (flag index || depends index) = true := by
    intro index _ raised
    rw [raised, Bool.true_or]
  refine ⟨List.countP_mono_left kept, fun few index inside needed => ?_⟩
  exact countP_eq_of_imp kept few index (List.mem_range.mpr inside) (by rw [needed, Bool.or_true])

/-- A step never takes a flag down, and where it raises none there was none to raise. -/
theorem flagCount_raiseFlags (model : Model) :
    flagCount model ≤ flagCount (raiseFlags model) ∧
      (flagCount (raiseFlags model) = flagCount model → Settled model) := by
  have agree := agree_raiseFlags model
  rw [flagCount_eq, flagCount_eq (raiseFlags model), agree.attributeCount, agree.methodCount,
    agree.recordCount]
  simp only [attr_raiseFlags, method_raiseFlags, record_raiseFlags]
  obtain ⟨moreAttributes, attributes⟩ := countP_or model.attributes.size
    (fun index => (model.attr ⟨index⟩).configDependent)
    (fun index => attributeDepends model (model.attr ⟨index⟩))
  obtain ⟨moreMethods, methods⟩ := countP_or model.methods.size
    (fun index => (model.method ⟨index⟩).configDependent)
    (fun index => methodDepends model (model.method ⟨index⟩))
  obtain ⟨moreRecords, records⟩ := countP_or model.records.size
    (fun index => (model.record ⟨index⟩).configDependent)
    (fun index => exprDepends model ⟨index⟩ (model.record ⟨index⟩).size)
  refine ⟨by omega, fun same => ?_⟩
  constructor
  · intro id depends
    by_cases inside : id.index < model.attributes.size
    · exact attributes (by omega) id.index inside depends
    · rw [model.attr_eq_default inside] at depends
      cases depends
  · intro id depends
    by_cases inside : id.index < model.methods.size
    · exact methods (by omega) id.index inside depends
    · rw [model.method_eq_default inside] at depends
      cases depends
  · intro id depends
    by_cases inside : id.index < model.records.size
    · exact records (by omega) id.index inside depends
    · rw [model.record_eq_default inside] at depends
      cases depends

/-!
## All flags
-/

private theorem agree_raiseAll (fuel : Nat) (model : Model) : Agree .flags model (raiseAll fuel model) := by
  induction fuel generalizing model with
  | zero => exact .refl model
  | succ fuel ih =>
    rw [raiseAll]
    split
    · exact .refl model
    · exact (agree_raiseFlags model).trans (ih _)

private theorem raiseAll_settled {fuel : Nat} {model : Model}
    (enough : flagLimit model < fuel + flagCount model) : Settled (raiseAll fuel model) := by
  induction fuel generalizing model with
  | zero =>
    have few := flagCount_le model
    omega
  | succ fuel ih =>
    obtain ⟨grows, settled⟩ := flagCount_raiseFlags model
    rw [raiseAll]
    split
    · rename_i same
      exact settled same
    · rename_i different
      refine ih ?_
      have limit : flagLimit (raiseFlags model) = flagLimit model := by
        have agree := agree_raiseFlags model
        rw [flagLimit, agree.attributeCount, agree.methodCount, agree.recordCount, flagLimit]
      omega

theorem agree_withDependence (model : Model) : Agree .flags model (withDependence model) :=
  agree_raiseAll _ model

theorem withDependence_settled (model : Model) : Settled (withDependence model) :=
  raiseAll_settled (by rw [flagLimit]; omega)

/-! Flags do not look at what is filled in later. -/

section Later

variable {before after : Model} (agree : Agree .storage before after)

include agree

private theorem memberDepends_agree (owner : RecordId) (name : String) :
    memberDepends after owner name = memberDepends before owner name := by
  have links : Agree .derived before after :=
    agree.coarsen (fun _ => rfl) (fun _ => rfl) fun _ => rfl
  have attrs := agree.attrField Attribute.configDependent fun _ => rfl
  have methods := agree.methodField Method.configDependent fun _ => rfl
  simp only [memberDepends, links.findAttribute?, links.findMethod?, attrs, methods]

private theorem exprDepends_agree (owner : RecordId) (expr : Expr) :
    exprDepends after owner expr = exprDepends before owner expr := by
  have members : memberDepends after owner = memberDepends before owner :=
    funext (memberDepends_agree agree owner)
  rw [exprDepends, members, exprDepends]

private theorem attributeDepends_agree (id : AttributeId) :
    attributeDepends after (after.attr id) = attributeDepends before (before.attr id) := by
  have owner := agree.attrField Attribute.owner (fun _ => rfl) id
  have shape := agree.attrField Attribute.shape (fun _ => rfl) id
  have type := agree.attrField Attribute.type (fun _ => rfl) id
  have offset := agree.attrField Attribute.offset (fun _ => rfl) id
  have elementSize := agree.attrField Attribute.elementSize (fun _ => rfl) id
  have exprs : exprDepends after = exprDepends before :=
    funext fun owner => funext (exprDepends_agree agree owner)
  have records := agree.recordField Record.configDependent fun _ => rfl
  simp only [attributeDepends, embedsDependent, exprs, owner, shape, type, offset, elementSize,
    records]

private theorem methodDepends_agree (id : MethodId) :
    methodDepends after (after.method id) = methodDepends before (before.method id) := by
  have owner := agree.methodField Method.owner (fun _ => rfl) id
  have body := agree.methodField Method.body (fun _ => rfl) id
  have exprs : exprDepends after = exprDepends before :=
    funext fun owner => funext (exprDepends_agree agree owner)
  have attrs := agree.attrField Attribute.configDependent fun _ => rfl
  simp only [methodDepends, Model.bitfield, exprs, owner, body, attrs, agree.bitfields]

theorem Settled.of_agree (settled : Settled before) : Settled after where
  attr id depends := by
    rw [agree.attrField Attribute.configDependent fun _ => rfl]
    exact settled.attr id (attributeDepends_agree agree id ▸ depends)
  method id depends := by
    rw [agree.methodField Method.configDependent fun _ => rfl]
    exact settled.method id (methodDepends_agree agree id ▸ depends)
  record id depends := by
    rw [agree.recordField Record.configDependent fun _ => rfl]
    rw [agree.recordField Record.size fun _ => rfl, exprDepends_agree agree] at depends
    exact settled.record id depends

end Later

/-!
## Storage
-/

section Storage

variable {model after : Model} {property : Model → Prop}

/-- What holds of a model with one more attribute marked as stored. -/
def Marks (property : Model → Prop) : Prop :=
  ∀ (state : Model) (id : AttributeId), (state.attr id).configDependent = false → property state →
    property (state.modifyAttribute id fun current => { current with stored := true })

theorem unflagged_of_storedStop {attr : Attribute} {stop : Option Int} {range : Option (Int × Int)}
    {next : Int} (stored : storedStop attr stop range = some next) :
    attr.configDependent = false := by
  unfold storedStop at stored
  split at stored
  · split at stored
    · rename_i fits
      simpa using (Bool.and_eq_true_iff.mp fits).1
    · cases stored
  · cases stored

theorem storeAttributes_preserves {ids : List AttributeId} {storing : Bool} {stop : Option Int}
    (accepted : storeAttributes model storing stop ids = some after) (marks : Marks property)
    (start : property model) : property after := by
  induction ids generalizing model storing stop with
  | nil =>
    cases accepted
    exact start
  | cons id rest ih =>
    rw [storeAttributes] at accepted
    obtain ⟨range, _, accepted⟩ := Option.bind_eq_some_iff.mp accepted
    split at accepted
    · cases accepted
      exact start
    · rename_i next storable
      split at storable
      · exact ih accepted (marks model id (unflagged_of_storedStop storable) start)
      · cases storable

/-- What holds however attributes without flag are marked holds of the outcome. -/
theorem withStorage_preserves {order : List RecordId} (accepted : withStorage model order = some after)
    (marks : Marks property) (start : property model) : property after := by
  refine foldlM_preserves_option accepted property start ?_
  intro id _ state later before taken
  unfold storeRecord at taken
  dsimp only at taken
  split at taken <;> exact storeAttributes_preserves taken marks before

/-- Only the marks of stored attributes change. -/
theorem agree_withStorage {forget : Forget}
    (ignored : ∀ attr, forget.attr { attr with stored := true } = forget.attr attr)
    {order : List RecordId} (accepted : withStorage model order = some after) :
    Agree forget model after :=
  withStorage_preserves accepted
    (fun state id _ agree => agree.trans (.modifyAttribute state id ignored)) (.refl model)

/-- A stored attribute does not depend on a config object. -/
def StoredUnflagged (model : Model) : Prop :=
  ∀ id, (model.attr id).stored = true → (model.attr id).configDependent = false

theorem storedUnflagged_withStorage {order : List RecordId}
    (accepted : withStorage model order = some after)
    (unstored : ∀ id, (model.attr id).stored = false) : StoredUnflagged after := by
  refine withStorage_preserves accepted ?_ ?_
  · intro state id unflagged before other
    rw [attr_modifyAttribute]
    split
    · rename_i same
      rw [← same.1]
      exact fun _ => unflagged
    · exact before other
  · intro id stored
    rw [unstored id] at stored
    cases stored

end Storage

end RecordSchema.Layout
