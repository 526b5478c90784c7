import RecordSchema.Proofs.Build
import RecordSchema.Proofs.Renaming.OwnMembers

/-!
# Methods of a record type have different names

A method is added to its record type under a name that is new there, be it declared or the accessor of
an attribute or a bitfield. So the accessors of the attributes of a type have different names.
-/

set_option autoImplicit false

namespace RecordSchema

open Model Outcome

namespace Resolution

/-- What comes last under a key that is new leaves keys without repetition. -/
theorem nodup_map_concat {α κ : Type} {key : α → κ} {items : List α} {last : α}
    (distinct : (items.map key).Nodup) (fresh : ∀ item ∈ items, key item ≠ key last) :
    ((items ++ [last]).map key).Nodup := by
  rw [List.map_append, List.map_singleton, ← List.concat_eq_append]
  refine .concat (fun taken => ?_) distinct
  obtain ⟨item, held, same⟩ := List.mem_map.mp taken
  exact fresh item held same

def methodNames (model : Model) (id : RecordId) : List String :=
  (model.record id).methods.map fun method => (model.method method).name

def MethodsApart (model : Model) : Prop :=
  ∀ id, (methodNames model id).Nodup

namespace MethodsApart

variable {before after : Model}

theorem of_noMethods (closed : before.Closed) (none : before.methods.size = 0) :
    MethodsApart before := by
  intro id
  have empty : (before.record id).methods = [] := by
    refine List.eq_nil_iff_forall_not_mem.mpr fun method listed => ?_
    have inside : method.index < before.methods.size := closed.recordMethods id method listed
    omega
  rw [methodNames, empty]
  exact .nil

theorem congr (apart : MethodsApart before)
    (records : ∀ id, (after.record id).methods = (before.record id).methods)
    (names : ∀ id, (after.method id).name = (before.method id).name) : MethodsApart after := by
  intro id
  have same : methodNames after id = methodNames before id := by
    rw [methodNames, records]
    exact List.map_congr_left fun method _ => names method
  exact same ▸ apart id

/-- A method comes last in its type, under a name that is new there. -/
theorem add (apart : MethodsApart before) (closed : before.Closed) (added : Method)
    (free : ((before.record added.owner).methods.any fun id =>
      (before.method id).name == added.name) = false)
    (records : ∀ id, (after.record id).methods =
      if added.owner = id ∧ id.index < before.records.size then
        (before.record id).methods ++ [⟨before.methods.size⟩]
      else (before.record id).methods)
    (methods : ∀ id, after.method id =
      if id.index = before.methods.size then added else before.method id) : MethodsApart after := by
  intro id
  have old : ∀ method ∈ (before.record id).methods,
      (after.method method).name = (before.method method).name := by
    intro method listed
    have inside : method.index < before.methods.size := closed.recordMethods id method listed
    rw [methods, if_neg (Nat.ne_of_lt inside)]
  have distinct : ((before.record id).methods.map fun method => (after.method method).name).Nodup := by
    rw [List.map_congr_left old]
    exact apart id
  rw [methodNames, records]
  split
  · rename_i here
    refine nodup_map_concat distinct fun method listed taken => ?_
    rw [old method listed, methods, if_pos rfl] at taken
    exact List.any_eq_false.mp free method (here.1 ▸ listed) (by rw [taken, beq_self_eq_true])
  · exact distinct

end MethodsApart

/-!
## One step
-/

private theorem insertAttribute_apart {model after : Model} (closed : model.Closed)
    (apart : MethodsApart model) {path name : String} {attr : Attribute}
    (accepted : insertAttribute model path name attr = .ok after) : MethodsApart after := by
  rw [insertAttribute_eq] at accepted
  split at accepted
  · cases accepted
  · rename_i free
    cases accepted
    refine apart.add closed (accessorOf name ⟨model.attributes.size⟩ attr)
      (eq_false_of_ne_true free) (fun id => ?_) (method_withReadAttribute model attr _)
    rw [record_withReadAttribute rfl]
    exact apply_ite Record.methods _ _ _

private theorem insertBitfield_apart {model after : Model} (closed : model.Closed)
    (apart : MethodsApart model) {owner : RecordId} {access : Access} {path name : String}
    {bitfield : Bitfield}
    (accepted : insertBitfield model owner access path name bitfield = .ok after) :
    MethodsApart after := by
  rw [insertBitfield_eq] at accepted
  split at accepted
  · cases accepted
  · rename_i free
    cases accepted
    refine apart.add closed (bitAccessorOf owner access name ⟨model.bitfields.size⟩ bitfield)
      (eq_false_of_ne_true free) (fun id => ?_) (method_withReadBitfield model bitfield _)
    have record := @record_withMethod (model.withBitfield bitfield)
    exact (congrArg Record.methods (record _ id)).trans (apply_ite Record.methods _ _ _)

private theorem addBitfields_apart {model after : Model} (sound : model.Sound) (apart : MethodsApart model)
    {owner : RecordId} {id : AttributeId} (inside : id.index < model.attributes.size)
    (owned : (model.attr id).owner = owner) {path typeName : String}
    {declarations : List Declaration.Bitfield}
    (accepted : addBitfields model owner id path typeName declarations = .ok after) :
    MethodsApart after := by
  have kept := addBitfields_preserves accepted (fun state => Step model state ∧
      MethodsApart state ∧ state.attributes.size = model.attributes.size ∧
      (state.attr id).owner = owner) ⟨.refl sound, apart, rfl, owned⟩ <| by
    rintro state next access path name bitfield ⟨step, apart, size, holder⟩ rfl unread known one
    obtain ⟨later, sizes, owners⟩ := insertBitfield_step step.sound (size ▸ inside) holder
      (known step.sound.closed) unread one
    exact ⟨step.trans later, insertBitfield_apart step.sound.closed apart one, sizes.trans size,
      (owners _).trans holder⟩
  exact kept.2.1

private theorem addAttribute_apart {model after : Model} (sound : model.Sound) (apart : MethodsApart model)
    {owner : RecordId} (inside : owner.index < model.records.size) {typePath : String}
    {declaration : Declaration.Attribute}
    (accepted : addAttribute owner typePath model declaration = .ok after) : MethodsApart after := by
  obtain ⟨attr, extended, _, read, inserted, bitfields⟩ := addAttribute_ok accepted
  obtain ⟨closed, fresh, rfl, empty⟩ := readAttribute_ok sound.closed inside read
  obtain ⟨there, owned⟩ := insertAttribute_owned inserted
  exact addBitfields_apart (insertAttribute_step sound closed fresh empty inserted).sound
    (insertAttribute_apart sound.closed apart inserted) there owned bitfields

private theorem addDeclaredMethod_apart {model after : Model} (closed : model.Closed)
    (apart : MethodsApart model) {owner : RecordId} {typePath : String}
    {declaration : Declaration.Method}
    (accepted : addDeclaredMethod owner typePath model declaration = .ok after) :
    MethodsApart after := by
  simp only [addDeclaredMethod, bind, Except.bind] at accepted
  split at accepted
  · cases accepted
  · obtain ⟨result, returned, accepted⟩ := bind_ok accepted
    obtain ⟨arguments, argued, accepted⟩ := bind_ok accepted
    obtain ⟨body, read, accepted⟩ := bind_ok accepted
    obtain ⟨access, allowed, accepted⟩ := bind_ok accepted
    obtain ⟨⟨complete, id⟩, added, accepted⟩ := bind_ok accepted
    cases accepted
    rw [addMethod_eq] at added
    split at added
    · cases added
    · rename_i free
      cases added
      refine apart.add closed _ (eq_false_of_ne_true free) (fun id => ?_) (method_pushMethod model _)
      rw [record_withMethod]
      exact apply_ite Record.methods _ _ _

/-!
## Passes
-/

theorem Passes.methodsApart {draft : Draft} {built : Built} (passes : Passes draft built)
    (consistent : draft.Consistent) : MethodsApart built.model := by
  have headed := passes.isHeaded consistent
  have start : MethodsApart passes.withEnumerations :=
    .of_noMethods (passes.enumerations_step consistent).sound.closed
      (by rw [passes.values_only.2, headed.noMethods])
  have attributes : MethodsApart passes.withAttributes :=
    passes.attributes_preserve consistent start fun sound inside apart added =>
      addAttribute_apart sound apart inside added
  have methods : MethodsApart passes.withMethods :=
    passes.methods_preserve consistent attributes fun sound _ apart added =>
      addDeclaredMethod_apart sound.closed apart added
  refine foldlM_preserves passes.constructors (fun state => MethodsApart state.1) methods ?_
  rintro pending _ ⟨state, before⟩ ⟨after, remarks⟩ apart taken
  obtain ⟨⟨constructors, more⟩, -, taken⟩ := bind_ok taken
  cases taken
  refine apart.congr (fun id => ?_) fun _ => rfl
  rw [record_modifyRecord]
  split <;> rfl

end Resolution

/-- Layout, flags, storage and schemas leave the names of methods alone. -/
theorem Stages.methodsApart {units : List SourceUnit} {built : Built} (stages : Stages units built) :
    Resolution.MethodsApart built.model := by
  obtain ⟨passes⟩ := Resolution.resolveDeclarations_passes stages.resolution
  have agree := stages.agree_derived
  exact (passes.methodsApart (Draft.ofUnits_consistent stages.named)).congr
    (agree.recordField Record.methods fun _ => rfl) (agree.methodField Method.name fun _ => rfl)

end RecordSchema
