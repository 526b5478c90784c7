import RecordSchema.Proofs.Renaming.Members
import RecordSchema.Proofs.TwoRuns
import RecordSchema.Proofs.Resolution.Attributes

/-!
# A record type fills in its own members

Attributes with their bitfields, and methods, are added to their record type at the end of what it has
shown so far. Other record types show what they showed, and values stay. An attribute has a name that is
new in its type.
-/

set_option autoImplicit false

namespace RecordSchema.Resolution

open Model Outcome

/-!
## Equations
-/

/-- What adding a method comes to. -/
theorem addMethod_eq (model : Model) (path : String) (method : Method) :
    addMethod model path method =
      if (model.record method.owner).methods.any fun id => (model.method id).name == method.name then
        .error (.duplicateName path method.name)
      else .ok (model.withMethod method, ⟨model.methods.size⟩) :=
  rfl

/-- The accessor of an attribute. -/
def accessorOf (name : String) (id : AttributeId) (attr : Attribute) : Method :=
  { name, owner := attr.owner, result := some attr.type, rank := attr.rank, body := .attr id,
    access := attr.access, comment := attr.comment }

theorem insertAttribute_eq (model : Model) (path name : String) (attr : Attribute) :
    insertAttribute model path name attr =
      if (model.record attr.owner).methods.any fun id => (model.method id).name == name then
        .error (.duplicateName path name)
      else .ok (model.withReadAttribute attr (accessorOf name ⟨model.attributes.size⟩ attr)) := by
  have methods : ((model.withAttribute attr).record attr.owner).methods =
      (model.record attr.owner).methods := by
    rw [withAttribute, record_modifyRecord]
    split <;> rfl
  have clash : (((model.withAttribute attr).record attr.owner).methods.any fun id =>
      ((model.withAttribute attr).method id).name == name) =
        (model.record attr.owner).methods.any fun id => (model.method id).name == name := by
    rw [methods]
    rfl
  change (addMethod (model.withAttribute attr) path (accessorOf name ⟨model.attributes.size⟩ attr) >>=
    fun added => Except.ok (added.1.modifyAttribute ⟨model.attributes.size⟩
      fun current => { current with accessor := some added.2 })) = _
  rw [addMethod_eq]
  simp only [accessorOf, clash]
  split <;> rfl

/-- The accessor of a bitfield. -/
def bitAccessorOf (owner : RecordId) (access : Access) (name : String) (id : BitfieldId)
    (bitfield : Bitfield) : Method :=
  { name, owner, result := some bitfield.type, body := .bitfield id, access,
    comment := bitfield.comment }

theorem insertBitfield_eq (model : Model) (owner : RecordId) (access : Access) (path name : String)
    (bitfield : Bitfield) :
    insertBitfield model owner access path name bitfield =
      if (model.record owner).methods.any fun id => (model.method id).name == name then
        .error (.duplicateName path name)
      else
        .ok (model.withReadBitfield bitfield
          (bitAccessorOf owner access name ⟨model.bitfields.size⟩ bitfield)) := by
  change (addMethod (model.withBitfield bitfield) path
    (bitAccessorOf owner access name ⟨model.bitfields.size⟩ bitfield) >>=
      fun added => Except.ok (added.1.modifyBitfield ⟨model.bitfields.size⟩
        fun current => { current with accessor := some added.2 })) = _
  rw [addMethod_eq]
  change (if (model.record owner).methods.any fun id => (model.method id).name == name then
    Except.error _ else _) >>= _ = _
  split <;> rfl

theorem attributes_withReadBitfield (model : Model) (added : Bitfield) (accessor : Method)
    (id : RecordId) :
    ((model.withReadBitfield added accessor).record id).attributes = (model.record id).attributes := by
  change (((model.withBitfield added).withMethod accessor).record id).attributes = _
  rw [record_withMethod]
  split <;> rfl

theorem attributes_withReadAttribute (model : Model) (added : Attribute) (accessor : Method)
    (same : accessor.owner = added.owner) (inside : added.owner.index < model.records.size) :
    ((model.withReadAttribute added accessor).record added.owner).attributes =
      (model.record added.owner).attributes ++ [⟨model.attributes.size⟩] := by
  rw [record_withReadAttribute same, if_pos ⟨rfl, inside⟩]

/-!
## One step
-/

/-- Names of the attributes of a record type. -/
def attributeNames (model : Model) (id : RecordId) : List String :=
  (model.record id).attributes.map fun attr => (model.attr attr).name

theorem attributeNames_eq (model : Model) (id : RecordId) :
    attributeNames model id = (model.recordView id).attributes.map (·.bare.name) := by
  rw [recordView, Record.view, List.map_map]
  rfl

/-- A record type gets members. -/
structure Fills (owner : RecordId) (before after : Model) : Prop extends Step before after where
  others : ∀ id, id ≠ owner → after.recordView id = before.recordView id
  sameEnumerations : after.enumerations = before.enumerations
  sameConstants : after.constants = before.constants

namespace Fills

variable {owner : RecordId}

theorem refl {model : Model} (sound : model.Sound) : Fills owner model model :=
  ⟨.refl sound, fun _ _ => rfl, rfl, rfl⟩

theorem trans {first middle last : Model} (before : Fills owner first middle)
    (after : Fills owner middle last) : Fills owner first last where
  toStep := before.toStep.trans after.toStep
  others id different := (after.others id different).trans (before.others id different)
  sameEnumerations := after.sameEnumerations.trans before.sameEnumerations
  sameConstants := after.sameConstants.trans before.sameConstants

end Fills

private theorem insertAttribute_fills {model after : Model} (sound : model.Sound) {path name : String}
    {attr : Attribute} (closed : attr.Closed model.census) (fresh : attr.Declared)
    (empty : attr.bitfields = []) (accepted : insertAttribute model path name attr = .ok after) :
    Fills attr.owner model after ∧
      attributeNames after attr.owner = attributeNames model attr.owner ++ [attr.name] := by
  have step := insertAttribute_step sound closed fresh empty accepted
  rw [insertAttribute_eq] at accepted
  split at accepted
  · cases accepted
  · cases accepted
    have body : (accessorOf name ⟨model.attributes.size⟩ attr).body =
        .attr ⟨model.attributes.size⟩ := rfl
    refine ⟨⟨step, fun id different => ?_, rfl, rfl⟩, ?_⟩
    · rw [recordView_withReadAttribute sound.closed closed.owner empty rfl body id,
        if_neg (Ne.symm different)]
    · rw [attributeNames, attributes_withReadAttribute _ _ _ rfl closed.owner, List.map_append,
        List.map_singleton, attr_withReadAttribute, if_pos rfl, attributeNames]
      congr 1
      refine List.map_congr_left fun other listed => ?_
      have old : other.index < model.attributes.size := sound.closed.recordAttributes _ other listed
      rw [attr_withReadAttribute, if_neg (Nat.ne_of_lt old)]

private theorem insertBitfield_fills {model after : Model} (sound : model.Sound) {owner : RecordId}
    {access : Access} {path name : String} {bitfield : Bitfield}
    (attr : bitfield.attr.index < model.attributes.size)
    (owned : (model.attr bitfield.attr).owner = owner)
    (type : InRange model.census bitfield.type.references) (unread : bitfield.accessor = none)
    (accepted : insertBitfield model owner access path name bitfield = .ok after) :
    Fills owner model after ∧ attributeNames after owner = attributeNames model owner := by
  have step := (insertBitfield_step sound attr owned type unread accepted).1
  rw [insertBitfield_eq] at accepted
  split at accepted
  · cases accepted
  · cases accepted
    have body : (bitAccessorOf owner access name ⟨model.bitfields.size⟩ bitfield).body =
        .bitfield ⟨model.bitfields.size⟩ := rfl
    refine ⟨⟨step, (recordView_withReadBitfield sound.toLinked attr owned.symm body).1, rfl, rfl⟩, ?_⟩
    rw [attributeNames, attributes_withReadBitfield, attributeNames]
    refine List.map_congr_left fun other _ => ?_
    rw [attr_withReadBitfield]
    split <;> rfl

/-!
## Attributes and methods
-/

private theorem addBitfields_fills {model after : Model} (sound : model.Sound) {owner : RecordId}
    {id : AttributeId} (inside : id.index < model.attributes.size)
    (owned : (model.attr id).owner = owner) {path typeName : String}
    {declarations : List Declaration.Bitfield}
    (accepted : addBitfields model owner id path typeName declarations = .ok after) :
    Fills owner model after ∧ attributeNames after owner = attributeNames model owner := by
  have kept := addBitfields_preserves accepted (fun state => Fills owner model state ∧
      attributeNames state owner = attributeNames model owner ∧
      state.attributes.size = model.attributes.size ∧ (state.attr id).owner = owner)
    ⟨.refl sound, rfl, rfl, owned⟩ <| by
      rintro state next access path name bitfield ⟨fills, same, size, holder⟩ rfl unread known one
      have known := known fills.sound.closed
      obtain ⟨more, still⟩ := insertBitfield_fills fills.sound (size ▸ inside) holder known unread one
      obtain ⟨-, sizes, owners⟩ :=
        insertBitfield_step fills.sound (size ▸ inside) holder known unread one
      exact ⟨fills.trans more, still.trans same, sizes.trans size, (owners _).trans holder⟩
  exact ⟨kept.1, kept.2.1⟩

private theorem readAttribute_name {model : Model} {owner : RecordId} {path : String}
    {declaration : Declaration.Attribute} {attr : Attribute}
    (accepted : readAttribute model owner path declaration = .ok attr) :
    attr.name = declaration.name := by
  simp only [readAttribute] at accepted
  split at accepted
  · obtain ⟨type, _, accepted⟩ := bind_ok accepted
    obtain ⟨shape, _, accepted⟩ := bind_ok accepted
    obtain ⟨offset, _, accepted⟩ := bind_ok accepted
    obtain ⟨access, _, accepted⟩ := bind_ok accepted
    cases accepted
    rfl
  · cases accepted

private theorem addAttribute_appends {model after : Model} (sound : model.Sound) {owner : RecordId}
    (inside : owner.index < model.records.size) {typePath : String}
    {declaration : Declaration.Attribute}
    (accepted : addAttribute owner typePath model declaration = .ok after) :
    Fills owner model after ∧
      attributeNames after owner = attributeNames model owner ++ [declaration.name] := by
  obtain ⟨attr, extended, _, read, inserted, bitfields⟩ := addAttribute_ok accepted
  obtain ⟨closed, fresh, rfl, empty⟩ := readAttribute_ok sound.closed inside read
  obtain ⟨first, names⟩ := insertAttribute_fills sound closed fresh empty inserted
  obtain ⟨there, owned⟩ := insertAttribute_owned inserted
  obtain ⟨later, same⟩ := addBitfields_fills first.sound there owned bitfields
  exact ⟨first.trans later, by rw [same, names, readAttribute_name read]⟩

theorem addAttribute_fills {model after : Model} (sound : model.Sound) {owner : RecordId}
    (inside : owner.index < model.records.size) {typePath : String}
    {declaration : Declaration.Attribute}
    (accepted : addAttribute owner typePath model declaration = .ok after) :
    Fills owner model after ∧
      ((attributeNames model owner).Nodup → (attributeNames after owner).Nodup) := by
  obtain ⟨_, _, free, _⟩ := addAttribute_ok accepted
  obtain ⟨fills, names⟩ := addAttribute_appends sound inside accepted
  refine ⟨fills, fun distinct => ?_⟩
  rw [names, List.nodup_append]
  refine ⟨distinct, by simp, ?_⟩
  rintro other listed _ last rfl
  obtain ⟨id, held, named⟩ := List.mem_map.mp listed
  refine List.any_eq_false.mp free id held ?_
  rw [named, List.mem_singleton.mp last, beq_self_eq_true]

theorem resolveAttributes_fills {model after : Model} (sound : model.Sound)
    {pending : Pending RecordId Declaration.Record}
    (inside : pending.id.index < model.records.size)
    (accepted : resolveAttributes model pending = .ok after) :
    Fills pending.id model after ∧
      ((attributeNames model pending.id).Nodup → (attributeNames after pending.id).Nodup) := by
  refine foldlM_preserves accepted (fun state => Fills pending.id model state ∧
    ((attributeNames model pending.id).Nodup → (attributeNames state pending.id).Nodup))
    ⟨.refl sound, fun distinct => distinct⟩ ?_
  rintro declaration - state after ⟨fills, distinct⟩ taken
  obtain ⟨more, still⟩ := addAttribute_fills fills.sound (fills.records.symm ▸ inside) taken
  exact ⟨fills.trans more, still ∘ distinct⟩

theorem resolveAttributes_appends {model after : Model} (sound : model.Sound)
    {pending : Pending RecordId Declaration.Record}
    (inside : pending.id.index < model.records.size)
    (accepted : resolveAttributes model pending = .ok after) :
    attributeNames after pending.id =
      attributeNames model pending.id ++ pending.declaration.attributes.map (·.name) := by
  have loop := foldlM_invariant accepted (fun seen state => Fills pending.id model state ∧
    attributeNames state pending.id = attributeNames model pending.id ++ seen.map (·.name))
    ⟨.refl sound, (List.append_nil _).symm⟩ <| by
      rintro seen declaration - state after - ⟨fills, names⟩ taken
      obtain ⟨more, last⟩ := addAttribute_appends fills.sound (fills.records.symm ▸ inside) taken
      refine ⟨fills.trans more, ?_⟩
      rw [last, names, List.map_append, List.map_singleton, List.append_assoc]
  exact loop.2

theorem addDeclaredMethod_fills {model after : Model} (sound : model.Sound) {owner : RecordId}
    (inside : owner.index < model.records.size) {typePath : String}
    {declaration : Declaration.Method}
    (accepted : addDeclaredMethod owner typePath model declaration = .ok after) :
    Fills owner model after ∧ ∀ id, attributeNames after id = attributeNames model id := by
  have step := addDeclaredMethod_step sound inside accepted
  obtain ⟨result, arguments, body, access, _, _, _, rfl⟩ := addDeclaredMethod_ok accepted
  obtain ⟨inlined, rawTags, same⟩ := foldl_applyMethodTag (Tag.parseAll declaration.tags)
    { name := declaration.name, owner, result, rank := declaration.rank.toNat, arguments, body,
      access, comment := declaration.comment }
  rw [same] at step ⊢
  refine ⟨⟨step, fun id different => ?_, rfl, rfl⟩, fun id => ?_⟩
  · rw [recordView_withMethod sound.closed inside id, if_neg (Ne.symm different)]
  · rw [attributeNames, record_withMethod]
    split <;> rfl

private theorem resolveMethods_fills {model after : Model} (sound : model.Sound)
    {pending : Pending RecordId Declaration.Record}
    (inside : pending.id.index < model.records.size)
    (accepted : resolveMethods model pending = .ok after) :
    Fills pending.id model after ∧ ∀ id, attributeNames after id = attributeNames model id := by
  refine foldlM_preserves accepted (fun state => Fills pending.id model state ∧
    ∀ id, attributeNames state id = attributeNames model id) ⟨.refl sound, fun _ => rfl⟩ ?_
  rintro declaration - state after ⟨fills, same⟩ taken
  obtain ⟨more, still⟩ := addDeclaredMethod_fills fills.sound (fills.records.symm ▸ inside) taken
  exact ⟨fills.trans more, fun id => (still id).trans (same id)⟩

/-!
## Passes
-/

/-- What a pass over members keeps: the outline, the values, and the names of attributes apart. -/
structure Populated (headed start state : Model) : Prop where
  step : Step headed state
  enumerations : state.enumerations = start.enumerations
  constants : state.constants = start.constants
  distinct : ∀ id, (attributeNames state id).Nodup

private theorem Populated.fill {headed start state after : Model} {owner : RecordId}
    (populated : Populated headed start state) (fills : Fills owner state after)
    (distinct : (attributeNames state owner).Nodup → (attributeNames after owner).Nodup) :
    Populated headed start after where
  step := populated.step.trans fills.toStep
  enumerations := fills.sameEnumerations.trans populated.enumerations
  constants := fills.sameConstants.trans populated.constants
  distinct id := by
    by_cases same : id = owner
    · exact same ▸ distinct (populated.distinct owner)
    · rw [attributeNames_eq, fills.others id same, ← attributeNames_eq]
      exact populated.distinct id

section Passes

variable {draft : Draft} {headed start : Model}
  (inside : ∀ pending ∈ draft.records.toList, pending.id.index < headed.records.size)
  (distinct : (draft.records.toList.map (·.id)).Nodup)

include inside distinct

/-- A record type fills in what it shows. -/
theorem resolveAttributes_local :
    Local resolveAttributes draft.records.toList (·.id) (fun id (model : Model) => model.recordView id)
      (Populated headed start) where
  distinct := distinct
  keeps pending listed state after good taken := by
    obtain ⟨fills, names⟩ := resolveAttributes_fills good.step.sound
      (good.step.records.symm ▸ inside pending listed) taken
    exact good.fill fills names
  others pending listed state after good taken :=
    (resolveAttributes_fills good.step.sound
      (good.step.records.symm ▸ inside pending listed) taken).1.others

theorem resolveMethods_local :
    Local resolveMethods draft.records.toList (·.id) (fun id (model : Model) => model.recordView id)
      (Populated headed start) where
  distinct := distinct
  keeps pending listed state after good taken := by
    obtain ⟨fills, names⟩ := resolveMethods_fills good.step.sound
      (good.step.records.symm ▸ inside pending listed) taken
    exact good.fill fills fun apart => names pending.id ▸ apart
  others pending listed state after good taken :=
    (resolveMethods_fills good.step.sound
      (good.step.records.symm ▸ inside pending listed) taken).1.others

end Passes

end RecordSchema.Resolution
