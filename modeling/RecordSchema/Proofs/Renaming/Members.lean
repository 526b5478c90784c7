import RecordSchema.Proofs.Renaming.Basic

/-!
# What added members show

An attribute or a bitfield that is added with its accessor, and a method that is added, show up at the
end of the view of their record type. The views of the other types stay.
-/

set_option autoImplicit false

namespace RecordSchema.Model

section Old

variable {before after : Model}

/-- What a method in range reads is in range. -/
theorem ClosedFor.readBy (closed : before.ClosedFor before.census) {id : MethodId}
    (inside : id.index < before.methods.size) :
    ∀ attr ∈ before.readBy (before.method id).body, attr.index < before.attributes.size := by
  have held := closed.methodBody inside
  intro attr read
  cases body : (before.method id).body with
  | attr other =>
    rw [body] at held read
    cases read
    exact (inRange_cons.mp held).1
  | bitfield other =>
    rw [body] at held read
    cases read
    exact closed.bitfieldAttr (inRange_cons.mp held).1
  | expressions _ | code _ | external =>
    rw [body] at read
    cases read

variable (closed : before.Closed)
  (methods : ∀ id : MethodId, id.index < before.methods.size → after.method id = before.method id)
  (bitfields : ∀ id : BitfieldId, id.index < before.bitfields.size →
    after.bitfield id = before.bitfield id)

include closed methods bitfields

/-- An attribute that was there already shows the same, unless it is changed itself. -/
theorem attributeView_old {id : AttributeId} (inside : id.index < before.attributes.size)
    (attr : after.attr id = before.attr id) : after.attributeView id = before.attributeView id := by
  refine attributeView_congr attr (fun method read => ?_) fun bitfield listed => ?_
  · rw [methods method ((closed.attr inside).accessor method read)]
  · rw [bitfields bitfield (closed.bitfieldsOf id bitfield listed)]

private theorem readBy_old {id : MethodId} (inside : id.index < before.methods.size) :
    after.readBy (after.method id).body = before.readBy (before.method id).body := by
  have held := closed.methodBody inside
  rw [methods id inside]
  cases body : (before.method id).body with
  | bitfield other =>
    rw [body] at held
    exact congrArg (fun found : Bitfield => some found.attr) (bitfields other (inRange_cons.mp held).1)
  | attr _ | expressions _ | code _ | external => rfl

private theorem methodView_old {id : MethodId} (inside : id.index < before.methods.size)
    (names : ∀ attr : AttributeId, attr.index < before.attributes.size →
      (after.attr attr).name = (before.attr attr).name) :
    after.methodView id = before.methodView id := by
  have read := readBy_old closed methods bitfields inside
  rw [methods id inside] at read
  refine methodView_congr (methods id inside) ?_
  rw [read]
  exact Option.map_congr fun attr known => names attr (closed.readBy inside attr known)

end Old

section Added

variable {model : Model}

theorem record_withMethod (added : Method) (id : RecordId) :
    (model.withMethod added).record id =
      if added.owner = id ∧ id.index < model.records.size then
        { model.record id with methods := (model.record id).methods ++ [⟨model.methods.size⟩] }
      else model.record id :=
  record_modifyRecord (model.pushMethod added) added.owner id _

theorem record_withReadAttribute {added : Attribute} {accessor : Method}
    (same : accessor.owner = added.owner) (id : RecordId) :
    (model.withReadAttribute added accessor).record id =
      if added.owner = id ∧ id.index < model.records.size then
        { model.record id with
          attributes := (model.record id).attributes ++ [⟨model.attributes.size⟩]
          methods := (model.record id).methods ++ [⟨model.methods.size⟩] }
      else model.record id := by
  have listed : (model.withAttribute added).record id =
      if added.owner = id ∧ id.index < model.records.size then
        { model.record id with
          attributes := (model.record id).attributes ++ [⟨model.attributes.size⟩] }
      else model.record id :=
    record_modifyRecord (model.pushAttribute added) added.owner id _
  have size : (model.withAttribute added).records.size = model.records.size := Array.size_modify ..
  have record : ((model.withAttribute added).withMethod accessor).record id = _ :=
    record_withMethod accessor id
  rw [size, same, listed] at record
  refine record.trans ?_
  split <;> rfl

theorem recordView_withMethod (closed : model.Closed) {added : Method}
    (owned : added.owner.index < model.records.size) (id : RecordId) :
    (model.withMethod added).recordView id =
      if added.owner = id then
        { model.recordView id with
          methods := (model.recordView id).methods ++
            [added.view ((model.readBy added.body).map fun attr => (model.attr attr).name)] }
      else model.recordView id := by
  have method : ∀ other, (model.withMethod added).method other =
      if other.index = model.methods.size then added else model.method other :=
    method_pushMethod model added
  have old : ∀ other : MethodId, other.index < model.methods.size →
      (model.withMethod added).method other = model.method other := fun other inside => by
    rw [method, if_neg (Nat.ne_of_lt inside)]
  have attributes : ∀ attr ∈ (model.record id).attributes,
      (model.withMethod added).attributeView attr = model.attributeView attr := fun attr listed =>
    attributeView_old closed old (fun _ _ => rfl) (closed.recordAttributes id attr listed) rfl
  have methods : ∀ other ∈ (model.record id).methods,
      (model.withMethod added).methodView other = model.methodView other := fun other listed =>
    methodView_old closed old (fun _ _ => rfl) (closed.recordMethods id other listed) fun _ _ => rfl
  have last : (model.withMethod added).methodView ⟨model.methods.size⟩ =
      added.view ((model.readBy added.body).map fun attr => (model.attr attr).name) := by
    rw [methodView, method, if_pos rfl]
    rfl
  rw [recordView, record_withMethod]
  by_cases same : added.owner = id
  · subst same
    simp only [true_and, owned, if_true, List.map_append, List.map_singleton, last,
      List.map_congr_left attributes, List.map_congr_left methods]
    rfl
  · rw [if_neg fun both => same both.1, if_neg same, List.map_congr_left attributes,
      List.map_congr_left methods, recordView]

theorem recordView_withReadAttribute (closed : model.Closed) {added : Attribute} {accessor : Method}
    (owned : added.owner.index < model.records.size) (empty : added.bitfields = [])
    (owner : accessor.owner = added.owner) (body : accessor.body = .attr ⟨model.attributes.size⟩)
    (id : RecordId) :
    (model.withReadAttribute added accessor).recordView id =
      if added.owner = id then
        { model.recordView id with
          attributes := (model.recordView id).attributes ++ [⟨added.bare, some accessor.name, []⟩]
          methods := (model.recordView id).methods ++ [accessor.view (some added.name)] }
      else model.recordView id := by
  have attr := model.attr_withReadAttribute added accessor
  have method := model.method_withReadAttribute added accessor
  have old : ∀ other : MethodId, other.index < model.methods.size →
      (model.withReadAttribute added accessor).method other = model.method other :=
    fun other inside => by rw [method, if_neg (Nat.ne_of_lt inside)]
  have oldAttr : ∀ other : AttributeId, other.index < model.attributes.size →
      (model.withReadAttribute added accessor).attr other = model.attr other :=
    fun other inside => by rw [attr, if_neg (Nat.ne_of_lt inside)]
  have attributes : ∀ other ∈ (model.record id).attributes,
      (model.withReadAttribute added accessor).attributeView other = model.attributeView other :=
    fun other listed =>
      have inside := closed.recordAttributes id other listed
      attributeView_old closed old (fun _ _ => rfl) inside (oldAttr other inside)
  have methods : ∀ other ∈ (model.record id).methods,
      (model.withReadAttribute added accessor).methodView other = model.methodView other :=
    fun other listed =>
      methodView_old closed old (fun _ _ => rfl) (closed.recordMethods id other listed)
        fun read inside => by rw [oldAttr read inside]
  have lastAttribute : (model.withReadAttribute added accessor).attributeView
      ⟨model.attributes.size⟩ = ⟨added.bare, some accessor.name, []⟩ := by
    simp only [attributeView, attr, if_true, method, empty, Attribute.bare, Option.map_some,
      List.map_nil]
  have lastMethod : (model.withReadAttribute added accessor).methodView ⟨model.methods.size⟩ =
      accessor.view (some added.name) := by
    simp only [methodView, method, if_true, body, readBy, Option.map_some, attr]
  rw [recordView, record_withReadAttribute owner]
  by_cases same : added.owner = id
  · subst same
    simp only [true_and, owned, if_true, List.map_append, List.map_singleton, lastAttribute,
      lastMethod, List.map_congr_left attributes, List.map_congr_left methods]
    rfl
  · rw [if_neg fun both => same both.1, if_neg same, List.map_congr_left attributes,
      List.map_congr_left methods, recordView]

section ReadBitfield

variable (closed : model.Closed) (added : Bitfield) (accessor : Method)

private theorem record_withReadBitfield (id : RecordId) :
    (model.withReadBitfield added accessor).record id =
    if accessor.owner = id ∧ id.index < model.records.size then
      { model.record id with methods := (model.record id).methods ++ [⟨model.methods.size⟩] }
    else model.record id :=
  @record_withMethod (model.withBitfield added) accessor id

private theorem method_withReadBitfield_old {other : MethodId} (inside : other.index < model.methods.size) :
    (model.withReadBitfield added accessor).method other = model.method other := by
  rw [method_withReadBitfield, if_neg (Nat.ne_of_lt inside)]

private theorem bitfield_withReadBitfield_old {other : BitfieldId}
    (inside : other.index < model.bitfields.size) :
    (model.withReadBitfield added accessor).bitfield other = model.bitfield other := by
  rw [bitfield_withReadBitfield, if_neg (Nat.ne_of_lt inside)]

private theorem name_withReadBitfield (other : AttributeId) :
    ((model.withReadBitfield added accessor).attr other).name = (model.attr other).name := by
  rw [attr_withReadBitfield]
  split <;> rfl

include closed

private theorem attributeView_withReadBitfield_ne {other : AttributeId}
    (inside : other.index < model.attributes.size) (different : other ≠ added.attr) :
    (model.withReadBitfield added accessor).attributeView other = model.attributeView other :=
  attributeView_old closed (fun _ => method_withReadBitfield_old added accessor)
    (fun _ => bitfield_withReadBitfield_old added accessor) inside
    (by rw [attr_withReadBitfield, if_neg fun both => different both.1.symm])

private theorem methodView_withReadBitfield_old {other : MethodId}
    (inside : other.index < model.methods.size) :
    (model.withReadBitfield added accessor).methodView other = model.methodView other :=
  methodView_old closed (fun _ => method_withReadBitfield_old added accessor)
    (fun _ => bitfield_withReadBitfield_old added accessor) inside
    fun read _ => name_withReadBitfield added accessor read

/-- The attribute of a bitfield has the bitfield last. -/
theorem attributeView_withReadBitfield_attr (owned : added.attr.index < model.attributes.size) :
    (model.withReadBitfield added accessor).attributeView added.attr =
      { model.attributeView added.attr with
        bitfields := (model.attributeView added.attr).bitfields ++ [added.bare] } := by
  have bitfields : ∀ other ∈ (model.attr added.attr).bitfields,
      ((model.withReadBitfield added accessor).bitfield other).bare = (model.bitfield other).bare :=
    fun other member => by
      rw [bitfield_withReadBitfield_old added accessor (closed.bitfieldsOf _ other member)]
  have accessors : ∀ other ∈ (model.attr added.attr).accessor,
      ((model.withReadBitfield added accessor).method other).name = (model.method other).name :=
    fun other read => by
      rw [method_withReadBitfield_old added accessor ((closed.attr owned).accessor other read)]
  have new : ((model.withReadBitfield added accessor).bitfield ⟨model.bitfields.size⟩).bare =
      added.bare := by
    rw [bitfield_withReadBitfield, if_pos rfl]
    rfl
  rw [attributeView, attr_withReadBitfield, if_pos ⟨rfl, owned⟩]
  simp only [List.map_append, List.map_singleton, List.map_congr_left bitfields,
    Option.map_congr accessors, new]
  rfl

end ReadBitfield

/-- The attribute of a bitfield, the last one of its type, and the type. -/
theorem recordView_withReadBitfield (linked : model.Linked) {added : Bitfield} {accessor : Method}
    (owned : added.attr.index < model.attributes.size)
    (owner : accessor.owner = (model.attr added.attr).owner)
    (body : accessor.body = .bitfield ⟨model.bitfields.size⟩) :
    (∀ id, id ≠ accessor.owner →
      (model.withReadBitfield added accessor).recordView id = model.recordView id) ∧
      ∀ front, (model.record accessor.owner).attributes = front ++ [added.attr] →
        (model.withReadBitfield added accessor).recordView accessor.owner =
          { model.recordView accessor.owner with
            attributes := front.map model.attributeView ++
              [{ model.attributeView added.attr with
                bitfields := (model.attributeView added.attr).bitfields ++ [added.bare] }]
            methods := (model.recordView accessor.owner).methods ++
              [accessor.view (some (model.attr added.attr).name)] } := by
  have closed := linked.closed
  have methods : ∀ id, ∀ other ∈ (model.record id).methods,
      (model.withReadBitfield added accessor).methodView other = model.methodView other :=
    fun id other listed =>
      methodView_withReadBitfield_old closed added accessor (closed.recordMethods id other listed)
  constructor
  · intro id different
    refine recordView_congr ?_ (fun other listed => ?_) (methods id)
    · rw [record_withReadBitfield, if_neg fun both => different both.1.symm]
    · have inside := closed.recordAttributes id other listed
      refine attributeView_withReadBitfield_ne closed added accessor inside fun same => different ?_
      rw [owner, ← same, (linked.attributes.mem_iff inside).mp listed]
  · intro front split
    have holder : accessor.owner.index < model.records.size := by
      rw [owner]
      exact (closed.attr owned).owner
    have listed : ∀ other ∈ front, other ∈ (model.record accessor.owner).attributes :=
      fun other member => split ▸ List.mem_append_left _ member
    have distinct := linked.attributes.nodup (closed.recordAttributes accessor.owner)
    rw [split, List.nodup_append] at distinct
    have attributes : ∀ other ∈ front,
        (model.withReadBitfield added accessor).attributeView other = model.attributeView other :=
      fun other member => attributeView_withReadBitfield_ne closed added accessor
        (closed.recordAttributes _ other (listed other member))
        (distinct.2.2 other member added.attr List.mem_cons_self)
    have lastMethod : (model.withReadBitfield added accessor).methodView ⟨model.methods.size⟩ =
        accessor.view (some (model.attr added.attr).name) := by
      simp only [methodView, method_withReadBitfield, if_true, body, readBy, Option.map_some,
        bitfield_withReadBitfield, name_withReadBitfield]
    rw [recordView, record_withReadBitfield, if_pos ⟨rfl, holder⟩, split]
    simp only [List.map_append, List.map_singleton,
      attributeView_withReadBitfield_attr closed added accessor owned, lastMethod,
      List.map_congr_left attributes, List.map_congr_left (methods accessor.owner)]
    rfl

end Added

end RecordSchema.Model
