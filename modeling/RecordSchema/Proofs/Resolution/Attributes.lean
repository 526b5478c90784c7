import RecordSchema.Proofs.Expr.References
import RecordSchema.Proofs.Model.Members
import RecordSchema.Proofs.Resolution.Lookup
import RecordSchema.Resolution.Methods

/-!
# Attributes, bitfields and methods keep a model sound

Each of them is added with everything that its declaration refers to in range, and attributes and
bitfields come with an accessor. An attribute that has been read is bounded in all dimensions but
the leading one, and it is not marked as stored.
-/

set_option autoImplicit false

namespace RecordSchema

open Model Outcome

/-- What declarations say of attributes: only the leading dimension may be without bound, and nothing
is known of storage and flags. -/
structure Attribute.Declared (attr : Attribute) : Prop where
  tail : ∀ dimension ∈ attr.shape.tail, ∃ count, dimension = .bounded count
  unstored : attr.stored = false
  unflagged : attr.configDependent = false

theorem Attribute.declared_default : (default : Attribute).Declared where
  tail := by
    intro dimension member
    cases member
  unstored := rfl
  unflagged := rfl

namespace Model

/-- What declarations say of methods: a body reads a config object only if the type names one, and no
bitfield of another type, and nothing is known of flags. -/
structure DeclaresMethod (model : Model) (method : Method) : Prop where
  unflagged : method.configDependent = false
  config : ∀ text ∈ method.body.texts, text.hasConfig = true →
    (model.record method.owner).configs ≠ []
  bitfield : ∀ bitfield, method.body = .bitfield bitfield →
    (model.attr (model.bitfield bitfield).attr).owner = method.owner

def DeclaresMethods (model : Model) : Prop :=
  ∀ id, model.DeclaresMethod (model.method id)

theorem declaresMethod_default (model : Model) : model.DeclaresMethod default where
  unflagged := rfl
  config _ none := nomatch none
  bitfield _ impossible := nomatch impossible

/-- Methods stay as declared if what they read does; what is new is declared in the same way. -/
theorem DeclaresMethods.extend {before after : Model} (declared : before.DeclaresMethods) (closed : before.Closed)
    (configs : ∀ id, (after.record id).configs = (before.record id).configs)
    (attributes : ∀ id : AttributeId, id.index < before.attributes.size →
      (after.attr id).owner = (before.attr id).owner)
    (bitfields : ∀ id : BitfieldId, id.index < before.bitfields.size →
      (after.bitfield id).attr = (before.bitfield id).attr)
    (methods : ∀ id : MethodId, id.index < before.methods.size →
      after.method id = before.method id)
    (new : ∀ id : MethodId, ¬ id.index < before.methods.size → after.DeclaresMethod (after.method id)) :
    after.DeclaresMethods := by
  intro id
  by_cases inside : id.index < before.methods.size
  · rw [methods id inside]
    refine ⟨(declared id).unflagged, fun text listed reads => ?_, fun bitfield read => ?_⟩
    · rw [configs]
      exact (declared id).config text listed reads
    · have held := closed.methodBody inside
      rw [read] at held
      have known : bitfield.index < before.bitfields.size := (inRange_cons.mp held).1
      rw [bitfields bitfield known, attributes _ (closed.bitfieldAttr known)]
      exact (declared id).bitfield bitfield read
  · exact new id inside

/-- A method that is added is the only one that is new. -/
theorem DeclaresMethods.added {before after : Model} {added : Method}
    (view : ∀ id, after.method id =
      if id.index = before.methods.size then added else before.method id)
    (declared : after.DeclaresMethod added) (id : MethodId) (outside : ¬ id.index < before.methods.size) :
    after.DeclaresMethod (after.method id) := by
  rw [view]
  split
  · exact declared
  · rw [before.method_eq_default outside]
    exact declaresMethod_default after

end Model

namespace Resolution

/-- What a step of resolution after the headers keeps. -/
structure Step (before after : Model) : Prop extends Retains Record.outline before after where
  sound : after.Sound
  declared : (∀ id, (before.attr id).Declared) → ∀ id, (after.attr id).Declared
  methods : before.DeclaresMethods → after.DeclaresMethods

theorem Step.refl {model : Model} (sound : model.Sound) : Step model model :=
  ⟨.refl model, sound, fun declared => declared, fun methods => methods⟩

theorem Step.trans {first middle last : Model} (before : Step first middle)
    (after : Step middle last) : Step first last where
  toRetains := before.toRetains.trans after.toRetains
  sound := after.sound
  declared := after.declared ∘ before.declared
  methods := after.methods ∘ before.methods

/-- A pass of steps, each from a model that the passes so far have left. -/
theorem Step.pass {α : Type} {items : List α} {step : Model → α → Except SchemaError Model}
    {start middle final : Model} (before : Step start middle)
    (accepted : items.foldlM step middle = .ok final)
    (steps : ∀ item ∈ items, ∀ state after, Step start state → step state item = .ok after →
      Step state after) : Step start final :=
  foldlM_preserves accepted (Step start) before fun item member state after kept taken =>
    kept.trans (steps item member state after kept taken)

theorem Step.foldlM {α : Type} {items : List α} {step : Model → α → Except SchemaError Model}
    {start final : Model} (accepted : items.foldlM step start = .ok final) (sound : start.Sound)
    (steps : ∀ item ∈ items, ∀ state after, Step start state → step state item = .ok after →
      Step state after) : Step start final :=
  (Step.refl sound).pass accepted steps

/-- A change to other fields, as long as what it stores is in range. -/
theorem Step.of_sameLinks {before after : Model} (sound : before.Sound)
    (same : SameLinks before after) (closed : after.ClosedFor before.census)
    (attributes : after.attributes = before.attributes) (methods : after.methods = before.methods)
    (outline : Retains Record.outline before after) : Step before after where
  toRetains := outline
  sound := sound.of_sameLinks same (by rw [Closed, same.census]; exact closed)
  declared declared id := by
    rw [Model.attr, attributes]
    exact declared id
  methods declared := by
    refine declared.extend sound.closed (outline.field Record.configs fun _ => rfl)
      (fun id _ => same.owner id) (fun id _ => same.attr id)
      (fun id _ => by rw [method, methods, method]) fun id outside => ?_
    rw [after.method_eq_default (methods ▸ outside)]
    exact declaresMethod_default after

/-!
## Reading attributes
-/

theorem exprContext_inRange {model : Model} (closed : model.Closed) {owner : RecordId}
    (inside : owner.index < model.records.size) (path : String) :
    InRange model.census (exprContext model owner path).references := by
  simp only [exprContext, Expr.Context.references, inRange_append, inRange_map, Option.mem_toList]
  constructor
  · intro id member
    cases member
    exact inside
  · intro id member
    exact closed.configs owner id (List.mem_of_head? member)

private theorem resolveDimension_references {context : Expr.Context} {position : Nat} {raw : String}
    {dimension : Dimension} (accepted : resolveDimension context position raw = .ok dimension) :
    ∀ reference ∈ dimension.references, reference ∈ context.references := by
  simp only [resolveDimension] at accepted
  split at accepted
  · split at accepted
    · cases accepted
      intro reference mentioned
      cases mentioned
    · cases accepted
  · split at accepted
    · cases accepted
    · obtain ⟨count, parsed, accepted⟩ := bind_ok accepted
      have same : dimension = .bounded count := by
        split at accepted
        · split at accepted
          · cases accepted
          · exact (Except.ok.inj accepted).symm
        · exact (Except.ok.inj accepted).symm
      subst same
      simpa [Dimension.references, Dimension.count?] using Expr.parse_references parsed

/-- A dimension without bound is the first of its shape. -/
theorem resolveDimension_bounded {context : Expr.Context} {position : Nat} {raw : String}
    {dimension : Dimension} (accepted : resolveDimension context position raw = .ok dimension)
    (inner : 0 < position) : ∃ count, dimension = .bounded count := by
  simp only [resolveDimension] at accepted
  split at accepted
  · rw [if_neg (Nat.ne_of_gt inner)] at accepted
    cases accepted
  · split at accepted
    · cases accepted
    · obtain ⟨count, parsed, accepted⟩ := bind_ok accepted
      refine ⟨count, ?_⟩
      split at accepted
      · split at accepted
        · cases accepted
        · exact (Except.ok.inj accepted).symm
      · exact (Except.ok.inj accepted).symm

private theorem resolveShape_ok {context : Expr.Context} {position : Nat} {raws : List String}
    {shape : List Dimension} (accepted : resolveShape context position raws = .ok shape) :
    (∀ dimension ∈ shape, ∀ reference ∈ dimension.references, reference ∈ context.references) ∧
      (0 < position → ∀ dimension ∈ shape, ∃ count, dimension = .bounded count) ∧
      ∀ dimension ∈ shape.tail, ∃ count, dimension = .bounded count := by
  induction raws generalizing position shape with
  | nil =>
    cases accepted
    simp
  | cons raw rest ih =>
    rw [resolveShape] at accepted
    obtain ⟨dimension, first, accepted⟩ := bind_ok accepted
    obtain ⟨dimensions, later, accepted⟩ := bind_ok accepted
    cases accepted
    obtain ⟨references, bounded, _⟩ := ih later
    refine ⟨?_, ?_, bounded (Nat.succ_pos position)⟩
    · exact List.forall_mem_cons.mpr ⟨resolveDimension_references first, references⟩
    · intro inner
      exact List.forall_mem_cons.mpr
        ⟨resolveDimension_bounded first inner, bounded (Nat.succ_pos position)⟩

/-- An attribute that has been read refers to what is there; nothing refers to it yet. -/
theorem readAttribute_ok {model : Model} (closed : model.Closed) {owner : RecordId}
    (inside : owner.index < model.records.size) {path : String}
    {declaration : Declaration.Attribute} {attr : Attribute}
    (accepted : readAttribute model owner path declaration = .ok attr) :
    attr.Closed model.census ∧ attr.Declared ∧ attr.owner = owner ∧ attr.bitfields = [] := by
  simp only [readAttribute] at accepted
  split at accepted
  · obtain ⟨type, typed, accepted⟩ := bind_ok accepted
    obtain ⟨shape, shaped, accepted⟩ := bind_ok accepted
    obtain ⟨declaredOffset, offset, accepted⟩ := bind_ok accepted
    obtain ⟨access, _, accepted⟩ := bind_ok accepted
    cases accepted
    have context := exprContext_inRange closed inside path
    obtain ⟨references, _, bounded⟩ := resolveShape_ok shaped
    refine ⟨?_, ⟨bounded, rfl, rfl⟩, rfl, rfl⟩
    constructor
    case owner => exact inside
    case type => exact closed.lookupType typed
    case shape =>
      intro dimension member reference mentioned
      exact context reference (references dimension member reference mentioned)
    case declaredOffset =>
      intro expr member
      obtain ⟨raw, _, parsed⟩ := option_mapM_ok offset expr member
      exact Expr.parse_inRange parsed context
    case offset | elementSize => exact inRange_nil
    all_goals simp
  · cases accepted

/-!
## Adding attributes, bitfields and methods
-/

private theorem addMethod_ok {model after : Model} {path : String} {method : Method} {id : MethodId}
    (accepted : addMethod model path method = .ok (after, id)) :
    after = model.withMethod method ∧ id = ⟨model.methods.size⟩ := by
  unfold addMethod at accepted
  dsimp only at accepted
  split at accepted
  · cases accepted
  · cases accepted
    exact ⟨rfl, rfl⟩

private theorem withMethod_step {model : Model} (sound : model.Sound) {method : Method}
    (owned : method.owner.index < model.records.size)
    (closed : InRange model.census method.references)
    (reader : ∀ attr, method.body = .attr attr → (model.attr attr).owner = method.owner)
    (declares : (model.withMethod method).DeclaresMethod method) :
    Step model (model.withMethod method) := by
  have view : ∀ id, (model.withMethod method).method id =
      if id.index = model.methods.size then method else model.method id :=
    method_pushMethod model method
  have outline := Retains.withMethod model method
  refine ⟨outline, ⟨sound.toLinked.withMethod method owned closed, ?_⟩, fun declared => declared,
    fun methods => ?_⟩
  · refine sound.accessible (fun _ _ => ⟨rfl, rfl⟩) (fun _ _ => ⟨rfl, rfl⟩) ?_ ?_ ?_ ?_
    · intro id inside
      rw [view, if_neg (Nat.ne_of_lt inside)]
    · intro id outside inside
      exact absurd inside outside
    · intro id outside inside
      exact absurd inside outside
    · intro id outside inside attr body
      have last : id.index = model.methods.size := by
        simp only [Model.withMethod, modifyRecord, pushMethod, Array.size_push] at inside
        omega
      rw [view, if_pos last] at body ⊢
      exact reader attr body
  · refine methods.extend sound.closed (outline.field Record.configs fun _ => rfl) (fun _ _ => rfl)
      (fun _ _ => rfl) (fun id inside => ?_) (DeclaresMethods.added view declares)
    rw [view, if_neg (Nat.ne_of_lt inside)]

/-- An attribute is added with its accessor. -/
theorem insertAttribute_ok {model after : Model} {path accessorName : String} {attr : Attribute}
    (accepted : insertAttribute model path accessorName attr = .ok after) :
    ∃ accessor : Method, accessor.owner = attr.owner ∧
      accessor.body = .attr ⟨model.attributes.size⟩ ∧
      accessor.references =
        .record attr.owner :: (attr.type.references ++ [.attr ⟨model.attributes.size⟩]) ∧
      accessor.configDependent = false ∧ after = model.withReadAttribute attr accessor := by
  simp only [insertAttribute] at accepted
  obtain ⟨⟨complete, accessor⟩, added, accepted⟩ := bind_ok accepted
  obtain ⟨rfl, rfl⟩ := addMethod_ok added
  cases accepted
  refine ⟨_, rfl, rfl, ?_, rfl, rfl⟩
  simp [Method.references, MethodBody.references]

theorem insertAttribute_step {model after : Model} (sound : model.Sound)
    {path accessorName : String} {attr : Attribute} (closed : attr.Closed model.census)
    (fresh : attr.Declared) (empty : attr.bitfields = [])
    (accepted : insertAttribute model path accessorName attr = .ok after) : Step model after := by
  obtain ⟨accessor, owner, body, references, unflagged, rfl⟩ := insertAttribute_ok accepted
  have grown := model.census_le_withAttribute attr
  have inRange : InRange (model.withAttribute attr).census accessor.references := by
    rw [references, inRange_cons, inRange_append]
    refine ⟨Reference.InRange.mono grown closed.owner, closed.type.mono grown, ?_⟩
    simp [Reference.InRange]
  have outline : Retains Record.outline model ((model.withAttribute attr).withMethod accessor) :=
    (Retains.withAttribute model attr).trans (.withMethod _ accessor)
  refine ⟨{ outline with }, sound.withReadAttribute closed empty inRange owner body, ?_, ?_⟩
  · intro declared id
    rw [attr_withReadAttribute]
    split
    · exact ⟨fresh.tail, fresh.unstored, fresh.unflagged⟩
    · exact declared id
  · intro declared
    have methods := model.method_withReadAttribute attr accessor
    refine declared.extend sound.closed (outline.field Record.configs fun _ => rfl) (fun id inside => ?_)
      (fun _ _ => rfl) (fun id inside => ?_) (DeclaresMethods.added methods ⟨unflagged, ?_, ?_⟩)
    · rw [attr_withReadAttribute, if_neg (Nat.ne_of_lt inside)]
    · rw [methods, if_neg (Nat.ne_of_lt inside)]
    · rw [body]
      intro text none
      cases none
    · rw [body]
      intro bitfield impossible
      cases impossible

/-- A bitfield is added with its accessor. -/
theorem insertBitfield_ok {model after : Model} {owner : RecordId} {access : Access}
    {path accessorName : String} {bitfield : Bitfield}
    (accepted : insertBitfield model owner access path accessorName bitfield = .ok after) :
    ∃ accessor : Method, accessor.owner = owner ∧
      accessor.body = .bitfield ⟨model.bitfields.size⟩ ∧
      accessor.references =
        .record owner :: (bitfield.type.references ++ [.bitfield ⟨model.bitfields.size⟩]) ∧
      accessor.configDependent = false ∧ after = model.withReadBitfield bitfield accessor := by
  simp only [insertBitfield] at accepted
  obtain ⟨⟨complete, accessor⟩, added, accepted⟩ := bind_ok accepted
  obtain ⟨rfl, rfl⟩ := addMethod_ok added
  cases accepted
  refine ⟨_, rfl, rfl, ?_, rfl, rfl⟩
  simp [Method.references, MethodBody.references]

theorem insertBitfield_step {model after : Model} (sound : model.Sound) {owner : RecordId}
    {access : Access} {path accessorName : String} {bitfield : Bitfield}
    (attr : bitfield.attr.index < model.attributes.size)
    (owned : (model.attr bitfield.attr).owner = owner)
    (type : InRange model.census bitfield.type.references) (unread : bitfield.accessor = none)
    (accepted : insertBitfield model owner access path accessorName bitfield = .ok after) :
    Step model after ∧ after.attributes.size = model.attributes.size ∧
      ∀ id, (after.attr id).owner = (model.attr id).owner := by
  obtain ⟨accessor, holder, body, references, unflagged, rfl⟩ := insertBitfield_ok accepted
  have grown := model.census_le_withBitfield bitfield
  have inside : owner.index < model.records.size := owned ▸ (sound.closed.attr attr).owner
  have inRange : InRange (model.withBitfield bitfield).census accessor.references := by
    rw [references, inRange_cons, inRange_append]
    refine ⟨Reference.InRange.mono grown inside, type.mono grown, ?_⟩
    simp [Reference.InRange]
  have closed : InRange model.census bitfield.references := by
    simp only [Bitfield.references, unread, inRange_append, inRange_cons]
    exact ⟨⟨attr, type⟩, inRange_nil⟩
  have attrs : ∀ id, (((model.withReadBitfield bitfield accessor).attr id).owner =
        (model.attr id).owner) ∧
      ((model.attr id).Declared →
        ((model.withReadBitfield bitfield accessor).attr id).Declared) := by
    intro id
    change ((model.withBitfield bitfield).attr id).owner = _ ∧
      (_ → ((model.withBitfield bitfield).attr id).Declared)
    rw [Model.withBitfield, attr_modifyAttribute]
    split
    · exact ⟨rfl, fun declared => ⟨declared.tail, declared.unstored, declared.unflagged⟩⟩
    · exact ⟨rfl, fun declared => declared⟩
  have outline : Retains Record.outline model ((model.withBitfield bitfield).withMethod accessor) :=
    (Retains.withBitfield model bitfield).trans (.withMethod _ accessor)
  refine ⟨⟨{ outline with }, sound.withReadBitfield closed inRange (holder.trans owned.symm) body, ?_,
    ?_⟩, ?_, fun id => (attrs id).1⟩
  · exact fun declared id => (attrs id).2 (declared id)
  · intro declared
    have methods := model.method_withReadBitfield bitfield accessor
    have bitfields := model.bitfield_withReadBitfield bitfield accessor
    refine declared.extend sound.closed (outline.field Record.configs fun _ => rfl)
      (fun id _ => (attrs id).1) (fun id inside => ?_) (fun id inside => ?_)
      (DeclaresMethods.added methods ⟨unflagged, ?_, ?_⟩)
    · rw [bitfields, if_neg (Nat.ne_of_lt inside)]
    · rw [methods, if_neg (Nat.ne_of_lt inside)]
    · rw [body]
      intro text none
      cases none
    · rw [body]
      rintro _ ⟨rfl⟩
      rw [bitfields, if_pos rfl, (attrs _).1, holder, owned]
  · exact congrArg Census.attributes (model.census_withReadBitfield bitfield accessor)

/-- What is done for a bitfield comes down to inserting it, with a type that is known. -/
theorem addBitfield_ok {context : BitfieldContext} {model : Model} {placed : List PlacedBits}
    {declaration : Declaration.Bitfield} {after : Model × List PlacedBits}
    (accepted : addBitfield context (model, placed) declaration = .ok after) :
    ∃ bitfield : Bitfield, bitfield.attr = context.attr ∧ bitfield.accessor = none ∧
      (model.Closed → InRange model.census bitfield.type.references) ∧
      insertBitfield model context.owner context.access (context.path ++ "." ++ declaration.name)
        (declaration.accessor.getD declaration.name) bitfield = .ok after.1 := by
  simp only [addBitfield] at accepted
  obtain ⟨found, _, accepted⟩ := bind_ok accepted
  split at accepted
  · obtain ⟨type, typed, accepted⟩ := bind_ok accepted
    obtain ⟨extended, one, accepted⟩ := bind_ok accepted
    cases accepted
    exact ⟨_, rfl, rfl, fun closed => closed.lookupType typed, one⟩
  · obtain ⟨type, typed, accepted⟩ := bind_ok accepted
    obtain ⟨extended, one, accepted⟩ := bind_ok accepted
    cases accepted
    cases typed
    exact ⟨_, rfl, rfl, fun _ => inRange_nil, one⟩

/-- What inserting a bitfield of an attribute keeps, adding all of them keeps. -/
theorem addBitfields_preserves {model after : Model} {owner : RecordId} {id : AttributeId}
    {path typeName : String} {declarations : List Declaration.Bitfield}
    (accepted : addBitfields model owner id path typeName declarations = .ok after)
    (property : Model → Prop) (start : property model)
    (insert : ∀ state next access path name (bitfield : Bitfield), property state →
      bitfield.attr = id → bitfield.accessor = none →
        (state.Closed → InRange state.census bitfield.type.references) →
          insertBitfield state owner access path name bitfield = .ok next → property next) :
    property after := by
  unfold addBitfields at accepted
  split at accepted
  · cases accepted
    exact start
  · split at accepted
    · cases accepted
    · rename_i storage _
      obtain ⟨⟨final, placed⟩, added, rfl⟩ := map_ok accepted
      refine foldlM_preserves added (fun state : Model × List PlacedBits => property state.1) start ?_
      rintro declaration _ ⟨state, before⟩ after holds taken
      obtain ⟨bitfield, attr, unread, known, one⟩ := addBitfield_ok taken
      exact insert state after.1 _ _ _ bitfield holds attr unread known one

/-- All bitfields of an attribute are added to it. -/
theorem addBitfields_step {model after : Model} (sound : model.Sound) {owner : RecordId}
    {id : AttributeId} (inside : id.index < model.attributes.size)
    (owned : (model.attr id).owner = owner) {path typeName : String}
    {declarations : List Declaration.Bitfield}
    (accepted : addBitfields model owner id path typeName declarations = .ok after) :
    Step model after := by
  refine (addBitfields_preserves accepted (fun state => Step model state ∧
    state.attributes.size = model.attributes.size ∧ (state.attr id).owner = owner)
    ⟨.refl sound, rfl, owned⟩ ?_).1
  rintro state next access path name bitfield ⟨step, size, holder⟩ rfl unread known one
  obtain ⟨later, same, owners⟩ :=
    insertBitfield_step step.sound (size ▸ inside) holder (known step.sound.closed) unread one
  exact ⟨step.trans later, same.trans size, (owners _).trans holder⟩

theorem addAttribute_ok {model after : Model} {owner : RecordId} {typePath : String}
    {declaration : Declaration.Attribute}
    (accepted : addAttribute owner typePath model declaration = .ok after) :
    ∃ attr extended,
      ((model.record owner).attributes.any fun id => (model.attr id).name == declaration.name) =
        false ∧
      readAttribute model owner (typePath ++ "." ++ declaration.name) declaration = .ok attr ∧
      insertAttribute model (typePath ++ "." ++ declaration.name)
        (declaration.accessor.getD attr.defaultAccessorName) attr = .ok extended ∧
      addBitfields extended owner ⟨model.attributes.size⟩ (typePath ++ "." ++ declaration.name)
        (declaration.typeName.getD "") declaration.bitfields = .ok after := by
  simp only [addAttribute, bind, Except.bind] at accepted
  split at accepted
  · cases accepted
  · split at accepted
    · cases accepted
    · rename_i fresh
      obtain ⟨attr, read, accepted⟩ := bind_ok accepted
      obtain ⟨extended, inserted, bitfields⟩ := bind_ok accepted
      exact ⟨attr, extended, eq_false_of_ne_true fresh, read, inserted, bitfields⟩

/-- An attribute that has been inserted is there, and belongs to its owner. -/
theorem insertAttribute_owned {model after : Model} {path accessorName : String} {attr : Attribute}
    (accepted : insertAttribute model path accessorName attr = .ok after) :
    model.attributes.size < after.attributes.size ∧
      (after.attr ⟨model.attributes.size⟩).owner = attr.owner := by
  obtain ⟨accessor, _, _, _, _, rfl⟩ := insertAttribute_ok accepted
  refine ⟨?_, ?_⟩
  · have size := congrArg Census.attributes (model.census_withReadAttribute attr accessor)
    exact Nat.lt_of_lt_of_eq (Nat.lt_succ_self _) size.symm
  · rw [attr_withReadAttribute, if_pos rfl]

theorem addAttribute_step {model after : Model} (sound : model.Sound) {owner : RecordId}
    (inside : owner.index < model.records.size) {typePath : String}
    {declaration : Declaration.Attribute}
    (accepted : addAttribute owner typePath model declaration = .ok after) : Step model after := by
  obtain ⟨attr, extended, _, read, inserted, bitfields⟩ := addAttribute_ok accepted
  obtain ⟨closed, tail, rfl, empty⟩ := readAttribute_ok sound.closed inside read
  have first := insertAttribute_step sound closed tail empty inserted
  obtain ⟨there, owned⟩ := insertAttribute_owned inserted
  exact first.trans (addBitfields_step first.sound there owned bitfields)

theorem resolveAttributes_step {model after : Model} (sound : model.Sound)
    {pending : Pending RecordId Declaration.Record}
    (inside : pending.id.index < model.records.size)
    (accepted : resolveAttributes model pending = .ok after) : Step model after :=
  .foldlM accepted sound fun _ _ _ _ kept taken =>
    addAttribute_step kept.sound (kept.records ▸ inside) taken

/-!
## Declared methods
-/

/-- What a body is put together from has been read where the method stands. -/
theorem bodyOf_texts {context : Expr.Context} {declaration : Declaration.Method} {body : MethodBody}
    (accepted : bodyOf context declaration = .ok body) :
    (∀ text ∈ body.texts, ∃ raw, Expr.parse context raw = .ok text) ∧
      body.references = body.texts.flatMap Expr.references ∧
      (∀ attr, body ≠ .attr attr) ∧ ∀ bitfield, body ≠ .bitfield bitfield := by
  have parsed : ∀ {raw : List (String × String)} {bodies : List (String × Expr)},
      parseBodies context raw = .ok bodies →
        ∀ text ∈ bodies.map (·.2), ∃ raw, Expr.parse context raw = .ok text := by
    intro raw bodies read text member
    obtain ⟨entry, held, rfl⟩ := List.mem_map.mp member
    obtain ⟨source, _, one⟩ := mapM_ok read entry held
    obtain ⟨value, taken, rfl⟩ := map_ok one
    exact ⟨_, taken⟩
  unfold bodyOf at accepted
  split at accepted
  · cases accepted
    exact ⟨fun _ none => (List.not_mem_nil none).elim, rfl, nofun, nofun⟩
  · obtain ⟨bodies, read, rfl⟩ := map_ok accepted
    exact ⟨parsed read, rfl, nofun, nofun⟩
  · obtain ⟨bodies, read, rfl⟩ := map_ok accepted
    exact ⟨parsed read, rfl, nofun, nofun⟩
  · cases accepted

private theorem bodyOf_inRange {census : Census} {context : Expr.Context} {declaration : Declaration.Method}
    {body : MethodBody} (accepted : bodyOf context declaration = .ok body)
    (inRange : InRange census context.references) : InRange census body.references := by
  obtain ⟨parsed, references, _⟩ := bodyOf_texts accepted
  rw [references, inRange_flatMap]
  intro text member
  obtain ⟨raw, read⟩ := parsed text member
  exact Expr.parse_inRange read inRange

/-- Tags change what a method says of itself, and nothing that links it to others. -/
theorem foldl_applyMethodTag (tags : List Tag) (method : Method) :
    ∃ inlined rawTags, tags.foldl applyMethodTag method =
      { method with inlined := inlined, tags := rawTags } := by
  induction tags generalizing method with
  | nil => exact ⟨_, _, rfl⟩
  | cons tag rest ih =>
    rw [List.foldl_cons]
    obtain ⟨inlined, rawTags, later⟩ := ih (applyMethodTag method tag)
    rw [later]
    unfold applyMethodTag
    split <;> exact ⟨_, _, rfl⟩

theorem addDeclaredMethod_ok {model after : Model} {owner : RecordId} {typePath : String}
    {declaration : Declaration.Method}
    (accepted : addDeclaredMethod owner typePath model declaration = .ok after) :
    ∃ result arguments body access,
      resultOf model owner (typePath ++ "." ++ declaration.name) declaration.typeName = .ok result ∧
      declaration.arguments.mapM
        (resolveArgument model owner (typePath ++ "." ++ declaration.name)) = .ok arguments ∧
      bodyOf (exprContext model owner (typePath ++ "." ++ declaration.name)) declaration = .ok body ∧
      after = model.withMethod ((Tag.parseAll declaration.tags).foldl applyMethodTag
        { name := declaration.name, owner, result, rank := declaration.rank.toNat, arguments, body,
          access, comment := declaration.comment }) := by
  simp only [addDeclaredMethod, bind, Except.bind] at accepted
  split at accepted
  · cases accepted
  · obtain ⟨result, returned, accepted⟩ := bind_ok accepted
    obtain ⟨arguments, taken, accepted⟩ := bind_ok accepted
    obtain ⟨body, read, accepted⟩ := bind_ok accepted
    obtain ⟨access, _, accepted⟩ := bind_ok accepted
    obtain ⟨⟨extended, id⟩, added, accepted⟩ := bind_ok accepted
    cases accepted
    obtain ⟨rfl, rfl⟩ := addMethod_ok added
    exact ⟨result, arguments, body, access, returned, taken, read, rfl⟩

theorem addDeclaredMethod_step {model after : Model} (sound : model.Sound) {owner : RecordId}
    (inside : owner.index < model.records.size) {typePath : String}
    {declaration : Declaration.Method}
    (accepted : addDeclaredMethod owner typePath model declaration = .ok after) :
    Step model after := by
  obtain ⟨result, arguments, body, access, returned, taken, read, rfl⟩ :=
    addDeclaredMethod_ok accepted
  obtain ⟨inlined, rawTags, same⟩ := foldl_applyMethodTag (Tag.parseAll declaration.tags)
    { name := declaration.name, owner, result, rank := declaration.rank.toNat, arguments, body,
      access, comment := declaration.comment }
  rw [same]
  have bodyInRange := bodyOf_inRange read (exprContext_inRange sound.closed inside _)
  obtain ⟨parsed, _, noAttribute, noBitfield⟩ := bodyOf_texts read
  refine withMethod_step sound inside ?_ (fun attr reads => absurd reads (noAttribute attr))
    ⟨rfl, fun text member reads => ?_, fun bitfield reads => absurd reads (noBitfield bitfield)⟩
  case refine_2 =>
    obtain ⟨raw, one⟩ := parsed text member
    have known := Expr.parse_hasConfig one reads
    rw [(Retains.withMethod model _).field Record.configs fun _ => rfl]
    intro none
    rw [exprContext, none] at known
    cases known
  simp only [Method.references, inRange_append, inRange_cons, inRange_flatMap, Option.mem_toList]
  refine ⟨⟨⟨inside, ?_⟩, ?_⟩, bodyInRange⟩
  · intro type member
    unfold resultOf at returned
    split at returned
    · cases returned
      cases member
    · split at returned
      · cases returned
        cases member
      · obtain ⟨found, looked, rfl⟩ := map_ok returned
        cases member
        exact sound.closed.lookupType looked
  · intro argument member
    obtain ⟨raw, _, one⟩ := mapM_ok taken argument member
    simp only [resolveArgument] at one
    obtain ⟨type, looked, one⟩ := bind_ok one
    cases one
    simp only [Argument.references, inRange_flatMap, Option.mem_toList]
    intro found known
    obtain ⟨name, _, named⟩ := option_mapM_ok looked found known
    exact sound.closed.lookupType named

theorem resolveMethods_step {model after : Model} (sound : model.Sound)
    {pending : Pending RecordId Declaration.Record}
    (inside : pending.id.index < model.records.size)
    (accepted : resolveMethods model pending = .ok after) : Step model after :=
  .foldlM accepted sound fun _ _ _ _ kept taken =>
    addDeclaredMethod_step kept.sound (kept.records ▸ inside) taken

end Resolution

end RecordSchema
