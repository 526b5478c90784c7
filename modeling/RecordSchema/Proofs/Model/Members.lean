import RecordSchema.Proofs.Model.Linkage

/-!
# Members of record types

An attribute or method is added and listed by its record type, a bitfield is added and listed by its
attribute. Each of the three keeps everything linked; whether there is an accessor for it is another
matter.
-/

set_option autoImplicit false

namespace RecordSchema.Model

variable (model : Model)

/-- The model with one more attribute, listed by its owner. -/
def withAttribute (added : Attribute) : Model :=
  (model.pushAttribute added).modifyRecord added.owner fun record =>
    { record with attributes := record.attributes ++ [⟨model.attributes.size⟩] }

/-- The model with one more method, listed by its owner. -/
def withMethod (added : Method) : Model :=
  (model.pushMethod added).modifyRecord added.owner fun record =>
    { record with methods := record.methods ++ [⟨model.methods.size⟩] }

/-- The model with one more bitfield, listed by its attribute. -/
def withBitfield (added : Bitfield) : Model :=
  (model.pushBitfield added).modifyAttribute added.attr fun attr =>
    { attr with bitfields := attr.bitfields ++ [⟨model.bitfields.size⟩] }

section Census

@[simp] theorem census_withAttribute (added : Attribute) :
    (model.withAttribute added).census =
      { model.census with attributes := model.attributes.size + 1 } := by
  rw [withAttribute, census_modifyRecord, census_pushAttribute]

@[simp] theorem census_withMethod (added : Method) :
    (model.withMethod added).census = { model.census with methods := model.methods.size + 1 } := by
  rw [withMethod, census_modifyRecord, census_pushMethod]

@[simp] theorem census_withBitfield (added : Bitfield) :
    (model.withBitfield added).census =
      { model.census with bitfields := model.bitfields.size + 1 } := by
  rw [withBitfield, census_modifyAttribute, census_pushBitfield]

theorem census_le_withAttribute (added : Attribute) :
    model.census ≤ (model.withAttribute added).census := by
  rw [withAttribute, census_modifyRecord]
  exact model.census_le_pushAttribute added

theorem census_le_withBitfield (added : Bitfield) :
    model.census ≤ (model.withBitfield added).census := by
  rw [withBitfield, census_modifyAttribute]
  exact model.census_le_pushBitfield added

end Census

/-- Scopes do not depend on attributes, bitfields and methods. -/
theorem WellScoped.of_scopes {before after : Model} (wellScoped : before.WellScoped)
    (packages : after.packages = before.packages) (roots : after.roots = before.roots)
    (enumerations : after.enumerations = before.enumerations)
    (constants : after.constants = before.constants)
    (records : after.records.size = before.records.size)
    (package : ∀ id, (after.record id).package = (before.record id).package)
    (recordConstants : ∀ id, (after.record id).constants = (before.record id).constants)
    (recordEnumerations : ∀ id, (after.record id).enumerations = (before.record id).enumerations)
    (closed : after.Closed) : after.WellScoped where
  closed := closed
  named := by
    refine wellScoped.named.congr ?_ ?_ ?_
    · rintro (id | id | id | id) <;>
        simp only [Member.reference, Reference.InRange, census, packages, records, enumerations,
          constants]
    · rintro (id | id | id | id)
      · simp only [home, Model.package, packages]
      · simp only [home, package]
      · simp only [home, enumeration, enumerations]
      · simp only [home, constant, constants]
    · rintro (_ | id | id)
      · simp only [contents, roots]
      · simp only [contents, Model.package, packages]
      · simp only [contents, recordConstants, recordEnumerations]
  parentBefore id inside parent found := by
    rw [packages] at inside
    simp only [Model.package, packages] at found
    exact wellScoped.parentBefore id inside parent found

variable {model}

theorem Linked.withAttribute (linked : model.Linked) {added : Attribute}
    (owned : added.owner.index < model.records.size)
    (closed : added.Closed (model.pushAttribute added).census) (empty : added.bitfields = []) :
    (model.withAttribute added).Linked := by
  have grown := model.census_le_pushAttribute added
  have pushed := (linked.closed.mono grown).pushAttribute added (Attribute.closed_iff.mp closed)
  have attr : ∀ id, (model.withAttribute added).attr id =
      if id.index = model.attributes.size then added else model.attr id :=
    attr_pushAttribute model added
  have record : ∀ id, (model.withAttribute added).record id =
      if added.owner = id ∧ id.index < model.records.size then
        { model.record id with
          attributes := (model.record id).attributes ++ [⟨model.attributes.size⟩] }
      else model.record id :=
    fun id => record_modifyRecord (model.pushAttribute added) added.owner id _
  constructor
  case toWellScoped =>
    refine linked.toWellScoped.of_scopes rfl rfl rfl rfl (Array.size_modify ..) ?_ ?_ ?_ ?_
    iterate 3
      intro id
      rw [record]
      split <;> rfl
    rw [Closed, Model.withAttribute, census_modifyRecord]
    refine pushed.modifyRecord added.owner fun item inRange => ?_
    have held := Record.closed_iff.mpr inRange
    refine Record.closed_iff.mp { held with attributes := ?_ }
    intro id member
    rcases List.mem_append.mp member with old | new
    · exact held.attributes id old
    · cases List.mem_singleton.mp new
      simp
  case attributes =>
    refine linked.attributes.append ⟨model.attributes.size⟩ (Nat.lt_irrefl _) linked.closed.recordAttributes
      (fun id inside => (lt_push inside).imp_right AttributeId.ext) ?_ ?_
    · intro id inside
      rw [attr, if_neg (Nat.ne_of_lt inside)]
    · intro place
      rw [record, attr, if_pos rfl]
      by_cases same : added.owner = place
      · subst same
        rw [if_pos ⟨rfl, owned⟩, if_pos rfl]
      · rw [if_neg (fun both => same both.1), if_neg same]
  case methods =>
    refine linked.methods.congr (fun _ => Iff.rfl) (fun _ => rfl) ?_
    intro place
    rw [record]
    split <;> rfl
  case bitfields =>
    refine linked.bitfields.congr (fun _ => Iff.rfl) (fun _ => rfl) ?_
    intro place
    rw [attr]
    split
    · rename_i last
      have outside : ¬ place.index < model.attributes.size := by omega
      rw [empty, model.attr_eq_default outside]
      rfl
    · rfl

theorem Linked.withMethod (linked : model.Linked) (added : Method)
    (owned : added.owner.index < model.records.size)
    (closed : InRange model.census added.references) : (model.withMethod added).Linked := by
  have grown := model.census_le_pushMethod added
  have pushed := (linked.closed.mono grown).pushMethod added (closed.mono grown)
  have method : ∀ id, (model.withMethod added).method id =
      if id.index = model.methods.size then added else model.method id :=
    method_pushMethod model added
  have record : ∀ id, (model.withMethod added).record id =
      if added.owner = id ∧ id.index < model.records.size then
        { model.record id with methods := (model.record id).methods ++ [⟨model.methods.size⟩] }
      else model.record id :=
    fun id => record_modifyRecord (model.pushMethod added) added.owner id _
  constructor
  case toWellScoped =>
    refine linked.toWellScoped.of_scopes rfl rfl rfl rfl (Array.size_modify ..) ?_ ?_ ?_ ?_
    iterate 3
      intro id
      rw [record]
      split <;> rfl
    rw [Closed, Model.withMethod, census_modifyRecord]
    refine pushed.modifyRecord added.owner fun item inRange => ?_
    have held := Record.closed_iff.mpr inRange
    refine Record.closed_iff.mp { held with methods := ?_ }
    intro id member
    rcases List.mem_append.mp member with old | new
    · exact held.methods id old
    · cases List.mem_singleton.mp new
      simp
  case attributes =>
    refine linked.attributes.congr (fun _ => Iff.rfl) (fun _ => rfl) ?_
    intro place
    rw [record]
    split <;> rfl
  case methods =>
    refine linked.methods.append ⟨model.methods.size⟩ (Nat.lt_irrefl _) linked.closed.recordMethods
      (fun id inside => (lt_push inside).imp_right MethodId.ext) ?_ ?_
    · intro id inside
      rw [method, if_neg (Nat.ne_of_lt inside)]
    · intro place
      rw [record, method, if_pos rfl]
      by_cases same : added.owner = place
      · subst same
        rw [if_pos ⟨rfl, owned⟩, if_pos rfl]
      · rw [if_neg (fun both => same both.1), if_neg same]
  case bitfields =>
    exact linked.bitfields.congr (fun _ => Iff.rfl) (fun _ => rfl) fun _ => rfl

theorem Linked.withBitfield (linked : model.Linked) {added : Bitfield}
    (owned : added.attr.index < model.attributes.size)
    (closed : InRange model.census added.references) : (model.withBitfield added).Linked := by
  have grown := model.census_le_pushBitfield added
  have pushed := (linked.closed.mono grown).pushBitfield added (closed.mono grown)
  have bitfield : ∀ id, (model.withBitfield added).bitfield id =
      if id.index = model.bitfields.size then added else model.bitfield id :=
    bitfield_pushBitfield model added
  have attr : ∀ id, (model.withBitfield added).attr id =
      if added.attr = id ∧ id.index < model.attributes.size then
        { model.attr id with
          bitfields := (model.attr id).bitfields ++ [⟨model.bitfields.size⟩] }
      else model.attr id :=
    fun id => attr_modifyAttribute (model.pushBitfield added) added.attr id _
  constructor
  case toWellScoped =>
    refine linked.toWellScoped.of_scopes rfl rfl rfl rfl rfl (fun _ => rfl) (fun _ => rfl)
      (fun _ => rfl) ?_
    rw [Closed, Model.withBitfield, census_modifyAttribute]
    refine pushed.modifyAttribute added.attr fun item inRange => ?_
    have held := Attribute.closed_iff.mpr inRange
    refine Attribute.closed_iff.mp { held with bitfields := ?_ }
    intro id member
    rcases List.mem_append.mp member with old | new
    · exact held.bitfields id old
    · cases List.mem_singleton.mp new
      simp
  case attributes =>
    refine linked.attributes.congr ?_ ?_ fun _ => rfl
    · intro id
      exact Iff.of_eq (congrArg (id.index < ·) (Array.size_modify ..))
    · intro id
      rw [attr]
      split <;> rfl
  case methods =>
    exact linked.methods.congr (fun _ => Iff.rfl) (fun _ => rfl) fun _ => rfl
  case bitfields =>
    refine linked.bitfields.append ⟨model.bitfields.size⟩ (Nat.lt_irrefl _) linked.closed.bitfieldsOf
      (fun id inside => (lt_push inside).imp_right BitfieldId.ext) ?_ ?_
    · intro id inside
      rw [bitfield, if_neg (Nat.ne_of_lt inside)]
    · intro place
      rw [attr, bitfield, if_pos rfl]
      by_cases same : added.attr = place
      · subst same
        rw [if_pos ⟨rfl, owned⟩, if_pos rfl]
      · rw [if_neg (fun both => same both.1), if_neg same]

/-- Accessors stay when declarations are added that have accessors of their own. What was there keeps
its owner and its accessor, as all of them are in range. -/
theorem Sound.accessible {before after : Model} (sound : before.Sound)
    (attributes : ∀ id : AttributeId, id.index < before.attributes.size →
      (after.attr id).owner = (before.attr id).owner ∧
        (after.attr id).accessor = (before.attr id).accessor)
    (bitfields : ∀ id : BitfieldId, id.index < before.bitfields.size →
      (after.bitfield id).attr = (before.bitfield id).attr ∧
        (after.bitfield id).accessor = (before.bitfield id).accessor)
    (methods : ∀ id : MethodId, id.index < before.methods.size →
      after.method id = before.method id)
    (newAttributes : ∀ id : AttributeId, ¬ id.index < before.attributes.size →
      id.index < after.attributes.size →
        ∃ method, (after.attr id).accessor = some method ∧ (after.method method).body = .attr id ∧
          (after.method method).owner = (after.attr id).owner)
    (newBitfields : ∀ id : BitfieldId, ¬ id.index < before.bitfields.size →
      id.index < after.bitfields.size →
        ∃ method, (after.bitfield id).accessor = some method ∧
          (after.method method).body = .bitfield id ∧
          (after.method method).owner = (after.attr (after.bitfield id).attr).owner)
    (newMethods : ∀ id : MethodId, ¬ id.index < before.methods.size →
      id.index < after.methods.size → ∀ attr, (after.method id).body = .attr attr →
        (after.attr attr).owner = (after.method id).owner) : after.Accessible where
  accessor id inside := by
    by_cases old : id.index < before.attributes.size
    · obtain ⟨method, found, body, owner⟩ := sound.accessor id old
      have there := (sound.closed.attr old).accessor method found
      exact ⟨method, by rw [(attributes id old).2, found], by rw [methods method there, body],
        by rw [methods method there, (attributes id old).1, owner]⟩
    · exact newAttributes id old inside
  bitfieldAccessor id inside := by
    by_cases old : id.index < before.bitfields.size
    · obtain ⟨method, found, body, owner⟩ := sound.bitfieldAccessor id old
      have there := sound.closed.bitfieldAccessor old method found
      have known := sound.closed.bitfieldAttr old
      refine ⟨method, by rw [(bitfields id old).2, found], by rw [methods method there, body], ?_⟩
      rw [methods method there, (bitfields id old).1, (attributes _ known).1, owner]
    · exact newBitfields id old inside
  reader id inside attr body := by
    by_cases old : id.index < before.methods.size
    · rw [methods id old] at body ⊢
      have held := sound.closed.methodBody old
      rw [body] at held
      rw [(attributes attr (inRange_cons.mp held).1).1]
      exact sound.reader id old attr body
    · exact newMethods id old inside attr body

/-!
## Declarations that come with an accessor
-/

section Accessors

variable (model)

/-- The model with one more attribute and the method that reads it. -/
def withReadAttribute (added : Attribute) (accessor : Method) : Model :=
  ((model.withAttribute added).withMethod accessor).modifyAttribute ⟨model.attributes.size⟩
    fun current => { current with accessor := some ⟨model.methods.size⟩ }

/-- The model with one more bitfield and the method that reads it. -/
def withReadBitfield (added : Bitfield) (accessor : Method) : Model :=
  ((model.withBitfield added).withMethod accessor).modifyBitfield ⟨model.bitfields.size⟩
    fun current => { current with accessor := some ⟨model.methods.size⟩ }

theorem census_withReadAttribute (added : Attribute) (accessor : Method) :
    (model.withReadAttribute added accessor).census =
      { model.census with
        attributes := model.attributes.size + 1
        methods := model.methods.size + 1 } := by
  rw [withReadAttribute, census_modifyAttribute, census_withMethod, census_withAttribute]
  rfl

theorem census_withReadBitfield (added : Bitfield) (accessor : Method) :
    (model.withReadBitfield added accessor).census =
      { model.census with
        bitfields := model.bitfields.size + 1
        methods := model.methods.size + 1 } := by
  rw [withReadBitfield, census_modifyBitfield, census_withMethod, census_withBitfield]
  rfl

theorem attr_withReadAttribute (added : Attribute) (accessor : Method) (id : AttributeId) :
    (model.withReadAttribute added accessor).attr id =
      if id.index = model.attributes.size then
        { added with accessor := some ⟨model.methods.size⟩ }
      else model.attr id := by
  have pushed : ((model.withAttribute added).withMethod accessor).attr id =
      if id.index = model.attributes.size then added else model.attr id :=
    attr_pushAttribute model added id
  rw [withReadAttribute, attr_modifyAttribute, pushed]
  by_cases last : id.index = model.attributes.size
  · have same : (⟨model.attributes.size⟩ : AttributeId) = id := AttributeId.ext last.symm
    have inside : id.index < ((model.withAttribute added).withMethod accessor).attributes.size := by
      simp [withMethod, withAttribute, modifyRecord, pushMethod, pushAttribute, last]
    rw [if_pos ⟨same, inside⟩, if_pos last, if_pos last]
  · have different : (⟨model.attributes.size⟩ : AttributeId) ≠ id := fun same =>
      last (congrArg AttributeId.index same).symm
    rw [if_neg fun both => different both.1, if_neg last, if_neg last]

theorem attr_withReadBitfield (added : Bitfield) (accessor : Method) (id : AttributeId) :
    (model.withReadBitfield added accessor).attr id =
      if added.attr = id ∧ id.index < model.attributes.size then
        { model.attr id with
          bitfields := (model.attr id).bitfields ++ [⟨model.bitfields.size⟩] }
      else model.attr id :=
  attr_modifyAttribute (model.pushBitfield added) added.attr id _

theorem bitfield_withReadBitfield (added : Bitfield) (accessor : Method) (id : BitfieldId) :
    (model.withReadBitfield added accessor).bitfield id =
      if id.index = model.bitfields.size then
        { added with accessor := some ⟨model.methods.size⟩ }
      else model.bitfield id := by
  have pushed : ((model.withBitfield added).withMethod accessor).bitfield id =
      if id.index = model.bitfields.size then added else model.bitfield id :=
    bitfield_pushBitfield model added id
  rw [withReadBitfield, bitfield_modifyBitfield, pushed]
  by_cases last : id.index = model.bitfields.size
  · have same : (⟨model.bitfields.size⟩ : BitfieldId) = id := BitfieldId.ext last.symm
    have inside : id.index < ((model.withBitfield added).withMethod accessor).bitfields.size := by
      simp [withMethod, withBitfield, modifyRecord, modifyAttribute, pushMethod, pushBitfield, last]
    rw [if_pos ⟨same, inside⟩, if_pos last, if_pos last]
  · have different : (⟨model.bitfields.size⟩ : BitfieldId) ≠ id := fun same =>
      last (congrArg BitfieldId.index same).symm
    rw [if_neg fun both => different both.1, if_neg last, if_neg last]

theorem method_withReadAttribute (added : Attribute) (accessor : Method) (id : MethodId) :
    (model.withReadAttribute added accessor).method id =
      if id.index = model.methods.size then accessor else model.method id :=
  method_pushMethod (model.withAttribute added) accessor id

theorem method_withReadBitfield (added : Bitfield) (accessor : Method) (id : MethodId) :
    (model.withReadBitfield added accessor).method id =
      if id.index = model.methods.size then accessor else model.method id :=
  method_pushMethod (model.withBitfield added) accessor id

variable {model}

theorem Sound.withReadAttribute (sound : model.Sound) {added : Attribute} {accessor : Method}
    (closed : added.Closed model.census) (empty : added.bitfields = [])
    (references : InRange (model.withAttribute added).census accessor.references)
    (owner : accessor.owner = added.owner)
    (body : accessor.body = .attr ⟨model.attributes.size⟩) :
    (model.withReadAttribute added accessor).Sound := by
  have grown := model.census_le_pushAttribute added
  have owned : added.owner.index < model.records.size := closed.owner
  have added' : added.Closed (model.pushAttribute added).census :=
    Attribute.closed_iff.mpr ((Attribute.closed_iff.mp closed).mono grown)
  have listed := sound.toLinked.withAttribute owned added' empty
  have linked := listed.withMethod accessor
    (owner ▸ Nat.lt_of_lt_of_le owned (model.census_le_withAttribute added).records) references
  have attributes := congrArg Census.attributes (model.census_withReadAttribute added accessor)
  have readers := congrArg Census.methods (model.census_withReadAttribute added accessor)
  simp only [census] at attributes readers
  have attrs := model.attr_withReadAttribute added accessor
  have methods := model.method_withReadAttribute added accessor
  constructor
  case toLinked =>
    refine linked.of_sameLists (.modifyAttribute _ _ (fun _ => rfl) fun _ => rfl) ?_
    rw [Closed, Model.withReadAttribute, census_modifyAttribute]
    refine linked.closed.modifyAttribute _ fun item inRange => ?_
    refine Attribute.closed_iff.mp { Attribute.closed_iff.mpr inRange with accessor := ?_ }
    intro id member
    cases member
    simp [Model.withAttribute, modifyRecord, pushAttribute]
  case toAccessible =>
    refine sound.accessible ?_ (fun _ _ => ⟨rfl, rfl⟩) ?_ ?_ ?_ ?_
    · intro id inside
      rw [attrs, if_neg (Nat.ne_of_lt inside)]
      exact ⟨rfl, rfl⟩
    · intro id inside
      rw [methods, if_neg (Nat.ne_of_lt inside)]
    · intro id outside inside
      have last : id.index = model.attributes.size := by
        rw [attributes] at inside
        omega
      obtain rfl : id = ⟨model.attributes.size⟩ := AttributeId.ext last
      refine ⟨⟨model.methods.size⟩, ?_, ?_, ?_⟩
      · rw [attrs, if_pos rfl]
      · rw [methods, if_pos rfl, body]
      · rw [methods, if_pos rfl, attrs, if_pos rfl, owner]
    · intro id outside inside
      exact absurd inside outside
    · intro id outside inside attr read
      have last : id.index = model.methods.size := by
        rw [readers] at inside
        omega
      rw [methods, if_pos last] at read ⊢
      rw [body] at read
      cases read
      rw [attrs, if_pos rfl, owner]

theorem Sound.withReadBitfield (sound : model.Sound) {added : Bitfield} {accessor : Method}
    (closed : InRange model.census added.references)
    (references : InRange (model.withBitfield added).census accessor.references)
    (owner : accessor.owner = (model.attr added.attr).owner)
    (body : accessor.body = .bitfield ⟨model.bitfields.size⟩) :
    (model.withReadBitfield added accessor).Sound := by
  have owned : added.attr.index < model.attributes.size := (inRange_cons.mp closed).1
  have holder : accessor.owner.index < model.records.size := by
    rw [owner]
    exact (sound.closed.attr owned).owner
  have listed := sound.toLinked.withBitfield owned closed
  have linked := listed.withMethod accessor
    (Nat.lt_of_lt_of_le holder (model.census_le_withBitfield added).records) references
  have attributes := congrArg Census.attributes (model.census_withReadBitfield added accessor)
  have fields := congrArg Census.bitfields (model.census_withReadBitfield added accessor)
  have readers := congrArg Census.methods (model.census_withReadBitfield added accessor)
  simp only [census] at attributes fields readers
  have bitfields := model.bitfield_withReadBitfield added accessor
  have methods := model.method_withReadBitfield added accessor
  have attrs : ∀ id, ((model.withReadBitfield added accessor).attr id).owner = (model.attr id).owner ∧
      ((model.withReadBitfield added accessor).attr id).accessor = (model.attr id).accessor := by
    intro id
    have view := attr_modifyAttribute (model.pushBitfield added) added.attr id fun attr =>
      { attr with bitfields := attr.bitfields ++ [⟨model.bitfields.size⟩] }
    change ((model.withBitfield added).attr id).owner = _ ∧
      ((model.withBitfield added).attr id).accessor = _
    rw [Model.withBitfield, view]
    split <;> exact ⟨rfl, rfl⟩
  constructor
  case toLinked =>
    refine linked.of_sameLists (.modifyBitfield _ _ fun _ => rfl) ?_
    rw [Closed, Model.withReadBitfield, census_modifyBitfield]
    refine linked.closed.modifyBitfield _ fun item inRange => ?_
    simp only [Bitfield.references, inRange_append, inRange_map, Option.mem_toList] at inRange ⊢
    refine ⟨inRange.1, fun id member => ?_⟩
    cases member
    simp [Model.withBitfield, modifyAttribute, pushBitfield, Reference.InRange]
  case toAccessible =>
    refine sound.accessible (fun id _ => attrs id) ?_ ?_ ?_ ?_ ?_
    · intro id inside
      rw [bitfields, if_neg (Nat.ne_of_lt inside)]
      exact ⟨rfl, rfl⟩
    · intro id inside
      rw [methods, if_neg (Nat.ne_of_lt inside)]
    · intro id outside inside
      rw [attributes] at inside
      exact absurd inside outside
    · intro id outside inside
      have last : id.index = model.bitfields.size := by
        rw [fields] at inside
        omega
      obtain rfl : id = ⟨model.bitfields.size⟩ := BitfieldId.ext last
      refine ⟨⟨model.methods.size⟩, ?_, ?_, ?_⟩
      · rw [bitfields, if_pos rfl]
      · rw [methods, if_pos rfl, body]
      · rw [methods, if_pos rfl, bitfields, if_pos rfl, (attrs added.attr).1, owner]
    · intro id outside inside attr read
      have last : id.index = model.methods.size := by
        rw [readers] at inside
        omega
      rw [methods, if_pos last, body] at read
      cases read

end Accessors

end RecordSchema.Model

/-!
## The outline of a model

Names and headers draw the outline of a model: which packages, record types, enumerations and
constants there are, how they are called and where they stand. Whatever is filled in later leaves the
outline alone, and headers leave alone what names say.
-/

namespace RecordSchema

/-- What names and the header say of a record type. -/
def Record.outline (record : Record) : Record :=
  { record with constructors := [], attributes := [], methods := [], schemas := [] }

/-- What names say of a record type. -/
def Record.named (record : Record) : Record :=
  { name := record.name, package := record.package, pack := record.pack, comment := record.comment,
    constants := record.constants, enumerations := record.enumerations, included := record.included }

namespace Model

/-- Two models have the same places and names, and record types that look the same. -/
structure Retains (view : Record → Record) (before after : Model) : Prop where
  packages : after.packages = before.packages
  roots : after.roots = before.roots
  records : after.records.size = before.records.size
  enumerations : after.enumerations.size = before.enumerations.size
  constants : after.constants.size = before.constants.size
  view : ∀ id, view (after.record id) = view (before.record id)
  enumeration : ∀ id, (after.enumeration id).name = (before.enumeration id).name ∧
    (after.enumeration id).scope = (before.enumeration id).scope
  constant : ∀ id, (after.constant id).name = (before.constant id).name ∧
    (after.constant id).scope = (before.constant id).scope

namespace Retains

section View

variable {view : Record → Record} {before after : Model}

theorem refl (model : Model) : Retains view model model where
  packages := rfl
  roots := rfl
  records := rfl
  enumerations := rfl
  constants := rfl
  view _ := rfl
  enumeration _ := ⟨rfl, rfl⟩
  constant _ := ⟨rfl, rfl⟩

theorem trans {middle : Model} (first : Retains view before middle)
    (second : Retains view middle after) : Retains view before after where
  packages := second.packages.trans first.packages
  roots := second.roots.trans first.roots
  records := second.records.trans first.records
  enumerations := second.enumerations.trans first.enumerations
  constants := second.constants.trans first.constants
  view id := (second.view id).trans (first.view id)
  enumeration id := ⟨(second.enumeration id).1.trans (first.enumeration id).1,
    (second.enumeration id).2.trans (first.enumeration id).2⟩
  constant id := ⟨(second.constant id).1.trans (first.constant id).1,
    (second.constant id).2.trans (first.constant id).2⟩

/-- A field that the view shows. -/
theorem field {α : Type} (same : Retains view before after) (read : Record → α)
    (kept : ∀ record : Record, read (view record) = read record) (id : RecordId) :
    read (after.record id) = read (before.record id) := by
  rw [← kept, same.view, kept]

/-- Who sees less sees no more differences. -/
theorem coarsen {less : Record → Record} (same : Retains view before after)
    (seen : ∀ record, less (view record) = less record) : Retains less before after :=
  { same with view := fun id => by rw [← seen, same.view, seen] }

variable (model : Model)

theorem modifyRecord (id : RecordId) {change : Record → Record}
    (same : ∀ record, view (change record) = view record) :
    Retains view model (model.modifyRecord id change) :=
  { (refl model : Retains view model model) with
    records := Array.size_modify ..
    view := fun other => by rw [record_modifyRecord]; split <;> simp only [same] }

theorem modifyEnumeration (id : EnumId) {change : Enumeration → Enumeration}
    (name : ∀ item, (change item).name = item.name)
    (scope : ∀ item, (change item).scope = item.scope) :
    Retains view model (model.modifyEnumeration id change) :=
  { (refl model : Retains view model model) with
    enumerations := Array.size_modify ..
    enumeration := fun other => by
      rw [enumeration_modifyEnumeration]
      split
      · exact ⟨name _, scope _⟩
      · exact ⟨rfl, rfl⟩ }

theorem modifyConstant (id : ConstantId) {change : Constant → Constant}
    (name : ∀ item, (change item).name = item.name)
    (scope : ∀ item, (change item).scope = item.scope) :
    Retains view model (model.modifyConstant id change) :=
  { (refl model : Retains view model model) with
    constants := Array.size_modify ..
    constant := fun other => by
      rw [constant_modifyConstant]
      split
      · exact ⟨name _, scope _⟩
      · exact ⟨rfl, rfl⟩ }

end View

section Outline

variable {before after : Model}

theorem base (same : Retains Record.outline before after) (id : RecordId) :
    (after.record id).base = (before.record id).base :=
  same.field Record.base (fun _ => rfl) id

theorem named (same : Retains Record.outline before after) : Retains Record.named before after :=
  same.coarsen fun _ => rfl

variable (model : Model)

theorem withAttribute (added : Attribute) :
    Retains Record.outline model (model.withAttribute added) := by
  have listed : Retains Record.outline model (model.modifyRecord added.owner fun record =>
      { record with attributes := record.attributes ++ [⟨model.attributes.size⟩] }) :=
    modifyRecord model added.owner fun _ => rfl
  exact { listed with }

theorem withMethod (added : Method) : Retains Record.outline model (model.withMethod added) := by
  have listed : Retains Record.outline model (model.modifyRecord added.owner fun record =>
      { record with methods := record.methods ++ [⟨model.methods.size⟩] }) :=
    modifyRecord model added.owner fun _ => rfl
  exact { listed with }

theorem withBitfield (added : Bitfield) :
    Retains Record.outline model (model.withBitfield added) :=
  { (refl model : Retains Record.outline model model) with }

end Outline

end Retains

end Model

end RecordSchema
