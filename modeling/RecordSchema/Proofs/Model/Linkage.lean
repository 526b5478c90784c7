import RecordSchema.Proofs.Model.References

/-!
# Linkage

Declarations refer to each other in both directions: a package lists its members and a member names
its package, a record type lists its attributes and an attribute names its owner, and so on. A model
is sound if both directions agree and nothing is listed twice. Changes that leave the links alone
keep a model sound, and so does naming a new declaration in a scope.
-/

set_option autoImplicit false

namespace RecordSchema

theorem mem_of_lookup {α β : Type} [BEq α] [LawfulBEq α] {entries : List (α × β)} {key : α}
    {value : β} (found : entries.lookup key = some value) : (key, value) ∈ entries := by
  obtain ⟨before, after, rfl, _⟩ := List.lookup_eq_some_iff.mp found
  simp

theorem lt_push {α : Type} {items : Array α} {added : α} {index : Nat}
    (inside : index < (items.push added).size) : index < items.size ∨ index = items.size := by
  rw [Array.size_push] at inside
  exact Nat.lt_succ_iff_lt_or_eq.mp inside

/-- Every item of a kind is listed once by its owner and by nobody else. -/
def ListedOnce {α β : Type} [DecidableEq α] [DecidableEq β] (valid : α → Prop) (owner : α → β)
    (lists : β → List α) : Prop :=
  ∀ item, valid item → ∀ place, (lists place).count item = if owner item = place then 1 else 0

namespace ListedOnce

variable {α β : Type} [DecidableEq α] [DecidableEq β] {valid later : α → Prop}
  {owner ownerLater : α → β} {lists listsLater : β → List α}

theorem congr (listed : ListedOnce valid owner lists) (sameItems : ∀ item, later item ↔ valid item)
    (sameOwner : ∀ item, ownerLater item = owner item)
    (sameLists : ∀ place, listsLater place = lists place) :
    ListedOnce later ownerLater listsLater := by
  intro item inRange place
  rw [sameLists, sameOwner]
  exact listed item ((sameItems item).mp inRange) place

/-- One more item is listed by its owner; it has not been listed before. -/
theorem insert (listed : ListedOnce valid owner lists) (added : α) (fresh : ¬ valid added)
    (unlisted : ∀ place, added ∉ lists place)
    (items : ∀ item, later item → valid item ∨ item = added)
    (sameOwner : ∀ item, valid item → ownerLater item = owner item)
    (counts : ∀ place item, (listsLater place).count item =
      (lists place).count item + if ownerLater added = place ∧ added = item then 1 else 0) :
    ListedOnce later ownerLater listsLater := by
  intro item inRange place
  rw [counts]
  rcases items item inRange with old | rfl
  · have different : added ≠ item := fun same => fresh (same ▸ old)
    rw [listed item old place, sameOwner item old]
    simp [different]
  · rw [List.count_eq_zero.mpr (unlisted place)]
    simp

/-- One more item comes last in the list of its owner. -/
theorem append (listed : ListedOnce valid owner lists) (added : α) (fresh : ¬ valid added)
    (held : ∀ place, ∀ item ∈ lists place, valid item)
    (items : ∀ item, later item → valid item ∨ item = added)
    (sameOwner : ∀ item, valid item → ownerLater item = owner item)
    (lengthened : ∀ place, listsLater place =
      if ownerLater added = place then lists place ++ [added] else lists place) :
    ListedOnce later ownerLater listsLater := by
  refine listed.insert added fresh (fun place member => fresh (held place added member)) items
    sameOwner ?_
  intro place item
  rw [lengthened]
  by_cases same : ownerLater added = place
  · simp [same, List.count_singleton]
  · simp [same]

theorem mem_iff (listed : ListedOnce valid owner lists) {item : α} (inRange : valid item)
    {place : β} : item ∈ lists place ↔ owner item = place := by
  rw [← List.count_pos_iff, listed item inRange place]
  split <;> simp_all

/-- A list in which only valid items stand has no repetition. -/
theorem nodup (listed : ListedOnce valid owner lists) {place : β}
    (inRange : ∀ item ∈ lists place, valid item) : (lists place).Nodup := by
  rw [List.nodup_iff_count]
  intro item
  by_cases member : item ∈ lists place
  · rw [listed item (inRange item member) place]
    split <;> simp
  · simp [List.count_eq_zero.mpr member]

end ListedOnce

namespace Model

/-- The names of a place with what they stand for: outermost, in a package or in a record type. -/
def entries (model : Model) : Option Scope → List (String × Member)
  | none => model.roots.map fun entry => (entry.1, .package entry.2)
  | some (.package id) => (model.package id).members
  | some (.record id) =>
    (model.record id).constants.map (fun entry => (entry.1, .constant entry.2)) ++
      (model.record id).enumerations.map fun entry => (entry.1, .enumeration entry.2)

/-- What is named in a place: outermost, in a package or in a record type. -/
def contents (model : Model) : Option Scope → List Member
  | none => model.roots.map fun entry => .package entry.2
  | some (.package id) => (model.package id).members.map (·.2)
  | some (.record id) =>
    (model.record id).constants.map (fun entry => .constant entry.2) ++
      (model.record id).enumerations.map (fun entry => .enumeration entry.2)

/-- The place that a declaration names as its own. -/
def home (model : Model) : Member → Option Scope
  | .package id => (model.package id).parent.map .package
  | .record id => some (.package (model.record id).package)
  | .enumeration id => some (model.enumeration id).scope
  | .constant id => some (model.constant id).scope

theorem contents_eq (model : Model) (place : Option Scope) :
    model.contents place = (model.entries place).map (·.2) := by
  rcases place with _ | id | id <;> simp [contents, entries, Function.comp_def]

def memberName (model : Model) : Member → String
  | .package id => (model.package id).name
  | .record id => (model.record id).name
  | .enumeration id => (model.enumeration id).name
  | .constant id => (model.constant id).name

/-- Every package, record type, enumeration and constant is named once, in the place that it names as
its own, and packages come after the packages around them. -/
structure WellScoped (model : Model) : Prop where
  closed : model.Closed
  named : ListedOnce (fun member => member.reference.InRange model.census) model.home model.contents
  parentBefore : ∀ id : PackageId, id.index < model.packages.size →
    ∀ parent, (model.package id).parent = some parent → parent.index < id.index

/-- What belongs to a declaration is listed by it, once: attributes and methods by their record type,
bitfields by their attribute. -/
structure Linked (model : Model) : Prop extends WellScoped model where
  attributes : ListedOnce (fun id => id.index < model.attributes.size)
    (fun id => (model.attr id).owner) (fun id => (model.record id).attributes)
  methods : ListedOnce (fun id => id.index < model.methods.size)
    (fun id => (model.method id).owner) (fun id => (model.record id).methods)
  bitfields : ListedOnce (fun id => id.index < model.bitfields.size)
    (fun id => (model.bitfield id).attr) (fun id => (model.attr id).bitfields)

/-- A type that lists an attribute owns it. -/
theorem Linked.owner {model : Model} (linked : model.Linked) {id : RecordId} {attr : AttributeId}
    (listed : attr ∈ (model.record id).attributes) : (model.attr attr).owner = id :=
  (linked.attributes.mem_iff (linked.closed.recordAttributes id attr listed)).mp listed

/-- No attribute belongs to two types. -/
theorem Linked.listedOnce {model : Model} (linked : model.Linked) {left right : RecordId}
    {attr : AttributeId} (one : attr ∈ (model.record left).attributes)
    (other : attr ∈ (model.record right).attributes) : left = right :=
  (linked.owner one).symm.trans (linked.owner other)

/-- Attributes and bitfields have accessors that read them and belong to the same record type. -/
structure Accessible (model : Model) : Prop where
  accessor : ∀ id : AttributeId, id.index < model.attributes.size →
    ∃ method, (model.attr id).accessor = some method ∧ (model.method method).body = .attr id ∧
      (model.method method).owner = (model.attr id).owner
  bitfieldAccessor : ∀ id : BitfieldId, id.index < model.bitfields.size →
    ∃ method, (model.bitfield id).accessor = some method ∧
      (model.method method).body = .bitfield id ∧
      (model.method method).owner = (model.attr (model.bitfield id).attr).owner
  /-- What reads an attribute belongs to its record type. -/
  reader : ∀ id : MethodId, id.index < model.methods.size →
    ∀ attr, (model.method id).body = .attr attr →
      (model.attr attr).owner = (model.method id).owner

/-- The links between all declarations of a model agree. -/
structure Sound (model : Model) : Prop extends Linked model, Accessible model

/-- The accessor of an attribute is a method of the type that has the attribute. -/
theorem Sound.exists_accessor {model : Model} (sound : model.Sound) {id : RecordId}
    {attr : AttributeId} (listed : attr ∈ (model.record id).attributes) :
    ∃ method ∈ (model.record id).methods, (model.attr attr).accessor = some method ∧
      (model.method method).body = .attr attr := by
  have inside := sound.closed.recordAttributes id attr listed
  obtain ⟨method, found, body, owner⟩ := sound.accessor attr inside
  have there := (sound.closed.attr inside).accessor method found
  rw [sound.owner listed] at owner
  exact ⟨method, (sound.methods.mem_iff there).mpr owner, found, body⟩

/-- A method that reads an attribute stands in the type that has the attribute. -/
theorem Sound.attribute_of_reader {model : Model} (sound : model.Sound) {id : RecordId}
    {method : MethodId} (listed : method ∈ (model.record id).methods) {attr : AttributeId}
    (body : (model.method method).body = .attr attr) : attr ∈ (model.record id).attributes := by
  have inside := sound.closed.recordMethods id method listed
  have reads := sound.closed.methodBody inside
  rw [body] at reads
  have there : attr.index < model.attributes.size := (inRange_cons.mp reads).1
  refine (sound.attributes.mem_iff there).mpr ?_
  rw [sound.reader method inside attr body]
  exact (sound.methods.mem_iff inside).mp listed

/-- Only valid members are named anywhere. -/
theorem ClosedFor.contents {census : Census} {model : Model} (closed : model.ClosedFor census)
    (place : Option Scope) : ∀ member ∈ model.contents place, member.reference.InRange census := by
  rcases place with _ | id | id
  · intro member listed
    obtain ⟨entry, root, rfl⟩ := List.mem_map.mp listed
    exact closed.roots entry root
  · intro member listed
    obtain ⟨entry, held, rfl⟩ := List.mem_map.mp listed
    exact closed.members id entry held
  · intro member listed
    rcases List.mem_append.mp listed with constant | enumeration
    · obtain ⟨entry, held, rfl⟩ := List.mem_map.mp constant
      exact closed.recordConstants id entry held
    · obtain ⟨entry, held, rfl⟩ := List.mem_map.mp enumeration
      exact closed.recordEnumerations id entry held

/-- What is in range is at home in a place that is in range. -/
theorem ClosedFor.home {census : Census} {model : Model} (closed : model.ClosedFor census)
    {member : Member} (inside : member.reference.InRange model.census) :
    ∀ scope ∈ model.home member, scope.reference.InRange census := by
  intro scope found
  cases member with
  | package id =>
    obtain ⟨parent, nested, rfl⟩ := Option.map_eq_some_iff.mp found
    exact closed.parent id parent nested
  | record id =>
    cases found
    exact (closed.record inside).package
  | enumeration id =>
    cases found
    exact (inRange_cons.mp (closed.enumerations.getD inside default)).1
  | constant id =>
    cases found
    exact (inRange_cons.mp (closed.constants.getD inside default)).1

/-- The declarations of a model are there later, in the same place, under the same name and with what
the pass over names says of them. -/
structure Keeps (before after : Model) : Prop where
  census : before.census ≤ after.census
  home : ∀ member : Member, member.reference.InRange before.census →
    after.home member = before.home member
  memberName : ∀ member : Member, member.reference.InRange before.census →
    after.memberName member = before.memberName member
  record : ∀ id : RecordId, id.index < before.records.size →
    (after.record id).included = (before.record id).included ∧
      (after.record id).pack = (before.record id).pack

namespace Keeps

variable {before after : Model}

theorem refl (model : Model) : Keeps model model :=
  ⟨Census.le_refl _, fun _ _ => rfl, fun _ _ => rfl, fun _ _ => ⟨rfl, rfl⟩⟩

theorem trans {middle : Model} (first : Keeps before middle) (second : Keeps middle after) :
    Keeps before after where
  census := Census.le_trans first.census second.census
  home member inRange := by
    rw [second.home member (inRange.mono first.census), first.home member inRange]
  memberName member inRange := by
    rw [second.memberName member (inRange.mono first.census), first.memberName member inRange]
  record id inRange := by
    have later := second.record id (Nat.lt_of_lt_of_le inRange first.census.records)
    exact ⟨later.1.trans (first.record id inRange).1, later.2.trans (first.record id inRange).2⟩

/-- What a declaration says about a package is no link and no name. -/
theorem modifyPackage (model : Model) (id : PackageId) {change : Package → Package}
    (parent : ∀ item, (change item).parent = item.parent)
    (name : ∀ item, (change item).name = item.name) :
    Keeps model (model.modifyPackage id change) where
  census := by rw [census_modifyPackage]; exact Census.le_refl _
  home member _ := by
    cases member with
    | package other => simp only [Model.home, package_modifyPackage]; split <;> simp only [parent]
    | record other | enumeration other | constant other => rfl
  memberName member _ := by
    cases member with
    | package other =>
      simp only [Model.memberName, package_modifyPackage]; split <;> simp only [name]
    | record other | enumeration other | constant other => rfl
  record _ _ := ⟨rfl, rfl⟩

end Keeps

/-- A model has one more declaration, named in a place; the others keep theirs. -/
structure Names (place : Option Scope) (name : String) (added : Member) (before after : Model) :
    Prop where
  fresh : ¬ added.reference.InRange before.census
  inside : ∀ scope ∈ place, scope.reference.InRange before.census
  items : ∀ member : Member, member.reference.InRange after.census →
    member.reference.InRange before.census ∨ member = added
  home : after.home added = place
  named : after.memberName added = name
  keeps : Keeps before after
  included : ∀ id : PackageId, id.index < before.packages.size →
    (after.package id).included = (before.package id).included
  entries : ∀ other, (after.entries other).Perm
    (if place = other then (name, added) :: before.entries other else before.entries other)

theorem Names.listed {before after : Model} {place : Option Scope} {name : String} {added : Member}
    (step : Names place name added before after) (other : Option Scope) (member : Member) :
    (after.contents other).count member =
      (before.contents other).count member + if place = other ∧ added = member then 1 else 0 := by
  rw [contents_eq, contents_eq, ((step.entries other).map (·.2)).count_eq]
  by_cases same : place = other
  · simp [same, List.count_cons]
  · simp [same]

/-- Naming a new declaration in a scope that is there keeps a model well scoped. -/
theorem WellScoped.names {before after : Model} (wellScoped : before.WellScoped)
    {place : Option Scope} {name : String} {added : Member}
    (step : Names place name added before after) (closed : after.Closed) : after.WellScoped where
  closed := closed
  named := by
    refine wellScoped.named.insert added step.fresh ?_ step.items step.keeps.home ?_
    · intro other listed
      exact step.fresh (wellScoped.closed.contents other added listed)
    · intro other member
      rw [step.listed, step.home]
  parentBefore id inside parent found := by
    have atHome : after.home (.package id) = some (.package parent) := by
      rw [Model.home, found, Option.map_some]
    rcases step.items (.package id) inside with old | rfl
    · rw [step.keeps.home _ old, Model.home] at atHome
      obtain ⟨same, had, equal⟩ := Option.map_eq_some_iff.mp atHome
      cases equal
      exact wellScoped.parentBefore id old _ had
    · rw [step.home] at atHome
      have outer : parent.index < before.packages.size := step.inside _ atHome
      have beyond : ¬ id.index < before.packages.size := step.fresh
      omega

/-- Two models have the same declarations, listed in the same places. -/
structure SameLists (before after : Model) : Prop where
  census : after.census = before.census
  roots : after.roots = before.roots
  parent : ∀ id, (after.package id).parent = (before.package id).parent
  members : ∀ id, (after.package id).members = (before.package id).members
  package : ∀ id, (after.record id).package = (before.record id).package
  recordConstants : ∀ id, (after.record id).constants = (before.record id).constants
  recordEnumerations : ∀ id, (after.record id).enumerations = (before.record id).enumerations
  attributes : ∀ id, (after.record id).attributes = (before.record id).attributes
  methods : ∀ id, (after.record id).methods = (before.record id).methods
  owner : ∀ id, (after.attr id).owner = (before.attr id).owner
  bitfields : ∀ id, (after.attr id).bitfields = (before.attr id).bitfields
  attr : ∀ id, (after.bitfield id).attr = (before.bitfield id).attr
  methodOwner : ∀ id, (after.method id).owner = (before.method id).owner
  enumerationScope : ∀ id, (after.enumeration id).scope = (before.enumeration id).scope
  constantScope : ∀ id, (after.constant id).scope = (before.constant id).scope

/-- Two models have the same declarations with the same links, accessors included. -/
structure SameLinks (before after : Model) : Prop extends SameLists before after where
  accessor : ∀ id, (after.attr id).accessor = (before.attr id).accessor
  bitfieldAccessor : ∀ id, (after.bitfield id).accessor = (before.bitfield id).accessor
  body : ∀ id, (after.method id).body = (before.method id).body

namespace SameLists

variable {before after : Model}

theorem contents (same : SameLists before after) (place : Option Scope) :
    after.contents place = before.contents place := by
  rcases place with _ | id | id
  · simp only [Model.contents, same.roots]
  · simp only [Model.contents, same.members]
  · simp only [Model.contents, same.recordConstants, same.recordEnumerations]

theorem home (same : SameLists before after) (member : Member) :
    after.home member = before.home member := by
  cases member with
  | package id => simp only [Model.home, same.parent]
  | record id => simp only [Model.home, same.package]
  | enumeration id => simp only [Model.home, same.enumerationScope]
  | constant id => simp only [Model.home, same.constantScope]

variable (model : Model)

theorem refl : SameLists model model := by
  constructor <;> intros <;> rfl

/-- An attribute may get an accessor without being listed anew. -/
theorem modifyAttribute (id : AttributeId) {change : Attribute → Attribute}
    (owner : ∀ item, (change item).owner = item.owner)
    (bitfields : ∀ item, (change item).bitfields = item.bitfields) :
    SameLists model (model.modifyAttribute id change) :=
  { refl model with
    census := model.census_modifyAttribute id change
    owner := fun other => by rw [attr_modifyAttribute]; split <;> simp only [owner]
    bitfields := fun other => by rw [attr_modifyAttribute]; split <;> simp only [bitfields] }

theorem modifyBitfield (id : BitfieldId) {change : Bitfield → Bitfield}
    (attr : ∀ item, (change item).attr = item.attr) :
    SameLists model (model.modifyBitfield id change) :=
  { refl model with
    census := model.census_modifyBitfield id change
    attr := fun other => by rw [bitfield_modifyBitfield]; split <;> simp only [attr] }

end SameLists

namespace SameLinks

variable (model : Model)

theorem refl : SameLinks model model :=
  ⟨.refl model, fun _ => rfl, fun _ => rfl, fun _ => rfl⟩

theorem modifyPackage (id : PackageId) {change : Package → Package}
    (parent : ∀ item, (change item).parent = item.parent)
    (members : ∀ item, (change item).members = item.members) :
    SameLinks model (model.modifyPackage id change) :=
  { refl model with
    census := model.census_modifyPackage id change
    parent := fun other => by rw [package_modifyPackage]; split <;> simp only [parent]
    members := fun other => by rw [package_modifyPackage]; split <;> simp only [members] }

theorem modifyRecord (id : RecordId) {change : Record → Record}
    (package : ∀ item, (change item).package = item.package)
    (constants : ∀ item, (change item).constants = item.constants)
    (enumerations : ∀ item, (change item).enumerations = item.enumerations)
    (attributes : ∀ item, (change item).attributes = item.attributes)
    (methods : ∀ item, (change item).methods = item.methods) :
    SameLinks model (model.modifyRecord id change) :=
  { refl model with
    census := model.census_modifyRecord id change
    package := fun other => by rw [record_modifyRecord]; split <;> simp only [package]
    recordConstants := fun other => by rw [record_modifyRecord]; split <;> simp only [constants]
    recordEnumerations := fun other => by
      rw [record_modifyRecord]; split <;> simp only [enumerations]
    attributes := fun other => by rw [record_modifyRecord]; split <;> simp only [attributes]
    methods := fun other => by rw [record_modifyRecord]; split <;> simp only [methods] }

theorem modifyEnumeration (id : EnumId) {change : Enumeration → Enumeration}
    (scope : ∀ item, (change item).scope = item.scope) :
    SameLinks model (model.modifyEnumeration id change) :=
  { refl model with
    census := model.census_modifyEnumeration id change
    enumerationScope := fun other => by
      rw [enumeration_modifyEnumeration]; split <;> simp only [scope] }

theorem modifyConstant (id : ConstantId) {change : Constant → Constant}
    (scope : ∀ item, (change item).scope = item.scope) :
    SameLinks model (model.modifyConstant id change) :=
  { refl model with
    census := model.census_modifyConstant id change
    constantScope := fun other => by rw [constant_modifyConstant]; split <;> simp only [scope] }

end SameLinks

/-- What only changes other fields keeps the scopes, if it stores no wild identifier. -/
theorem WellScoped.of_sameLists {before after : Model} (wellScoped : before.WellScoped)
    (same : SameLists before after) (closed : after.Closed) : after.WellScoped where
  closed := closed
  named := wellScoped.named.congr (fun _ => by rw [same.census]) same.home same.contents
  parentBefore id inside parent found := by
    have size : after.packages.size = before.packages.size := congrArg Census.packages same.census
    exact wellScoped.parentBefore id (size ▸ inside) parent (same.parent id ▸ found)

theorem Linked.of_sameLists {before after : Model} (linked : before.Linked)
    (same : SameLists before after) (closed : after.Closed) : after.Linked where
  toWellScoped := linked.toWellScoped.of_sameLists same closed
  attributes := by
    have size : after.attributes.size = before.attributes.size :=
      congrArg Census.attributes same.census
    exact linked.attributes.congr (fun _ => by rw [size]) same.owner same.attributes
  methods := by
    have size : after.methods.size = before.methods.size := congrArg Census.methods same.census
    exact linked.methods.congr (fun _ => by rw [size]) same.methodOwner same.methods
  bitfields := by
    have size : after.bitfields.size = before.bitfields.size :=
      congrArg Census.bitfields same.census
    exact linked.bitfields.congr (fun _ => by rw [size]) same.attr same.bitfields

theorem Sound.of_sameLinks {before after : Model} (sound : before.Sound)
    (same : SameLinks before after) (closed : after.Closed) : after.Sound where
  toLinked := sound.toLinked.of_sameLists same.toSameLists closed
  accessor id inside := by
    have size : after.attributes.size = before.attributes.size :=
      congrArg Census.attributes same.census
    obtain ⟨method, found, body, owner⟩ := sound.accessor id (size ▸ inside)
    exact ⟨method, by rw [same.accessor, found], by rw [same.body, body],
      by rw [same.methodOwner, same.owner, owner]⟩
  bitfieldAccessor id inside := by
    have size : after.bitfields.size = before.bitfields.size :=
      congrArg Census.bitfields same.census
    obtain ⟨method, found, body, owner⟩ := sound.bitfieldAccessor id (size ▸ inside)
    exact ⟨method, by rw [same.bitfieldAccessor, found], by rw [same.body, body],
      by rw [same.methodOwner, same.attr, same.owner, owner]⟩
  reader id inside attr body := by
    have size : after.methods.size = before.methods.size := congrArg Census.methods same.census
    rw [same.owner, same.methodOwner]
    exact sound.reader id (size ▸ inside) attr (same.body id ▸ body)

end Model

end RecordSchema
