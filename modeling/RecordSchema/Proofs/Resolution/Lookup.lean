import RecordSchema.Proofs.Model.Linkage
import RecordSchema.Resolution.Constructors
import RecordSchema.Resolution.StorageSchemas

/-!
# What lookups find

Whatever a lookup finds in a model is stored in it. In a closed model it is therefore in range, also
where the search goes along base types and through the packages around a declaration.
-/

set_option autoImplicit false

namespace RecordSchema

/-- Whether what a name stands for is in range. -/
def Meaning.InRange (census : Census) : Meaning → Prop
  | member found => found.reference.InRange census
  | builtin _ => True

namespace Model.ClosedFor

variable {census : Census} {model : Model}

/-- Base types of a type in range are in range. -/
theorem basesFrom (closed : model.ClosedFor census) {fuel : Nat} {seen : List RecordId}
    {id : RecordId} (inside : id.index < census.records) :
    ∀ other ∈ model.basesFrom fuel seen id, other.index < census.records := by
  induction fuel generalizing seen id with
  | zero =>
    intro other member
    cases member
  | succ fuel ih =>
    unfold Model.basesFrom
    split
    · intro other member
      cases member
    · split
      · intro other member
        cases List.mem_singleton.mp member
        exact inside
      · rename_i base found
        intro other member
        rcases List.mem_cons.mp member with rfl | later
        · exact inside
        · exact ih (closed.base id base found) other later

theorem lineage (closed : model.ClosedFor census) {id : RecordId}
    (inside : id.index < census.records) : ∀ other ∈ model.lineage id, other.index < census.records :=
  closed.basesFrom inside

theorem enclosing (closed : model.ClosedFor census) {id : PackageId}
    (inside : id.index < census.packages) :
    ∀ outer ∈ model.enclosing id, outer.index < census.packages := by
  fun_induction model.enclosing id with
  | case1 id root =>
    intro outer member
    cases List.mem_singleton.mp member
    exact inside
  | case2 id parent found before ih =>
    intro outer member
    rcases List.mem_cons.mp member with rfl | later
    · exact inside
    · exact ih (closed.parent id parent found) outer later
  | case3 id parent found after =>
    intro outer member
    cases List.mem_singleton.mp member
    exact inside

/-!
## Names
-/

theorem typeMember? (closed : model.ClosedFor census) {id : RecordId} {name : String}
    {found : Member} (named : model.typeMember? id name = some found) :
    found.reference.InRange census := by
  rcases Option.or_eq_some_iff.mp named with enumeration | ⟨_, constant⟩
  · obtain ⟨value, entry, rfl⟩ := Option.map_eq_some_iff.mp enumeration
    exact closed.recordEnumerations id _ (mem_of_lookup entry)
  · obtain ⟨value, entry, rfl⟩ := Option.map_eq_some_iff.mp constant
    exact closed.recordConstants id _ (mem_of_lookup entry)

theorem packageMember? (closed : model.ClosedFor census) {id : PackageId} {name : String}
    {found : Member} (named : model.packageMember? id name = some found) :
    found.reference.InRange census := by
  obtain ⟨outer, _, entry⟩ := List.exists_of_findSome?_eq_some named
  exact closed.members outer _ (mem_of_lookup entry)

theorem scopeMember? (closed : model.ClosedFor census) {scope : Scope} {name : String}
    {found : Member} (named : model.scopeMember? scope name = some found) :
    found.reference.InRange census := by
  cases scope with
  | package id => exact closed.packageMember? named
  | record id =>
    rcases Option.or_eq_some_iff.mp named with inType | ⟨_, outside⟩
    · obtain ⟨owner, _, entry⟩ := List.exists_of_findSome?_eq_some inType
      exact closed.typeMember? entry
    · exact closed.packageMember? outside

theorem lookupFirst? (closed : model.ClosedFor census) {scope : Scope} {name : String}
    {found : Meaning} (named : model.lookupFirst? scope name = some found) : found.InRange census := by
  unfold Model.lookupFirst? at named
  split at named
  · rename_i member inScope
    cases named
    exact closed.scopeMember? inScope
  · split at named
    · rename_i root outermost
      cases named
      exact closed.roots _ (mem_of_lookup outermost)
    · obtain ⟨type, _, rfl⟩ := Option.map_eq_some_iff.mp named
      trivial

theorem lookupIn? (closed : model.ClosedFor census) {name : String} {before found : Meaning}
    (named : model.lookupIn? name before = some found) : found.InRange census := by
  unfold Model.lookupIn? at named
  split at named
  · obtain ⟨member, entry, rfl⟩ := Option.map_eq_some_iff.mp named
    exact closed.members _ _ (mem_of_lookup entry)
  · obtain ⟨member, entry, rfl⟩ := Option.map_eq_some_iff.mp named
    exact closed.typeMember? entry
  · cases named

/-- Each part of a dotted name is found in a list of the model, whatever the parts before. -/
theorem lookup? (closed : model.ClosedFor census) {scope : Scope} {name : String} {found : Meaning}
    (named : model.lookup? scope name = some found) : found.InRange census := by
  unfold Model.lookup? at named
  split at named
  · cases named
  · rename_i first rest parts
    clear parts
    have start : ∀ value ∈ model.lookupFirst? scope first, value.InRange census :=
      fun value => closed.lookupFirst?
    generalize model.lookupFirst? scope first = state at start named
    induction rest generalizing state with
    | nil => exact start found named
    | cons part rest ih =>
      refine ih _ ?_ named
      intro value member
      obtain ⟨before, _, entry⟩ := Option.bind_eq_some_iff.mp member
      exact closed.lookupIn? entry

theorem lookupRecord? (closed : model.ClosedFor census) {owner found : RecordId} {name : String}
    (named : model.lookupRecord? owner name = some found) : found.index < census.records := by
  unfold Model.lookupRecord? at named
  split at named
  · rename_i looked
    cases named
    exact closed.lookup? looked
  · cases named

theorem lookupType (closed : model.ClosedFor census) {owner : RecordId} {path name : String}
    {found : TypeRef} (named : model.lookupType owner path name = .ok found) :
    InRange census found.references := by
  unfold Model.lookupType at named
  split at named
  · rename_i looked
    cases named
    unfold Model.lookupType? at looked
    split at looked
    · rename_i entry
      cases looked
      exact inRange_cons.mpr ⟨closed.lookup? entry, inRange_nil⟩
    · rename_i entry
      cases looked
      exact inRange_cons.mpr ⟨closed.lookup? entry, inRange_nil⟩
    · cases looked
      exact inRange_nil
    · cases looked
  · cases named

/-!
## Members along base types
-/

theorem findMethod? (closed : model.ClosedFor census) {owner : RecordId} {name : String}
    {found : MethodId} (named : model.findMethod? owner name = some found) :
    found.index < census.methods := by
  obtain ⟨record, _, entry⟩ := List.exists_of_findSome?_eq_some named
  exact closed.recordMethods record found (List.mem_of_find?_eq_some entry)

theorem findAttribute? (closed : model.ClosedFor census) {owner : RecordId} {name : String}
    {found : AttributeId} (named : model.findAttribute? owner name = some found) :
    found.index < census.attributes := by
  obtain ⟨record, _, entry⟩ := List.exists_of_findSome?_eq_some named
  exact closed.recordAttributes record found (List.mem_of_find?_eq_some entry)

theorem findDestination? (closed : model.ClosedFor census) {owner : RecordId} {name : String}
    {found : Destination} (named : model.findDestination? owner name = some found) :
    found.reference.InRange census := by
  unfold Model.findDestination? at named
  split at named
  · rename_i attr inherited
    cases named
    exact closed.findAttribute? inherited
  · obtain ⟨record, _, inRecord⟩ := List.exists_of_findSome?_eq_some named
    obtain ⟨attr, _, inAttribute⟩ := List.exists_of_findSome?_eq_some inRecord
    obtain ⟨bitfield, entry, rfl⟩ := Option.map_eq_some_iff.mp inAttribute
    exact closed.bitfieldsOf attr bitfield (List.mem_of_find?_eq_some entry)

/-- The source of a dataset entry is a method or attribute found under its name, or the attribute
that a method found there reads. -/
theorem entrySource? (closed : model.ClosedFor census) (methods : census.methods = model.methods.size)
    {owner : RecordId} {name : String} {found : DatasetSource}
    (named : Resolution.entrySource? model owner name = some found) :
    found.reference.InRange census := by
  unfold Resolution.entrySource? at named
  split at named
  · rename_i method inherited
    have inside := closed.findMethod? inherited
    split at named
    · rename_i attr body
      cases named
      have held := closed.methodBody (methods ▸ inside)
      rw [body] at held
      exact (inRange_cons.mp held).1
    · cases named
      exact inside
  · obtain ⟨attr, inherited, rfl⟩ := Option.map_eq_some_iff.mp named
    exact closed.findAttribute? inherited

end Model.ClosedFor

end RecordSchema
