import Mathlib.Data.List.Find
import RecordSchema.Proofs.Extension.Within
import RecordSchema.Proofs.Model.Paths
import RecordSchema.Proofs.Resolution.Headers
import RecordSchema.Proofs.Resolution.Lookup
import RecordSchema.Proofs.Resolution.Values
import RecordSchema.Proofs.TwoRuns

/-!
# Names and values in a larger model

Whatever a name stands for in a model it stands for in a larger one. The search goes through types and
packages that are the same in both, and what is outermost is not hidden by what is new. So what a header, a
constant or an enumeration refers to is found alike. Headers and values that the larger model has alone
are filled in at their own places.
-/

set_option autoImplicit false

namespace RecordSchema

open Model Outcome

namespace Outcome

variable {α β : Type} {items : List α}

private theorem findSome?_congr {find find' : α → Option β}
    (same : ∀ item ∈ items, find' item = find item) :
    items.findSome? find' = items.findSome? find := by
  induction items with
  | nil => rfl
  | cons item rest ih =>
    obtain ⟨here, later⟩ := List.forall_mem_cons.mp same
    rw [List.findSome?_cons, List.findSome?_cons, here, ih later]

private theorem any_congr_mem {test test' : α → Bool} (same : ∀ item ∈ items, test' item = test item) :
    items.any test' = items.any test := by
  induction items with
  | nil => rfl
  | cons item rest ih =>
    obtain ⟨here, later⟩ := List.forall_mem_cons.mp same
    rw [List.any_cons, List.any_cons, here, ih later]

end Outcome

namespace Model.Within

variable {move : MethodId → MethodId} {part whole : Model} (within : Within move part whole)

include within

theorem base {id : RecordId} (inside : id.index < part.records.size) :
    (whole.record id).base = (part.record id).base := by
  rw [within.record id inside]
  rfl

theorem typeMember? {id : RecordId} (inside : id.index < part.records.size) (name : String) :
    whole.typeMember? id name = part.typeMember? id name := by
  rw [Model.typeMember?, within.record id inside]
  rfl

variable (closed : part.Closed)

include closed

/-!
## Ways through a model
-/

theorem enclosing {id : PackageId} (inside : id.index < part.packages.size) :
    whole.enclosing id = part.enclosing id := by
  fun_induction part.enclosing id with
  | case1 id root =>
    rw [Model.enclosing, within.package id inside, root]
  | case2 id parent found before ih =>
    rw [Model.enclosing, within.package id inside, found]
    simp only [before, dif_pos, ih (closed.parent id parent found)]
  | case3 id parent found after =>
    rw [Model.enclosing, within.package id inside, found]
    simp only [after, dif_neg, not_false_eq_true]

/-- A walk along base types ends at a type seen before, if nowhere else, so no walk is cut short by its
bound. -/
theorem basesFrom {fuel fuel' : Nat} {seen : List RecordId} {id : RecordId}
    (inside : id.index < part.records.size) (distinct : seen.Nodup)
    (known : ∀ other ∈ seen, other.index < part.records.size)
    (enough : part.records.size < fuel + seen.length)
    (enough' : part.records.size < fuel' + seen.length) :
    whole.basesFrom fuel' seen id = part.basesFrom fuel seen id := by
  have few := length_le_records distinct known
  induction fuel generalizing fuel' seen id with
  | zero => omega
  | succ fuel ih =>
    obtain ⟨fuel', rfl⟩ := Nat.exists_eq_succ_of_ne_zero (by omega : fuel' ≠ 0)
    rw [Model.basesFrom, Model.basesFrom, within.base inside]
    by_cases again : id ∈ seen
    · rw [if_pos again, if_pos again]
    · rw [if_neg again, if_neg again]
      cases found : (part.record id).base with
      | none => rfl
      | some base =>
        have longer : ∀ other ∈ id :: seen, other.index < part.records.size :=
          List.forall_mem_cons.mpr ⟨inside, known⟩
        have fresh := List.nodup_cons.mpr ⟨again, distinct⟩
        have bound := length_le_records fresh longer
        rw [List.length_cons] at bound
        dsimp only
        rw [ih (closed.base id base found) fresh longer (by rw [List.length_cons]; omega)
          (by rw [List.length_cons]; omega) (by rw [List.length_cons]; omega)]

theorem lineage {id : RecordId} (inside : id.index < part.records.size) :
    whole.lineage id = part.lineage id := by
  have more : part.records.size ≤ whole.records.size := within.census.records
  refine within.basesFrom closed inside .nil (fun other none => nomatch none) ?_ ?_ <;> simp
  omega

/-!
## Names
-/

theorem packageMember? {id : PackageId} (inside : id.index < part.packages.size) (name : String) :
    whole.packageMember? id name = part.packageMember? id name := by
  rw [Model.packageMember?, within.enclosing closed inside]
  refine findSome?_congr fun outer around => ?_
  rw [within.package outer (closed.enclosing inside outer around)]

theorem scopeMember? {scope : Scope} (inside : scope.reference.InRange part.census) (name : String) :
    whole.scopeMember? scope name = part.scopeMember? scope name := by
  cases scope with
  | package id => exact within.packageMember? closed inside name
  | record id =>
    have inTypes : ((whole.lineage id).findSome? fun owner => whole.typeMember? owner name) =
        (part.lineage id).findSome? fun owner => part.typeMember? owner name := by
      rw [within.lineage closed inside]
      exact findSome?_congr fun owner passed =>
        within.typeMember? (closed.lineage inside owner passed) name
    have package : (whole.record id).package = (part.record id).package := by
      rw [within.record id inside]
      rfl
    rw [Model.scopeMember?, Model.scopeMember?, inTypes, package,
      within.packageMember? closed (closed.record inside).package]

theorem lookupFirst? {scope : Scope} (inside : scope.reference.InRange part.census) {name : String}
    {meaning : Meaning} (found : part.lookupFirst? scope name = some meaning) :
    whole.lookupFirst? scope name = some meaning := by
  rw [Model.lookupFirst?] at found ⊢
  rw [within.scopeMember? closed inside]
  cases named : part.scopeMember? scope name with
  | some member =>
    rw [named] at found
    exact found
  | none =>
    rw [named] at found
    exact within.outermost name meaning found

omit closed in
theorem lookupIn? {before : Meaning} (inside : before.InRange part.census) (name : String) :
    whole.lookupIn? name before = part.lookupIn? name before := by
  cases before with
  | builtin type => rfl
  | member member =>
    cases member with
    | package id => simp only [Model.lookupIn?, within.package id inside]
    | record id => simp only [Model.lookupIn?, within.typeMember? inside]
    | enumeration id => rfl
    | constant id => rfl

/-- A dotted name is read part by part, each in what the parts before stand for. -/
theorem lookup? (scope : Scope) (inside : scope.reference.InRange part.census) {name : String}
    {meaning : Meaning} (found : part.lookup? scope name = some meaning) :
    whole.lookup? scope name = some meaning := by
  unfold Model.lookup? at found ⊢
  split at found
  · cases found
  · rename_i first rest parts
    clear parts
    have start : ∀ value ∈ part.lookupFirst? scope first,
        whole.lookupFirst? scope first = some value ∧ value.InRange part.census :=
      fun value known => ⟨within.lookupFirst? closed inside known, closed.lookupFirst? known⟩
    generalize part.lookupFirst? scope first = state, whole.lookupFirst? scope first = state'
      at start found
    induction rest generalizing state state' with
    | nil => exact (start meaning found).1
    | cons name rest ih =>
      refine ih (state.bind (part.lookupIn? name)) (state'.bind (whole.lookupIn? name))
        (fun value known => ?_) found
      obtain ⟨before, reached, entry⟩ := Option.bind_eq_some_iff.mp known
      obtain ⟨same, there⟩ := start before reached
      refine ⟨?_, closed.lookupIn? entry⟩
      rw [same, Option.bind_some, within.lookupIn? there, entry]

theorem lookupRecord? {owner found : RecordId} (inside : owner.index < part.records.size)
    {name : String} (named : part.lookupRecord? owner name = some found) :
    whole.lookupRecord? owner name = some found := by
  unfold Model.lookupRecord? at named ⊢
  split at named
  · rename_i known
    rw [within.lookup? closed (.record owner) inside known]
    exact named
  · cases named

theorem lookupType_follows {owner : RecordId} (inside : owner.index < part.records.size)
    (path name : String) :
    Follows (· = ·) (part.lookupType owner path name) (whole.lookupType owner path name) := by
  intro type accepted
  refine ⟨type, ?_, rfl⟩
  rw [Model.lookupType, Model.lookupType?] at accepted ⊢
  cases known : part.lookup? (.record owner) name with
  | none =>
    rw [known] at accepted
    cases accepted
  | some meaning =>
    rw [known] at accepted
    rw [within.lookup? closed (.record owner) inside known]
    exact accepted

/-!
## Members along base types
-/

/-- A name is taken by a method in both models or in none. -/
theorem methodClash {owner : RecordId} (inside : owner.index < part.records.size) (name : String) :
    ((whole.record owner).methods.any fun id => (whole.method id).name == name) =
      (part.record owner).methods.any fun id => (part.method id).name == name := by
  rw [within.record owner inside, Record.renumber, List.any_map]
  refine any_congr_mem fun id listed => ?_
  rw [Function.comp_apply, (within.method id (closed.recordMethods owner id listed)).2]

theorem attributeClash {owner : RecordId} (inside : owner.index < part.records.size) (name : String) :
    ((whole.record owner).attributes.any fun id => (whole.attr id).name == name) =
      (part.record owner).attributes.any fun id => (part.attr id).name == name := by
  rw [within.record owner inside]
  refine any_congr_mem fun id listed => ?_
  rw [within.attr id (closed.recordAttributes owner id listed)]
  rfl

theorem findMethod? {owner : RecordId} (inside : owner.index < part.records.size) (name : String) :
    whole.findMethod? owner name = (part.findMethod? owner name).map move := by
  rw [Model.findMethod?, Model.findMethod?, within.lineage closed inside, List.map_findSome?]
  refine findSome?_congr fun record passed => ?_
  rw [within.record record (closed.lineage inside record passed), Record.renumber, List.find?_map]
  refine congrArg (Option.map move) (List.find?_congr fun id listed => ?_)
  rw [Function.comp_apply, (within.method id (closed.recordMethods record id listed)).2]

theorem findAttribute? {owner : RecordId} (inside : owner.index < part.records.size)
    (name : String) : whole.findAttribute? owner name = part.findAttribute? owner name := by
  rw [Model.findAttribute?, Model.findAttribute?, within.lineage closed inside]
  refine findSome?_congr fun record passed => ?_
  rw [within.record record (closed.lineage inside record passed)]
  refine List.find?_congr fun id listed => ?_
  rw [within.attr id (closed.recordAttributes record id listed)]
  rfl

theorem findDestination? {owner : RecordId} (inside : owner.index < part.records.size)
    (name : String) : whole.findDestination? owner name = part.findDestination? owner name := by
  rw [Model.findDestination?, Model.findDestination?, within.findAttribute? closed inside,
    within.lineage closed inside]
  cases part.findAttribute? owner name with
  | some attr => rfl
  | none =>
    refine findSome?_congr fun record passed => ?_
    rw [within.record record (closed.lineage inside record passed)]
    refine findSome?_congr fun attr listed => ?_
    rw [within.attr attr (closed.recordAttributes record attr listed)]
    refine congrArg (Option.map Destination.bitfield) (List.find?_congr fun id held => ?_)
    rw [within.bitfield id (closed.bitfieldsOf attr id held)]
    rfl

end Model.Within

namespace Outcome.Follows

variable {ε α : Type}

theorem refl (computation : Except ε α) : Follows (· = ·) computation computation :=
  fun value accepted => ⟨value, accepted, rfl⟩

end Outcome.Follows

namespace Resolution

variable {move : MethodId → MethodId} {part whole : Model}

/-!
## Headers
-/

private theorem foldl_applyRecordTag_renumber (tags : List Tag) (record : Record) :
    tags.foldl applyRecordTag (record.renumber move) =
      (tags.foldl applyRecordTag record).renumber move := by
  refine List.foldl_hom (Record.renumber move) fun before tag => ?_
  unfold applyRecordTag
  split <;> rfl

theorem resolveHeader_extends (within : Within move part whole) (closed : part.Closed)
    {pending : Pending RecordId Declaration.Record} (inside : pending.id.index < part.records.size) :
    Follows (Within move) (resolveHeader part pending) (resolveHeader whole pending) := by
  have bases : Follows (· = ·) (baseOf part pending) (baseOf whole pending) := by
    rw [baseOf, baseOf]
    cases pending.declaration.base with
    | none => exact .ok rfl
    | some name =>
      dsimp only
      cases found : part.lookupRecord? pending.id name with
      | none => exact .error
      | some base =>
        rw [within.lookupRecord? closed inside found]
        exact .ok rfl
  have configs : Follows (· = ·) (pending.declaration.configs.foldlM (addConfig part pending) [])
      (pending.declaration.configs.foldlM (addConfig whole pending) []) := by
    refine .foldlM (fun known known' name _ same => ?_) rfl
    subst same
    rw [addConfig, addConfig]
    cases found : part.lookupRecord? pending.id name with
    | none => exact .error
    | some config =>
      rw [within.lookupRecord? closed inside found]
      exact .ok rfl
  refine bases.bind fun base _ _ _ same => ?_
  subst same
  refine configs.bind fun configs _ _ _ same => ?_
  subst same
  refine (Follows.refl (identityOf pending)).bind fun identity _ _ _ same => ?_
  subst same
  exact .ok (within.modifyRecords pending.id fun record =>
    foldl_applyRecordTag_renumber _ { record with base, configs, identity })

/-- The header of a type that the larger model has alone. -/
theorem resolveHeader_within {after : Model} (within : Within move part whole)
    {pending : Pending RecordId Declaration.Record} (outside : part.records.size ≤ pending.id.index)
    (accepted : resolveHeader whole pending = .ok after) : Within move part after := by
  simp only [resolveHeader] at accepted
  obtain ⟨_, _, accepted⟩ := bind_ok accepted
  obtain ⟨_, _, accepted⟩ := bind_ok accepted
  obtain ⟨_, _, accepted⟩ := bind_ok accepted
  cases accepted
  exact within.modifyRecord outside _

/-!
## Constants and enumerations
-/

theorem resolveConstant_extends (within : Within move part whole)
    {pending : Pending ConstantId Declaration.Constant}
    (inside : pending.id.index < part.constants.size) :
    Follows (Within move) (resolveConstant part pending) (resolveConstant whole pending) := by
  rw [resolveConstant, resolveConstant, within.constant pending.id inside]
  cases pending.declaration.value with
  | none => exact .error
  | some raw =>
    refine (Follows.refl (Expr.parse _ raw)).bind fun value _ _ _ same => ?_
    subst same
    exact .guarded rfl fun _ => .ok (within.modifyConstants pending.id _)

private theorem enumerationBase_extends (within : Within move part whole) (closed : part.Closed)
    {scope : Scope} (inside : scope.reference.InRange part.census) (path : String)
    (name : Option String) :
    Follows (· = ·) (enumerationBase part scope path name) (enumerationBase whole scope path name) := by
  cases name with
  | none => exact .ok rfl
  | some name =>
    rw [enumerationBase, enumerationBase]
    cases found : part.lookup? scope name with
    | none => exact .error
    | some meaning =>
      rw [within.lookup? closed scope inside found]
      exact .refl _

theorem resolveEnumeration_extends (within : Within move part whole) (closed : part.Closed)
    {pending : Pending EnumId Declaration.Enumeration}
    (inside : pending.id.index < part.enumerations.size) :
    Follows (Within move) (resolveEnumeration part pending) (resolveEnumeration whole pending) := by
  have declared : (Member.enumeration pending.id).reference.InRange part.census := inside
  have scope := closed.home declared _ rfl
  rw [resolveEnumeration, resolveEnumeration, within.enumeration pending.id inside]
  refine (enumerationBase_extends within closed scope _ _).bind fun base _ _ _ same => ?_
  subst same
  refine (Follows.refl (pending.declaration.constants.foldlM _ [])).bind fun constants _ _ _ same => ?_
  subst same
  exact .ok (within.modifyEnumerations pending.id _)

end Resolution

end RecordSchema
