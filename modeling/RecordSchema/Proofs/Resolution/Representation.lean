import RecordSchema.Proofs.Resolution.Items

/-!
# Drafts and the items they represent

A draft represents items if its packages are the ones that the items open and its declarations are
theirs, each at its site and under its name. Every operation of the pass over names either goes
through, and then its item is represented too, or it is refused, and then its item does not fit.
-/

set_option autoImplicit false

namespace RecordSchema.Draft

open Model Outcome

/-- The declarations that wait to be resolved, each with its identifier. -/
def waiting (draft : Draft) : List (Member × Declared) :=
  draft.records.toList.map (fun pending =>
      (Member.record pending.id,
        Declared.record (draft.model.record pending.id).included pending.declaration)) ++
    (draft.constants.toList.map (fun pending =>
        (Member.constant pending.id, Declared.constant pending.declaration)) ++
      draft.enumerations.toList.map fun pending =>
        (Member.enumeration pending.id, Declared.enumeration pending.declaration))

def itemAt (model : Model) (entry : Member × Declared) : Item :=
  .declared (model.site (model.home entry.1)) entry.2

structure Represents (draft : Draft) (items : List Item) : Prop where
  consistent : draft.Consistent
  wellNamed : draft.model.WellNamed
  fits : Fits items
  packages : ∀ path, (∃ included, .package path included ∈ items) ↔
    ∃ id : PackageId, id.index < draft.model.packages.size ∧ draft.model.packageNames id = path
  primary : ∀ id : PackageId, id.index < draft.model.packages.size →
    ((draft.model.package id).included = false ↔
      .package (draft.model.packageNames id) false ∈ items)
  declared : (draft.waiting.map (itemAt draft.model)).Perm (items.filter Item.isDeclared)
  names : ∀ entry ∈ draft.waiting, draft.model.memberName entry.1 = entry.2.name
  recordIds : draft.records.toList.map (·.id.index) = List.range draft.model.records.size
  constantIds : draft.constants.toList.map (·.id.index) = List.range draft.model.constants.size
  enumerationIds :
    draft.enumerations.toList.map (·.id.index) = List.range draft.model.enumerations.size

/-!
## What is waiting
-/

theorem mem_waiting {draft : Draft} {member : Member} {declaration : Declared} :
    (member, declaration) ∈ draft.waiting ↔
      (∃ pending ∈ draft.records, member = .record pending.id ∧
        declaration = .record (draft.model.record pending.id).included pending.declaration) ∨
      (∃ pending ∈ draft.constants, member = .constant pending.id ∧
        declaration = .constant pending.declaration) ∨
      ∃ pending ∈ draft.enumerations, member = .enumeration pending.id ∧
        declaration = .enumeration pending.declaration := by
  simp [waiting, eq_comm]

theorem Consistent.waiting_inRange {draft : Draft} (consistent : draft.Consistent)
    {entry : Member × Declared} (waits : entry ∈ draft.waiting) :
    entry.1.reference.InRange draft.model.census := by
  obtain ⟨member, declaration⟩ := entry
  rcases mem_waiting.mp waits with ⟨pending, held, rfl, _⟩ | ⟨pending, held, rfl, _⟩ |
    ⟨pending, held, rfl, _⟩
  · exact consistent.records pending held
  · exact consistent.constants pending held
  · exact consistent.enumerations pending held

private theorem Consistent.waiting_keeps {draft : Draft} (consistent : draft.Consistent) {model : Model}
    (keeps : Keeps draft.model model) : { draft with model }.waiting = draft.waiting := by
  have records : draft.records.toList.map (fun pending =>
        ((.record pending.id, .record (model.record pending.id).included pending.declaration) :
          Member × Declared)) =
      draft.records.toList.map fun pending =>
        (.record pending.id, .record (draft.model.record pending.id).included pending.declaration) :=
    List.map_congr_left fun pending held => by
      rw [(keeps.record pending.id (consistent.records pending (Array.mem_toList_iff.mp held))).1]
  simp only [waiting, records]

private theorem waiting_push_record (draft : Draft) (pending : Pending RecordId Declaration.Record) :
    { draft with records := draft.records.push pending }.waiting.Perm
      ((.record pending.id, .record (draft.model.record pending.id).included pending.declaration) ::
        draft.waiting) := by
  simp only [waiting, Array.toList_push, List.map_append, List.map_cons, List.map_nil,
    List.append_assoc, List.singleton_append]
  exact List.perm_middle

private theorem waiting_push_constant (draft : Draft) (pending : Pending ConstantId Declaration.Constant) :
    { draft with constants := draft.constants.push pending }.waiting.Perm
      ((.constant pending.id, .constant pending.declaration) :: draft.waiting) := by
  simp only [waiting, Array.toList_push, List.map_append, List.map_cons, List.map_nil,
    List.append_assoc, List.singleton_append]
  exact (List.perm_middle.append_left _).trans List.perm_middle

private theorem waiting_push_enumeration (draft : Draft)
    (pending : Pending EnumId Declaration.Enumeration) :
    { draft with enumerations := draft.enumerations.push pending }.waiting.Perm
      ((.enumeration pending.id, .enumeration pending.declaration) :: draft.waiting) := by
  simp only [waiting, Array.toList_push, List.map_append, List.map_cons, List.map_nil]
  rw [← List.append_assoc, ← List.append_assoc, ← List.append_assoc]
  exact List.perm_append_singleton _ _

private theorem ids_push {identifier declaration : Type} {pendings : Array (Pending identifier declaration)}
    {index : identifier → Nat} {size : Nat}
    (ids : pendings.toList.map (fun pending => index pending.id) = List.range size)
    {pending : Pending identifier declaration} (last : index pending.id = size) :
    (pendings.push pending).toList.map (fun pending => index pending.id) =
      List.range (size + 1) := by
  rw [Array.toList_push, List.map_append, ids, List.range_succ, List.map_singleton, last]

/-- What a declaration says where it stands is the same later. -/
theorem Consistent.map_itemAt {draft : Draft} (consistent : draft.Consistent) {model : Model}
    (keeps : Keeps draft.model model) :
    draft.waiting.map (itemAt model) = draft.waiting.map (itemAt draft.model) := by
  refine List.map_congr_left fun entry waits => ?_
  have inRange := consistent.waiting_inRange waits
  rw [itemAt, itemAt, keeps.home entry.1 inRange, keeps.site consistent.wellScoped]
  intro scope home
  exact consistent.wellScoped.closed.home inRange scope home

namespace Represents

variable {draft : Draft} {items : List Item} (represents : Represents draft items)

include represents

/-- Everything but packages is waiting. -/
theorem waits {member : Member} (inRange : member.reference.InRange draft.model.census) :
    (∃ id, member = .package id) ∨ ∃ declaration, (member, declaration) ∈ draft.waiting := by
  have held : ∀ {identifier declaration : Type} {pendings : Array (Pending identifier declaration)}
      {index : identifier → Nat} {size position : Nat},
      pendings.toList.map (fun pending => index pending.id) = List.range size → position < size →
        ∃ pending ∈ pendings, index pending.id = position := by
    intro identifier declaration pendings index size position ids bound
    have member := List.mem_range.mpr bound
    rw [← ids] at member
    obtain ⟨pending, held, same⟩ := List.mem_map.mp member
    exact ⟨pending, Array.mem_toList_iff.mp held, same⟩
  cases member with
  | package id => exact .inl ⟨id, rfl⟩
  | record id =>
    obtain ⟨pending, waits, same⟩ := held represents.recordIds inRange
    exact .inr ⟨_, mem_waiting.mpr (.inl ⟨pending, waits, by rw [RecordId.ext same], rfl⟩)⟩
  | constant id =>
    obtain ⟨pending, waits, same⟩ := held represents.constantIds inRange
    exact .inr ⟨_, mem_waiting.mpr (.inr (.inl ⟨pending, waits, by rw [ConstantId.ext same], rfl⟩))⟩
  | enumeration id =>
    obtain ⟨pending, waits, same⟩ := held represents.enumerationIds inRange
    exact .inr ⟨_, mem_waiting.mpr (.inr (.inr ⟨pending, waits, by rw [EnumId.ext same], rfl⟩))⟩

theorem declared_iff {site : Site} {declaration : Declared} :
    .declared site declaration ∈ items ↔
      ∃ member, (member, declaration) ∈ draft.waiting ∧
        draft.model.site (draft.model.home member) = site := by
  have same := represents.declared.mem_iff (a := .declared site declaration)
  rw [List.mem_filter, List.mem_map] at same
  constructor
  · intro member
    obtain ⟨⟨held, found⟩, waits, equal⟩ := same.mpr ⟨member, rfl⟩
    obtain ⟨rfl, rfl⟩ := Item.declared.inj equal
    exact ⟨held, waits, rfl⟩
  · rintro ⟨member, waits, rfl⟩
    exact (same.mp ⟨_, waits, rfl⟩).1

/-- The record types are those that are declared, with their marks. -/
theorem record_iff {path : List String} {name : String} {mark : Bool} :
    (∃ declaration : Declaration.Record, declaration.name = name ∧
        .declared (.package path) (.record mark declaration) ∈ items) ↔
      ∃ id : RecordId, id.index < draft.model.records.size ∧
        draft.model.packageNames (draft.model.record id).package = path ∧
        (draft.model.record id).name = name ∧ (draft.model.record id).included = mark := by
  constructor
  · rintro ⟨declaration, rfl, held⟩
    obtain ⟨member, waits, site⟩ := represents.declared_iff.mp held
    have inRange := represents.consistent.waiting_inRange waits
    have named := represents.names _ waits
    rcases mem_waiting.mp waits with ⟨pending, _, rfl, same⟩ | ⟨_, _, _, same⟩ | ⟨_, _, _, same⟩
    · obtain ⟨rfl, rfl⟩ := Declared.record.inj same
      exact ⟨pending.id, inRange, Site.package.inj site, named, rfl⟩
    · cases same
    · cases same
  · rintro ⟨id, inside, rfl, rfl, rfl⟩
    have inRange : (Member.record id).reference.InRange draft.model.census := inside
    rcases represents.waits inRange with ⟨_, same⟩ | ⟨declaration, waits⟩
    · cases same
    · have item := represents.declared_iff.mpr ⟨_, waits, rfl⟩
      have named := represents.names _ waits
      rcases mem_waiting.mp waits with ⟨pending, _, same, rfl⟩ | ⟨_, _, same, _⟩ | ⟨_, _, same, _⟩
      · rw [← Member.record.inj same] at item
        exact ⟨pending.declaration, named.symm, item⟩
      · cases same
      · cases same

/-- The keys that are taken are those of the declarations that are not packages. -/
theorem mem_keys {site : Site} {name : String} :
    (site, name) ∈ items.filterMap Item.key? ↔
      ∃ member, (∀ id, member ≠ .package id) ∧ member.reference.InRange draft.model.census ∧
        draft.model.site (draft.model.home member) = site ∧ draft.model.memberName member = name := by
  rw [List.mem_filterMap]
  constructor
  · rintro ⟨item, held, key⟩
    cases item with
    | declared place declaration =>
      obtain ⟨rfl, rfl⟩ : place = site ∧ declaration.name = name := by
        simpa [Item.key?] using key
      obtain ⟨member, waits, rfl⟩ := represents.declared_iff.mp held
      refine ⟨member, ?_, represents.consistent.waiting_inRange waits, rfl,
        represents.names _ waits⟩
      rintro id rfl
      simp [mem_waiting] at waits
    | package _ _ | unnamed => cases key
  · rintro ⟨member, other, inRange, rfl, rfl⟩
    rcases represents.waits inRange with ⟨id, rfl⟩ | ⟨declaration, waits⟩
    · exact absurd rfl (other id)
    · refine ⟨_, represents.declared_iff.mpr ⟨member, waits, rfl⟩, ?_⟩
      rw [Item.key?, ← represents.names _ waits]

/-- A path is open if and only if its last name stands for a package at the site of the others. -/
theorem package_iff {outer : List String} {name : String} :
    (∃ included, .package (outer ++ [name]) included ∈ items) ↔
      ∃ id : PackageId, id.index < draft.model.packages.size ∧
        draft.model.site (draft.model.home (.package id)) = .package outer ∧
        draft.model.memberName (.package id) = name := by
  rw [represents.packages]
  refine exists_congr fun id => and_congr_right fun inside => ?_
  rw [represents.wellNamed.packageNames_eq inside, Model.home, site_package, Site.package.injEq]
  constructor
  · intro same
    exact (List.append_inj' same rfl).imp_right fun last => (List.cons.inj last).1
  · rintro ⟨rfl, rfl⟩
    rfl

/-- What a name stands for, by sites. -/
theorem lookup_eq_some_iff {place : Option Scope}
    (inside : ∀ scope ∈ place, scope.reference.InRange draft.model.census) {name : String}
    {member : Member} :
    (draft.model.entries place).lookup name = some member ↔
      member.reference.InRange draft.model.census ∧
        draft.model.site (draft.model.home member) = draft.model.site place ∧
        draft.model.memberName member = name := by
  rw [represents.wellNamed.lookup_eq_some_iff]
  refine and_congr_right fun inRange => and_congr_left fun _ => ⟨fun same => by rw [same], ?_⟩
  exact represents.wellNamed.site_injective
    (fun scope home => represents.wellNamed.closed.home inRange scope home) inside

/-- A declaration fits in if it has a name that stands for nothing else where it stands. -/
theorem fits_declared {scope : Scope} (inside : scope.reference.InRange draft.model.census)
    {declaration : Declared} :
    Fits (items ++ [.declared (draft.model.site (some scope)) declaration]) ↔
      Text.allBlank declaration.name = false ∧
        (draft.model.entries (some scope)).lookup declaration.name = none := by
  have place : ∀ outer ∈ some scope, outer.reference.InRange draft.model.census := by
    intro outer member
    cases member
    exact inside
  rw [Fits.declare, Option.eq_none_iff_forall_ne_some]
  constructor
  · rintro ⟨_, named, free, unopened⟩
    refine ⟨named, fun member found => ?_⟩
    obtain ⟨inRange, site, name⟩ := (represents.lookup_eq_some_iff place).mp found
    by_cases package : ∃ id, member = .package id
    · obtain ⟨id, rfl⟩ := package
      rw [Model.home, site_package] at site
      obtain ⟨included, opened⟩ := represents.package_iff.mpr
        ⟨id, inRange, site_package _, name⟩
      exact unopened _ included site.symm opened
    · exact free (represents.mem_keys.mpr
        ⟨member, fun id same => package ⟨id, same⟩, inRange, site, name⟩)
  · rintro ⟨named, free⟩
    refine ⟨represents.fits, named, fun taken => ?_, fun outer included site opened => ?_⟩
    · obtain ⟨member, _, inRange, site, name⟩ := represents.mem_keys.mp taken
      exact free member ((represents.lookup_eq_some_iff place).mpr ⟨inRange, site, name⟩)
    · obtain ⟨id, inRange, home, name⟩ := represents.package_iff.mp ⟨included, opened⟩
      exact free (.package id)
        ((represents.lookup_eq_some_iff place).mpr ⟨inRange, home.trans site.symm, name⟩)

/-- A package fits in if its name stands for nothing but a package where it stands. -/
theorem fits_opened {parent : Option PackageId}
    (inside : ∀ outer ∈ parent, outer.index < draft.model.packages.size) {name : String}
    {included : Bool} :
    Fits (items ++ [.package (draft.model.pathTo parent ++ [name]) included]) ↔
      ∀ member, (draft.model.entries (parent.map .package)).lookup name = some member →
        ∃ id, member = .package id := by
  have place : ∀ outer ∈ parent.map Scope.package,
      outer.reference.InRange draft.model.census := by
    intro outer member
    obtain ⟨id, found, rfl⟩ := Option.map_eq_some_iff.mp member
    exact inside id found
  rw [Fits.opened, represents.mem_keys]
  constructor
  · rintro ⟨_, free⟩ member found
    obtain ⟨inRange, site, named⟩ := (represents.lookup_eq_some_iff place).mp found
    refine Classical.byContradiction fun other => free ⟨member, ?_, inRange, ?_, named⟩
    · exact fun id same => other ⟨id, same⟩
    · rw [site, site_package]
  · intro packages
    refine ⟨represents.fits, ?_⟩
    rintro ⟨member, other, inRange, site, named⟩
    rw [← site_package] at site
    obtain ⟨id, same⟩ := packages member
      ((represents.lookup_eq_some_iff place).mpr ⟨inRange, site, named⟩)
    exact other id same

/-- What lists the same and leaves names and marks alone represents the same. -/
theorem relinked {model : Model} (keeps : Keeps draft.model model)
    (same : SameLists draft.model model) (consistent : Consistent { draft with model })
    (included : ∀ id, (model.package id).included = (draft.model.package id).included) :
    Represents { draft with model } items := by
  have wellScoped := represents.wellNamed.toWellScoped
  have size : model.packages.size = draft.model.packages.size := congrArg Census.packages same.census
  have paths : ∀ {id : PackageId}, id.index < draft.model.packages.size →
      model.packageNames id = draft.model.packageNames id :=
    fun inside => keeps.packageNames wellScoped inside
  constructor
  case consistent => exact consistent
  case wellNamed =>
    exact represents.wellNamed.of_sameLists same consistent.wellScoped.closed keeps.memberName
  case fits => exact represents.fits
  case packages =>
    intro path
    rw [represents.packages path, size]
    exact exists_congr fun id => and_congr_right fun inside => by rw [paths inside]
  case primary =>
    intro id inside
    rw [size] at inside
    rw [included, represents.primary id inside, paths inside]
  case declared =>
    rw [represents.consistent.waiting_keeps keeps, represents.consistent.map_itemAt keeps]
    exact represents.declared
  case names =>
    intro entry waits
    rw [represents.consistent.waiting_keeps keeps] at waits
    rw [keeps.memberName entry.1 (represents.consistent.waiting_inRange waits),
      represents.names entry waits]
  case recordIds =>
    exact represents.recordIds.trans (congrArg List.range (congrArg Census.records same.census).symm)
  case constantIds =>
    exact represents.constantIds.trans
      (congrArg List.range (congrArg Census.constants same.census).symm)
  case enumerationIds =>
    exact represents.enumerationIds.trans
      (congrArg List.range (congrArg Census.enumerations same.census).symm)

/-!
## One more item
-/

/-- A declaration that has been named is represented. -/
theorem declare {after : Draft} {scope : Scope} {added : Member} (declaration : Declared)
    (step : Names (some scope) declaration.name added draft.model after.model)
    (consistent : after.Consistent)
    (packages : after.model.packages.size = draft.model.packages.size)
    (waits : after.waiting.Perm ((added, declaration) :: draft.waiting))
    (named : Text.allBlank declaration.name = false)
    (free : (draft.model.entries (some scope)).lookup declaration.name = none)
    (recordIds : after.records.toList.map (·.id.index) = List.range after.model.records.size)
    (constantIds : after.constants.toList.map (·.id.index) = List.range after.model.constants.size)
    (enumerationIds :
      after.enumerations.toList.map (·.id.index) = List.range after.model.enumerations.size) :
    Represents after (items ++ [.declared (draft.model.site (some scope)) declaration]) := by
  have inside := step.inside scope rfl
  have wellScoped := represents.wellNamed.toWellScoped
  have paths : ∀ {id : PackageId}, id.index < draft.model.packages.size →
      after.model.packageNames id = draft.model.packageNames id :=
    fun inside => step.keeps.packageNames wellScoped inside
  constructor
  case consistent => exact consistent
  case wellNamed => exact represents.wellNamed.naming step consistent.wellScoped.closed free
  case fits => exact (represents.fits_declared inside).mpr ⟨named, free⟩
  case packages =>
    intro path
    rw [packages]
    simp only [List.mem_append, List.mem_singleton, reduceCtorEq, or_false]
    rw [represents.packages]
    exact exists_congr fun id => and_congr_right fun inside => by rw [paths inside]
  case primary =>
    intro id bound
    rw [packages] at bound
    rw [step.included id bound, represents.primary id bound, paths bound]
    simp
  case declared =>
    refine (waits.map _).trans ?_
    rw [List.map_cons, represents.consistent.map_itemAt step.keeps, List.filter_append]
    have last : itemAt after.model (added, declaration) =
        .declared (draft.model.site (some scope)) declaration := by
      rw [itemAt, step.home, step.keeps.site wellScoped fun outer member => ?_]
      cases member
      exact inside
    rw [last, ← List.singleton_append]
    exact List.perm_append_comm.trans (represents.declared.append (.refl _))
  case names =>
    intro entry member
    rcases List.mem_cons.mp (waits.mem_iff.mp member) with rfl | old
    · exact step.named
    · rw [step.keeps.memberName entry.1 (represents.consistent.waiting_inRange old),
        represents.names entry old]
  case recordIds => exact recordIds
  case constantIds => exact constantIds
  case enumerationIds => exact enumerationIds

theorem declareConstant {model : Model} {scope : Scope} {declaration : Declaration.Constant}
    {path : String}
    (step : Names (some scope) declaration.name (.constant ⟨draft.model.constants.size⟩) draft.model
      model)
    (census : model.census =
      { draft.model.census with constants := draft.model.constants.size + 1 })
    (consistent : Consistent { draft with
      model
      constants := draft.constants.push ⟨⟨draft.model.constants.size⟩, declaration, path⟩ })
    (named : Text.allBlank declaration.name = false)
    (free : (draft.model.entries (some scope)).lookup declaration.name = none) :
    Represents
      { draft with
        model
        constants := draft.constants.push ⟨⟨draft.model.constants.size⟩, declaration, path⟩ }
      (items ++ [.ofConstant (draft.model.site (some scope)) declaration]) := by
  refine represents.declare (.constant declaration) step consistent (congrArg Census.packages census) ?_ named
    free ?_ ?_ ?_
  · refine (waiting_push_constant { draft with model } _).trans (.of_eq ?_)
    rw [represents.consistent.waiting_keeps step.keeps]
  · exact represents.recordIds.trans (congrArg List.range (congrArg Census.records census).symm)
  · exact (ids_push represents.constantIds rfl).trans
      (congrArg List.range (congrArg Census.constants census).symm)
  · exact represents.enumerationIds.trans
      (congrArg List.range (congrArg Census.enumerations census).symm)

theorem declareEnumeration {model : Model} {scope : Scope}
    {declaration : Declaration.Enumeration} {path : String}
    (step : Names (some scope) (declaration.name.getD "")
      (.enumeration ⟨draft.model.enumerations.size⟩) draft.model model)
    (census : model.census =
      { draft.model.census with enumerations := draft.model.enumerations.size + 1 })
    (consistent : Consistent { draft with
      model
      enumerations := draft.enumerations.push ⟨⟨draft.model.enumerations.size⟩, declaration, path⟩ })
    (named : Text.allBlank (declaration.name.getD "") = false)
    (free : (draft.model.entries (some scope)).lookup (declaration.name.getD "") = none) :
    Represents
      { draft with
        model
        enumerations := draft.enumerations.push
          ⟨⟨draft.model.enumerations.size⟩, declaration, path⟩ }
      (items ++ [.ofEnumeration (draft.model.site (some scope)) declaration]) := by
  refine represents.declare (.enumeration declaration) step consistent (congrArg Census.packages census) ?_ named
    free ?_ ?_ ?_
  · refine (waiting_push_enumeration { draft with model } _).trans (.of_eq ?_)
    rw [represents.consistent.waiting_keeps step.keeps]
  · exact represents.recordIds.trans (congrArg List.range (congrArg Census.records census).symm)
  · exact represents.constantIds.trans (congrArg List.range (congrArg Census.constants census).symm)
  · exact (ids_push represents.enumerationIds rfl).trans
      (congrArg List.range (congrArg Census.enumerations census).symm)

theorem declareRecord {model : Model} {package : PackageId} {included : Bool}
    {declaration : Declaration.Record} {path : String}
    (step : Names (some (.package package)) declaration.name (.record ⟨draft.model.records.size⟩)
      draft.model model)
    (census : model.census = { draft.model.census with records := draft.model.records.size + 1 })
    (mark : (model.record ⟨draft.model.records.size⟩).included = included)
    (consistent : Consistent { draft with
      model
      records := draft.records.push ⟨⟨draft.model.records.size⟩, declaration, path⟩ })
    (named : Text.allBlank declaration.name = false)
    (free : (draft.model.entries (some (.package package))).lookup declaration.name = none) :
    Represents
      { draft with
        model
        records := draft.records.push ⟨⟨draft.model.records.size⟩, declaration, path⟩ }
      (items ++ [.declared (.package (draft.model.packageNames package))
        (.record included declaration)]) := by
  refine represents.declare (.record included declaration) step consistent (congrArg Census.packages census) ?_ named
    free ?_ ?_ ?_
  · refine (waiting_push_record { draft with model } _).trans (.of_eq ?_)
    rw [represents.consistent.waiting_keeps step.keeps, mark]
  · exact (ids_push represents.recordIds rfl).trans
      (congrArg List.range (congrArg Census.records census).symm)
  · exact represents.constantIds.trans (congrArg List.range (congrArg Census.constants census).symm)
  · exact represents.enumerationIds.trans
      (congrArg List.range (congrArg Census.enumerations census).symm)

/-- A package that is open, be it new or not, is represented. -/
theorem opened {model : Model} {path : List String} {included : Bool}
    (keeps : Keeps draft.model model) (consistent : Consistent { draft with model })
    (wellNamed : model.WellNamed) (fits : Fits (items ++ [.package path included]))
    (records : model.records.size = draft.model.records.size)
    (constants : model.constants.size = draft.model.constants.size)
    (enumerations : model.enumerations.size = draft.model.enumerations.size)
    {id : PackageId} (inside : id.index < model.packages.size) (here : model.packageNames id = path)
    (others : ∀ other : PackageId, other.index < model.packages.size → other ≠ id →
      other.index < draft.model.packages.size ∧
        (model.package other).included = (draft.model.package other).included)
    (mark : (model.package id).included = false ↔ included = false ∨ .package path false ∈ items) :
    Represents { draft with model } (items ++ [.package path included]) := by
  have wellScoped := represents.wellNamed.toWellScoped
  have paths : ∀ {id : PackageId}, id.index < draft.model.packages.size →
      model.packageNames id = draft.model.packageNames id :=
    fun inside => keeps.packageNames wellScoped inside
  constructor
  case consistent => exact consistent
  case wellNamed => exact wellNamed
  case fits => exact fits
  case packages =>
    intro other
    constructor
    · rintro ⟨flag, member⟩
      rcases List.mem_append.mp member with old | new
      · obtain ⟨found, bound, rfl⟩ := (represents.packages other).mp ⟨flag, old⟩
        exact ⟨found, Nat.lt_of_lt_of_le bound keeps.census.packages, paths bound⟩
      · obtain ⟨rfl, rfl⟩ := Item.package.inj (List.mem_singleton.mp new)
        exact ⟨id, inside, here⟩
    · rintro ⟨found, bound, rfl⟩
      by_cases same : found = id
      · rw [same, here]
        exact ⟨included, by simp⟩
      · obtain ⟨old, _⟩ := others found bound same
        obtain ⟨flag, member⟩ := (represents.packages _).mpr ⟨found, old, rfl⟩
        exact ⟨flag, List.mem_append_left _ (paths old ▸ member)⟩
  case primary =>
    intro other bound
    by_cases same : other = id
    · subst same
      rw [mark, here]
      simp [or_comm, eq_comm]
    · obtain ⟨old, kept⟩ := others other bound same
      have apart : model.packageNames other ≠ path := fun equal =>
        same (wellNamed.packageNames_injective bound inside (equal.trans here.symm))
      rw [kept, represents.primary other old, ← paths old]
      simp [apart]
  case declared =>
    rw [represents.consistent.waiting_keeps keeps, represents.consistent.map_itemAt keeps]
    simpa [Item.isDeclared] using represents.declared
  case names =>
    intro entry waits
    rw [represents.consistent.waiting_keeps keeps] at waits
    rw [keeps.memberName entry.1 (represents.consistent.waiting_inRange waits),
      represents.names entry waits]
  case recordIds => exact represents.recordIds.trans (by rw [records])
  case constantIds => exact represents.constantIds.trans (by rw [constants])
  case enumerationIds => exact represents.enumerationIds.trans (by rw [enumerations])

end Represents

end RecordSchema.Draft
