import RecordSchema.Proofs.Model.Linkage
import RecordSchema.Model.Navigation

/-!
# Walks upward, names and paths

A record type leads to its base and a package to the package around it. Where such a walk ends, the
executable walks, which are bounded, take all of it. In a well-named model every declaration is listed
under its own name, and no two under the same name in one place. So a package is known by its path.
-/

set_option autoImplicit false

namespace RecordSchema

/-- The whole walk from an item along its links, up to an item without one. -/
inductive LinkChain {α : Type} (next : α → Option α) : α → List α → Prop where
  | last {item : α} : next item = none → LinkChain next item [item]
  | more {item following : α} {rest : List α} : next item = some following →
      LinkChain next following rest → LinkChain next item (item :: rest)

namespace LinkChain

variable {α : Type} {next : α → Option α} {item : α} {items : List α}

theorem head? (chain : LinkChain next item items) : items.head? = some item := by
  cases chain <;> rfl

/-- A walk of more than one item goes on from the item that the first is linked to. -/
theorem uncons {first : α} {rest : List α} (chain : LinkChain next item (first :: rest))
    (longer : rest ≠ []) :
    ∃ following, next item = some following ∧ LinkChain next following rest ∧
      rest.head? = some following := by
  cases chain with
  | last => exact absurd rfl longer
  | more found tail => exact ⟨_, found, tail, tail.head?⟩

/-- There is one walk only. -/
theorem unique {others : List α} (chain : LinkChain next item items)
    (other : LinkChain next item others) : items = others := by
  induction chain generalizing others with
  | last ends =>
    cases other with
    | last => rfl
    | more found _ => rw [ends] at found; cases found
  | more found _ ih =>
    cases other with
    | last ends => rw [found] at ends; cases ends
    | more same later =>
      rw [found] at same
      cases same
      rw [ih later]

/-- Whatever stands in a walk has a walk of its own, which is not longer. -/
theorem suffix (chain : LinkChain next item items) {other : α} (member : other ∈ items) :
    ∃ later, LinkChain next other later ∧ later.length ≤ items.length := by
  induction chain with
  | last ends =>
    cases List.mem_singleton.mp member
    exact ⟨_, .last ends, Nat.le_refl _⟩
  | more found rest ih =>
    rcases List.mem_cons.mp member with rfl | inside
    · exact ⟨_, .more found rest, Nat.le_refl _⟩
    · obtain ⟨later, walk, bound⟩ := ih inside
      exact ⟨later, walk, Nat.le_succ_of_le bound⟩

/-- A walk that ends passes no item twice: from the second occurrence the walk would be the whole one and yet
shorter. -/
theorem nodup (chain : LinkChain next item items) : items.Nodup := by
  induction chain with
  | last => simp
  | @more item following rest found tail ih =>
    refine List.nodup_cons.mpr ⟨?_, ih⟩
    intro member
    obtain ⟨later, walk, bound⟩ := tail.suffix member
    have same := (LinkChain.more found tail).unique walk
    rw [← same, List.length_cons] at bound
    omega

private theorem mem_of (chain : LinkChain next item items) {good : α → Prop} (start : good item)
    (kept : ∀ other following, good other → next other = some following → good following) :
    ∀ other ∈ items, good other := by
  induction chain with
  | last =>
    intro other member
    cases List.mem_singleton.mp member
    exact start
  | more found _ ih =>
    intro other member
    rcases List.mem_cons.mp member with rfl | later
    · exact start
    · exact ih (kept _ _ start found) other later

theorem congr {later : α → Option α} (chain : LinkChain next item items)
    (same : ∀ other, later other = next other) : LinkChain later item items := by
  induction chain with
  | last ends => exact .last (by rw [same, ends])
  | more found _ ih => exact .more (by rw [same, found]) ih

end LinkChain

namespace Model

/-- The walk from a record type to its base, the base of that, and so on. -/
def BaseChain (model : Model) : RecordId → List RecordId → Prop :=
  LinkChain fun id => (model.record id).base

/-- The walk from a package to the packages around it. -/
def ParentChain (model : Model) : PackageId → List PackageId → Prop :=
  LinkChain fun id => (model.package id).parent

/-- Distinct record types in range are no more than there are record types. -/
theorem length_le_records {model : Model} {ids : List RecordId} (distinct : ids.Nodup)
    (inside : ∀ id ∈ ids, id.index < model.records.size) : ids.length ≤ model.records.size := by
  have covered : ids ⊆ model.recordIds := by
    intro id member
    exact List.mem_map.mpr ⟨id.index, List.mem_range.mpr (inside id member), rfl⟩
  have bound := distinct.length_le_of_subset covered
  simpa [recordIds] using bound

private theorem basesFrom_eq {model : Model} {id : RecordId} {ids : List RecordId}
    (chain : model.BaseChain id ids) {fuel : Nat} {seen : List RecordId} (bound : ids.length ≤ fuel)
    (fresh : ∀ other ∈ ids, other ∉ seen) : model.basesFrom fuel seen id = ids := by
  induction chain generalizing fuel seen with
  | @last id ends =>
    obtain ⟨fuel, rfl⟩ := Nat.exists_eq_succ_of_ne_zero (Nat.ne_of_gt bound)
    have unseen := fresh id (by simp)
    simp [basesFrom, unseen, ends]
  | @more id base rest found tail ih =>
    obtain ⟨fuel, rfl⟩ := Nat.exists_eq_succ_of_ne_zero (Nat.ne_of_gt (Nat.lt_of_lt_of_le
      (Nat.succ_pos rest.length) bound))
    have unseen := fresh id (by simp)
    have distinct := List.nodup_cons.mp (LinkChain.more found tail).nodup
    rw [basesFrom, if_neg unseen]
    simp only [found]
    rw [ih (Nat.le_of_succ_le_succ bound)]
    intro other member unfresh
    rcases List.mem_cons.mp unfresh with rfl | earlier
    · exact distinct.1 member
    · exact fresh other (by simp [member]) earlier

/-- The lineage of a type is the whole walk along its bases, if that ends. -/
theorem lineage_eq {model : Model} (closed : model.Closed) {id : RecordId}
    (inside : id.index < model.records.size) {ids : List RecordId} (chain : model.BaseChain id ids) :
    model.lineage id = ids := by
  refine basesFrom_eq chain ?_ (by simp)
  refine Nat.le_succ_of_le (length_le_records chain.nodup ?_)
  exact chain.mem_of inside fun other base _ found => closed.base other base found

/-- Parents come before their packages, so the walk to the outermost package ends. -/
theorem WellScoped.parentChain {model : Model} (wellScoped : model.WellScoped) {id : PackageId}
    (inside : id.index < model.packages.size) : model.ParentChain id (model.enclosing id) := by
  fun_induction model.enclosing id with
  | case1 id root => exact .last root
  | case2 id parent found before ih =>
    exact .more found (ih (wellScoped.closed.parent id parent found))
  | case3 id parent found after =>
    exact absurd (wellScoped.parentBefore id inside parent found) after

end Model

/-- A place, known by names alone. -/
inductive Site where
  | package (path : List String)
  | record (path : List String) (name : String)
deriving DecidableEq

namespace Model

/-- Every declaration is listed under its name, and no name stands twice in a place. -/
structure WellNamed (model : Model) : Prop extends WellScoped model where
  names : ∀ place, ∀ entry ∈ model.entries place, model.memberName entry.2 = entry.1
  distinct : ∀ place, ((model.entries place).map (·.1)).Nodup

/-- The names of the packages from the outermost down to the given one. -/
def packageNames (model : Model) (id : PackageId) : List String :=
  (model.packageChain id).map fun package => (model.package package).name

/-!
## Entries
-/

theorem lookup_eq_some_iff_mem {α β : Type} [BEq α] [LawfulBEq α] {entries : List (α × β)}
    (distinct : (entries.map (·.1)).Nodup) {key : α} {value : β} :
    entries.lookup key = some value ↔ (key, value) ∈ entries := by
  constructor
  · exact mem_of_lookup
  · intro member
    obtain ⟨before, after, rfl⟩ := List.append_of_mem member
    refine List.lookup_eq_some_iff.mpr ⟨before, after, rfl, fun entry earlier => ?_⟩
    rw [List.map_append, List.nodup_append] at distinct
    have different := distinct.2.2 entry.1 (List.mem_map_of_mem earlier) key (by simp)
    simpa using different.symm

namespace WellNamed

variable {model : Model} (wellNamed : model.WellNamed)

include wellNamed

/-- A declaration is listed where it is at home, under its name, and nowhere else. -/
theorem mem_entries {place : Option Scope} {name : String} {member : Member} :
    (name, member) ∈ model.entries place ↔
      member.reference.InRange model.census ∧ model.home member = place ∧
        model.memberName member = name := by
  constructor
  · intro listed
    have held : member ∈ model.contents place := by
      rw [contents_eq]
      exact List.mem_map.mpr ⟨_, listed, rfl⟩
    have inRange := wellNamed.closed.contents place member held
    exact ⟨inRange, (wellNamed.named.mem_iff inRange).mp held, wellNamed.names place _ listed⟩
  · rintro ⟨inRange, home, named⟩
    have held := (wellNamed.named.mem_iff inRange).mpr home
    rw [contents_eq] at held
    obtain ⟨⟨key, _⟩, listed, rfl⟩ := List.mem_map.mp held
    have same := wellNamed.names place _ listed
    rw [← named, same]
    exact listed

theorem lookup_eq_some_iff {place : Option Scope} {name : String} {member : Member} :
    (model.entries place).lookup name = some member ↔
      member.reference.InRange model.census ∧ model.home member = place ∧
        model.memberName member = name :=
  (lookup_eq_some_iff_mem (wellNamed.distinct place)).trans wellNamed.mem_entries

/-- Place and name determine a declaration. -/
theorem member_eq {one other : Member} (inRange : one.reference.InRange model.census)
    (otherInRange : other.reference.InRange model.census)
    (home : model.home one = model.home other)
    (named : model.memberName one = model.memberName other) : one = other := by
  have first := wellNamed.lookup_eq_some_iff.mpr ⟨inRange, home, named⟩
  have second := wellNamed.lookup_eq_some_iff.mpr ⟨otherInRange, rfl, rfl⟩
  exact Option.some.inj (first.symm.trans second)

end WellNamed

/-!
## Paths
-/

section Paths

variable {model : Model}

private theorem packageNames_root {id : PackageId} (root : (model.package id).parent = none) :
    model.packageNames id = [(model.package id).name] := by
  rw [packageNames, packageChain, enclosing]
  simp [root]

private theorem packageNames_nested {id parent : PackageId}
    (found : (model.package id).parent = some parent) (before : parent.index < id.index) :
    model.packageNames id = model.packageNames parent ++ [(model.package id).name] := by
  rw [packageNames, packageChain, enclosing]
  simp [found, before, packageNames, packageChain]

theorem packageNames_ne_nil (id : PackageId) : model.packageNames id ≠ [] := by
  rw [packageNames, packageChain, enclosing]
  cases (model.package id).parent with
  | none => simp
  | some parent =>
    dsimp only
    split <;> simp

/-- The names down to a package, none of them for what is outermost. -/
def pathTo (model : Model) : Option PackageId → List String
  | none => []
  | some id => model.packageNames id

theorem WellScoped.packageNames_eq (wellScoped : model.WellScoped) {id : PackageId}
    (inside : id.index < model.packages.size) :
    model.packageNames id = model.pathTo (model.package id).parent ++ [(model.package id).name] := by
  cases found : (model.package id).parent with
  | none => rw [packageNames_root found, pathTo, List.nil_append]
  | some parent => exact packageNames_nested found (wellScoped.parentBefore id inside parent found)

theorem self_mem_enclosing (model : Model) (id : PackageId) : id ∈ model.enclosing id := by
  rw [enclosing]
  split
  · simp
  · split <;> simp

/-- The path of a package starts with the paths of the packages around it. -/
theorem prefix_of_enclosing {id outer : PackageId} (around : outer ∈ model.enclosing id) :
    model.packageNames outer <+: model.packageNames id := by
  fun_induction model.enclosing id with
  | case1 id root =>
    cases List.mem_singleton.mp around
    exact List.prefix_refl _
  | case2 id parent found before ih =>
    rcases List.mem_cons.mp around with rfl | further
    · exact List.prefix_refl _
    · rw [packageNames_nested found before]
      exact (ih further).trans (List.prefix_append ..)
  | case3 id parent found after =>
    cases List.mem_singleton.mp around
    exact List.prefix_refl _

/-- Different packages have different paths. The last names agree, and so do the homes: both outermost or,
by induction, the same parent. -/
theorem WellNamed.packageNames_injective (wellNamed : model.WellNamed) {one other : PackageId}
    (inside : one.index < model.packages.size) (otherInside : other.index < model.packages.size)
    (same : model.packageNames one = model.packageNames other) : one = other := by
  induction size : one.index using Nat.strongRecOn generalizing one other with
  | ind bound ih =>
    have split := same
    rw [wellNamed.packageNames_eq inside, wellNamed.packageNames_eq otherInside] at split
    obtain ⟨outer, names⟩ := List.append_inj' split rfl
    have home : (model.package one).parent = (model.package other).parent := by
      cases found : (model.package one).parent with
      | none =>
        cases otherFound : (model.package other).parent with
        | none => rfl
        | some otherParent =>
          rw [found, otherFound] at outer
          exact absurd outer.symm (packageNames_ne_nil otherParent)
      | some parent =>
        cases otherFound : (model.package other).parent with
        | none =>
          rw [found, otherFound] at outer
          exact absurd outer (packageNames_ne_nil parent)
        | some otherParent =>
          rw [found, otherFound] at outer
          rw [ih parent.index (size ▸ wellNamed.parentBefore one inside parent found)
            (wellNamed.closed.parent one parent found)
            (wellNamed.closed.parent other otherParent otherFound) outer rfl]
    refine Member.package.inj (wellNamed.member_eq inside otherInside ?_ (List.cons.inj names).1)
    rw [Model.home, Model.home, home]

end Paths

/-!
## What stays
-/

section Later

variable {before after : Model}

/-- A package that is there has the same path later. -/
theorem Keeps.packageNames (keeps : Keeps before after) (wellScoped : before.WellScoped)
    {id : PackageId} (inside : id.index < before.packages.size) :
    after.packageNames id = before.packageNames id := by
  induction size : id.index using Nat.strongRecOn generalizing id with
  | ind bound ih =>
    have name : (after.package id).name = (before.package id).name :=
      keeps.memberName (.package id) inside
    have home : after.home (.package id) = before.home (.package id) :=
      keeps.home (.package id) inside
    cases found : (before.package id).parent with
    | none =>
      have root : (after.package id).parent = none := by simpa [Model.home, found] using home
      rw [packageNames_root root, packageNames_root found, name]
    | some parent =>
      have nested : (after.package id).parent = some parent := by
        simpa [Model.home, found] using home
      have earlier := wellScoped.parentBefore id inside parent found
      have outer := wellScoped.closed.parent id parent found
      rw [packageNames_nested nested earlier, packageNames_nested found earlier, name,
        ih parent.index (size ▸ earlier) outer rfl]

/-- One more declaration under a name that is free in its place. -/
theorem WellNamed.naming (wellNamed : before.WellNamed) {place : Option Scope} {name : String}
    {added : Member} (step : Names place name added before after) (closed : after.Closed)
    (free : (before.entries place).lookup name = none) : after.WellNamed where
  toWellScoped := wellNamed.toWellScoped.names step closed
  names other entry listed := by
    have old : ∀ entry ∈ before.entries other, after.memberName entry.2 = entry.1 := by
      intro entry listed
      obtain ⟨inRange, _, named⟩ := wellNamed.mem_entries.mp listed
      exact (step.keeps.memberName entry.2 inRange).trans named
    have held := (step.entries other).mem_iff.mp listed
    split at held
    · rcases List.mem_cons.mp held with rfl | earlier
      · exact step.named
      · exact old entry earlier
    · exact old entry held
  distinct other := by
    rw [((step.entries other).map (·.1)).nodup_iff]
    split
    · rename_i same
      subst same
      refine List.nodup_cons.mpr ⟨fun member => ?_, wellNamed.distinct place⟩
      obtain ⟨⟨_, member⟩, listed, rfl⟩ := List.mem_map.mp member
      rw [(lookup_eq_some_iff_mem (wellNamed.distinct place)).mpr listed] at free
      cases free
    · exact wellNamed.distinct other

theorem SameLists.entries (same : SameLists before after) (place : Option Scope) :
    after.entries place = before.entries place := by
  rcases place with _ | id | id
  · simp only [Model.entries, same.roots]
  · simp only [Model.entries, same.members]
  · simp only [Model.entries, same.recordConstants, same.recordEnumerations]

/-- What lists the same and renames nothing is as well named. -/
theorem WellNamed.of_sameLists (wellNamed : before.WellNamed) (same : SameLists before after)
    (closed : after.Closed) (memberName : ∀ member : Member,
      member.reference.InRange before.census → after.memberName member = before.memberName member) :
    after.WellNamed where
  toWellScoped := wellNamed.toWellScoped.of_sameLists same closed
  names place entry listed := by
    rw [same.entries] at listed
    obtain ⟨inRange, _, named⟩ := wellNamed.mem_entries.mp listed
    rw [memberName entry.2 inRange, named]
  distinct place := by
    rw [same.entries]
    exact wellNamed.distinct place

end Later

/-!
## Sites
-/

/-- The site of a place; the outermost packages stand under the empty path. -/
def site (model : Model) : Option Scope → Site
  | none => .package []
  | some (.package id) => .package (model.packageNames id)
  | some (.record id) =>
    .record (model.packageNames (model.record id).package) (model.record id).name

section Site

variable {model : Model}

theorem site_package (parent : Option PackageId) :
    model.site (parent.map .package) = .package (model.pathTo parent) := by
  cases parent <;> rfl

/-- Different places have different sites. -/
theorem WellNamed.site_injective (wellNamed : model.WellNamed) {one other : Option Scope}
    (inside : ∀ scope ∈ one, scope.reference.InRange model.census)
    (otherInside : ∀ scope ∈ other, scope.reference.InRange model.census)
    (same : model.site one = model.site other) : one = other := by
  rcases one with _ | one | one <;> rcases other with _ | other | other
  case none.none => rfl
  case none.some.package => exact absurd (Site.package.inj same).symm (packageNames_ne_nil other)
  case some.package.none => exact absurd (Site.package.inj same) (packageNames_ne_nil one)
  case some.package.some.package =>
    rw [wellNamed.packageNames_injective (inside _ rfl) (otherInside _ rfl) (Site.package.inj same)]
  case some.record.some.record =>
    obtain ⟨path, name⟩ := Site.record.inj same
    have bound : one.index < model.records.size := inside _ rfl
    have otherBound : other.index < model.records.size := otherInside _ rfl
    have package := wellNamed.packageNames_injective (wellNamed.closed.record bound).package
      (wellNamed.closed.record otherBound).package path
    have equal : Member.record one = .record other := wellNamed.member_eq bound otherBound
      (by rw [home, home, package]) name
    rw [Member.record.inj equal]
  all_goals cases same

theorem Keeps.site {before after : Model} (keeps : Keeps before after)
    (wellScoped : before.WellScoped) {place : Option Scope}
    (inside : ∀ scope ∈ place, scope.reference.InRange before.census) :
    after.site place = before.site place := by
  rcases place with _ | id | id
  · rfl
  · exact congrArg Site.package (keeps.packageNames wellScoped (inside _ rfl))
  · have bound : id.index < before.records.size := inside _ rfl
    have package : (after.record id).package = (before.record id).package := by
      simpa [Model.home] using keeps.home (.record id) bound
    have name : (after.record id).name = (before.record id).name := keeps.memberName (.record id) bound
    rw [Model.site, Model.site, package, name,
      keeps.packageNames wellScoped (wellScoped.closed.record bound).package]

end Site

end Model

end RecordSchema
