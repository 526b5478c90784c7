import RecordSchema.Proofs.Inclusion
import RecordSchema.Proofs.Renaming.Names
import RecordSchema.Resolution.Lookup

/-!
# What names stand for in two models

If a renaming matches two models by site and name, it takes the places of the one to the places of the
other: the packages around a package, what a name stands for in a package or a record type, and the
place of a declaration. Later passes leave that alone. So a name that is looked up in corresponding scopes
stands for corresponding declarations.
-/

set_option autoImplicit false

namespace RecordSchema

open Model

/-- A renaming takes the places of a model and what is named in them to those of another model. -/
structure SameNames (ρ : Renaming) (model model' : Model) : Prop where
  records : model'.records.size = model.records.size
  enumerations : model'.enumerations.size = model.enumerations.size
  constants : model'.constants.size = model.constants.size
  recordRange : ∀ id, (ρ.record id).index < model.records.size ↔ id.index < model.records.size
  enumerationRange : ∀ id,
    (ρ.enumeration id).index < model.enumerations.size ↔ id.index < model.enumerations.size
  constantRange : ∀ id,
    (ρ.constant id).index < model.constants.size ↔ id.index < model.constants.size
  enclosing : ∀ id, model'.enclosing (ρ.package id) = (model.enclosing id).map ρ.package
  packageName : ∀ id, (model'.package (ρ.package id)).name = (model.package id).name
  members : ∀ id name, (model'.package (ρ.package id)).members.lookup name =
    ((model.package id).members.lookup name).map (Member.rename ρ)
  roots : ∀ name, model'.roots.lookup name = (model.roots.lookup name).map ρ.package
  typeMember : ∀ id name, model'.typeMember? (ρ.record id) name =
    (model.typeMember? id name).map (Member.rename ρ)
  recordName : ∀ id, (model'.record (ρ.record id)).name = (model.record id).name
  recordPackage : ∀ id, id.index < model.records.size →
    (model'.record (ρ.record id)).package = ρ.package (model.record id).package
  enumerationName : ∀ id,
    (model'.enumeration (ρ.enumeration id)).name = (model.enumeration id).name
  enumerationScope : ∀ id, id.index < model.enumerations.size →
    (model'.enumeration (ρ.enumeration id)).scope = (model.enumeration id).scope.rename ρ
  constantScope : ∀ id, id.index < model.constants.size →
    (model'.constant (ρ.constant id)).scope = (model.constant id).scope.rename ρ
  enumerationOwner : ∀ id record, id.index < model.enumerations.size →
    (model.enumeration id).scope = .record record → record.index < model.records.size

namespace Matches

variable {ρ : Renaming} {model model' : Model} (matched : Matches ρ model model')

include matched

theorem inRange' (member : Member) :
    (member.rename ρ).reference.InRange model'.census ↔ member.reference.InRange model.census := by
  rw [← matched.inRange member]
  cases member with
  | package id => exact iff_of_eq (congrArg _ matched.packages)
  | record id => exact iff_of_eq (congrArg _ matched.records)
  | enumeration id => exact iff_of_eq (congrArg _ matched.enumerations)
  | constant id => exact iff_of_eq (congrArg _ matched.constants)

theorem packageNames {id : PackageId} (inside : id.index < model.packages.size) :
    model'.packageNames (ρ.package id) = model.packageNames id := by
  obtain ⟨site, name⟩ := Prod.mk.inj (matched.key (.package id) inside)
  have inside' : (ρ.package id).index < model'.packages.size :=
    (matched.inRange' (.package id)).mpr inside
  rw [Member.rename, Model.home, Model.home, site_package, site_package] at site
  rw [matched.wellNamed.packageNames_eq inside, matched.wellNamed'.packageNames_eq inside',
    Site.package.inj site]
  exact congrArg (_ ++ [·]) name

theorem site {place : Option Scope}
    (inside : ∀ scope ∈ place, scope.reference.InRange model.census) :
    model'.site (place.map (Scope.rename ρ)) = model.site place := by
  rcases place with _ | id | id
  · rfl
  · exact congrArg Site.package (matched.packageNames (inside _ rfl))
  · obtain ⟨site, name⟩ := Prod.mk.inj (matched.key (.record id) (inside _ rfl))
    exact congrArg₂ Site.record (Site.package.inj site) name

private theorem scopeInRange {scope : Scope} (inside : scope.reference.InRange model.census) :
    (scope.rename ρ).reference.InRange model'.census := by
  cases scope with
  | package id => exact (matched.inRange' (.package id)).mpr inside
  | record id => exact (matched.inRange' (.record id)).mpr inside

theorem home (member : Member) (inside : member.reference.InRange model.census) :
    model'.home (member.rename ρ) = (model.home member).map (Scope.rename ρ) := by
  have outer : ∀ scope ∈ model.home member, scope.reference.InRange model.census :=
    fun scope home => matched.wellNamed.closed.home inside scope home
  refine matched.wellNamed'.site_injective (fun scope home => ?_) (fun scope home => ?_) ?_
  · exact matched.wellNamed'.closed.home ((matched.inRange' member).mpr inside) scope home
  · obtain ⟨inner, found, rfl⟩ := Option.map_eq_some_iff.mp home
    exact matched.scopeInRange (outer inner found)
  · rw [matched.site outer]
    exact (Prod.mk.inj (matched.key member inside)).1

theorem memberName (member : Member) (inside : member.reference.InRange model.census) :
    model'.memberName (member.rename ρ) = model.memberName member :=
  (Prod.mk.inj (matched.key member inside)).2

/-- What a name stands for in a place, it stands for in the place of the other model. -/
theorem lookup (place : Option Scope) (name : String) :
    (model'.entries (place.map (Scope.rename ρ))).lookup name =
      ((model.entries place).lookup name).map (Member.rename ρ) := by
  have iff : ∀ member : Member,
      (model'.entries (place.map (Scope.rename ρ))).lookup name = some (member.rename ρ) ↔
        (model.entries place).lookup name = some member := by
    intro member
    rw [matched.wellNamed'.lookup_eq_some_iff, matched.wellNamed.lookup_eq_some_iff,
      matched.inRange']
    refine and_congr_right fun inRange => ?_
    rw [matched.home member inRange, matched.memberName member inRange,
      (Option.map_injective (Scope.rename_injective ρ)).eq_iff]
  refine Option.ext fun other => ?_
  obtain ⟨member, rfl⟩ := Member.rename_surjective ρ other
  rw [iff, Option.map_eq_some_iff]
  constructor
  · exact fun found => ⟨member, found, rfl⟩
  · rintro ⟨_, found, same⟩
    rwa [Member.rename_injective ρ same] at found

theorem parent {id : PackageId} (inside : id.index < model.packages.size) :
    (model'.package (ρ.package id)).parent = (model.package id).parent.map ρ.package := by
  have home := matched.home (.package id) inside
  rw [Model.home, Member.rename, Model.home, Option.map_map] at home
  refine (Option.map_injective fun _ _ => Scope.package.inj) (home.trans ?_)
  rw [Option.map_map]
  rfl

private theorem packageOutside {id : PackageId} (outside : ¬ id.index < model.packages.size) :
    model.package id = default ∧ model'.package (ρ.package id) = default := by
  have inside' : ¬ (ρ.package id).index < model'.packages.size :=
    fun inside => outside ((matched.inRange' (.package id)).mp inside)
  exact ⟨model.package_eq_default outside, model'.package_eq_default inside'⟩

theorem enclosing (id : PackageId) :
    model'.enclosing (ρ.package id) = (model.enclosing id).map ρ.package := by
  induction size : id.index using Nat.strongRecOn generalizing id with
  | ind bound ih =>
    by_cases inside : id.index < model.packages.size
    · have parent := matched.parent inside
      have inside' : (ρ.package id).index < model'.packages.size :=
        (matched.inRange' (.package id)).mpr inside
      cases found : (model.package id).parent with
      | none =>
        rw [found] at parent
        rw [Model.enclosing, Model.enclosing, found, parent]
        rfl
      | some outer =>
        rw [found] at parent
        have before := matched.wellNamed.parentBefore id inside outer found
        have before' := matched.wellNamed'.parentBefore _ inside' _ parent
        rw [Model.enclosing, Model.enclosing, found, parent]
        simp only [Option.map_some, before, before', dite_true, List.map_cons]
        rw [ih outer.index (size ▸ before) outer rfl]
    · obtain ⟨none, none'⟩ := matched.packageOutside inside
      rw [Model.enclosing, Model.enclosing, none, none']
      rfl

end Matches

/-- In a record type, names stand for the constants and enumerations that it lists. -/
theorem Model.WellNamed.typeMember?_eq {model : Model} (wellNamed : model.WellNamed) (id : RecordId)
    (name : String) :
    model.typeMember? id name = (model.entries (some (.record id))).lookup name := by
  have distinct := wellNamed.distinct (some (.record id))
  rw [entries, List.map_append, List.nodup_append] at distinct
  rw [typeMember?, entries, List.lookup_append, Draft.lookup_map_snd, Draft.lookup_map_snd]
  cases constant : (model.record id).constants.lookup name with
  | none => cases (model.record id).enumerations.lookup name <;> rfl
  | some held =>
    cases enumeration : (model.record id).enumerations.lookup name with
    | none => rfl
    | some other =>
      refine absurd rfl (distinct.2.2 name ?_ name ?_)
      · exact List.mem_map.mpr
          ⟨(name, .constant held), List.mem_map_of_mem (mem_of_lookup constant), rfl⟩
      · exact List.mem_map.mpr
          ⟨(name, .enumeration other), List.mem_map_of_mem (mem_of_lookup enumeration), rfl⟩

theorem Matches.sameNames {ρ : Renaming} {model model' : Model} (matched : Matches ρ model model') :
    SameNames ρ model model' where
  records := matched.records
  enumerations := matched.enumerations
  constants := matched.constants
  recordRange id := matched.inRange (.record id)
  enumerationRange id := matched.inRange (.enumeration id)
  constantRange id := matched.inRange (.constant id)
  enclosing := matched.enclosing
  packageName id := by
    by_cases inside : id.index < model.packages.size
    · exact matched.memberName (.package id) inside
    · obtain ⟨none, none'⟩ := matched.packageOutside inside
      rw [none, none']
  members id name := matched.lookup (some (.package id)) name
  roots name := by
    have found := matched.lookup none name
    simp only [entries, Option.map_none, Draft.lookup_map_snd, Option.map_map] at found
    refine (Option.map_injective fun _ _ => Member.package.inj) (found.trans ?_)
    rw [Option.map_map]
    rfl
  typeMember id name := by
    rw [matched.wellNamed'.typeMember?_eq, matched.wellNamed.typeMember?_eq]
    exact matched.lookup (some (.record id)) name
  recordName id := by
    by_cases inside : id.index < model.records.size
    · exact matched.memberName (.record id) inside
    · have inside' : ¬ (ρ.record id).index < model'.records.size :=
        fun inside' => inside ((matched.inRange' (.record id)).mp inside')
      rw [model.record_eq_default inside, model'.record_eq_default inside']
  recordPackage id inside := by
    have home := matched.home (.record id) inside
    exact Scope.package.inj (Option.some.inj home)
  enumerationName id := by
    by_cases inside : id.index < model.enumerations.size
    · exact matched.memberName (.enumeration id) inside
    · have inside' : ¬ (ρ.enumeration id).index < model'.enumerations.size :=
        fun inside' => inside ((matched.inRange' (.enumeration id)).mp inside')
      rw [model.enumeration_eq_default inside, model'.enumeration_eq_default inside']
  enumerationScope id inside := Option.some.inj (matched.home (.enumeration id) inside)
  constantScope id inside := Option.some.inj (matched.home (.constant id) inside)
  enumerationOwner id record inside scope := by
    have member : (Member.enumeration id).reference.InRange model.census := inside
    exact matched.wellNamed.closed.home member (.record record) (by rw [Model.home, scope]; rfl)

namespace SameNames

variable {ρ : Renaming} {model model' : Model}

/-- Passes that leave names alone leave the renaming of names alone. -/
theorem retain {later later' : Model} (same : SameNames ρ model model')
    (kept : Retains Record.named model later) (kept' : Retains Record.named model' later') :
    SameNames ρ later later' := by
  have package : ∀ id, later.package id = model.package id := fun id => by
    rw [Model.package, kept.packages, Model.package]
  have package' : ∀ id, later'.package id = model'.package id := fun id => by
    rw [Model.package, kept'.packages, Model.package]
  have typeMember : ∀ {before after : Model}, Retains Record.named before after → ∀ id name,
      after.typeMember? id name = before.typeMember? id name := by
    intro before after kept id name
    rw [typeMember?, kept.field Record.enumerations fun _ => rfl,
      kept.field Record.constants fun _ => rfl, typeMember?]
  constructor
  case records => rw [kept.records, kept'.records, same.records]
  case enumerations => rw [kept.enumerations, kept'.enumerations, same.enumerations]
  case constants => rw [kept.constants, kept'.constants, same.constants]
  case recordRange =>
    rw [kept.records]
    exact same.recordRange
  case enumerationRange =>
    rw [kept.enumerations]
    exact same.enumerationRange
  case constantRange =>
    rw [kept.constants]
    exact same.constantRange
  case enclosing =>
    intro id
    rw [kept.enclosing, kept'.enclosing, same.enclosing]
  case packageName =>
    intro id
    rw [package, package', same.packageName]
  case members =>
    intro id name
    rw [package, package', same.members]
  case roots =>
    intro name
    rw [kept.roots, kept'.roots, same.roots]
  case typeMember =>
    intro id name
    rw [typeMember kept, typeMember kept', same.typeMember]
  case recordName =>
    intro id
    rw [kept.field Record.name fun _ => rfl, kept'.field Record.name fun _ => rfl, same.recordName]
  case recordPackage =>
    intro id inside
    rw [kept.records] at inside
    rw [kept.field Record.package fun _ => rfl, kept'.field Record.package fun _ => rfl,
      same.recordPackage id inside]
  case enumerationName =>
    intro id
    rw [(kept.enumeration id).1, (kept'.enumeration _).1, same.enumerationName]
  case enumerationScope =>
    intro id inside
    rw [kept.enumerations] at inside
    rw [(kept.enumeration id).2, (kept'.enumeration _).2, same.enumerationScope id inside]
  case constantScope =>
    intro id inside
    rw [kept.constants] at inside
    rw [(kept.constant id).2, (kept'.constant _).2, same.constantScope id inside]
  case enumerationOwner =>
    intro id record inside scope
    rw [kept.enumerations] at inside
    rw [(kept.enumeration id).2] at scope
    rw [kept.records]
    exact same.enumerationOwner id record inside scope

end SameNames

/-!
## Lookups

Scopes correspond if they have the same names and the same base types above them.
-/

def Meaning.rename (ρ : Renaming) : Meaning → Meaning
  | member found => member (found.rename ρ)
  | builtin type => builtin type

/-- A type with the types that it extends, in two models. -/
def SameLineage (ρ : Renaming) (model model' : Model) (id : RecordId) : Prop :=
  model'.lineage (ρ.record id) = (model.lineage id).map ρ.record

private theorem basesFrom_rename {ρ : Renaming} {model model' : Model}
    (bases : ∀ id, (model'.record (ρ.record id)).base = (model.record id).base.map ρ.record)
    (fuel : Nat) (seen : List RecordId) (id : RecordId) :
    model'.basesFrom fuel (seen.map ρ.record) (ρ.record id) =
      (model.basesFrom fuel seen id).map ρ.record := by
  induction fuel generalizing seen id with
  | zero => rfl
  | succ fuel ih =>
    have again : ρ.record id ∈ seen.map ρ.record ↔ id ∈ seen :=
      List.mem_map_of_injective ρ.record.injective
    rw [basesFrom, basesFrom, bases]
    by_cases before : id ∈ seen
    · rw [if_pos before, if_pos (again.mpr before)]
      rfl
    · rw [if_neg before, if_neg (mt again.mp before)]
      cases (model.record id).base with
      | none => rfl
      | some base => exact congrArg _ (ih (id :: seen) base)

/-- Types that have corresponding bases have corresponding lineages. -/
theorem sameLineage {ρ : Renaming} {model model' : Model}
    (records : model'.records.size = model.records.size)
    (bases : ∀ id, (model'.record (ρ.record id)).base = (model.record id).base.map ρ.record)
    (id : RecordId) : SameLineage ρ model model' id := by
  rw [SameLineage, lineage, lineage, records]
  exact basesFrom_rename bases _ [] id

/-- A type that has no base yet is alone, in both models. -/
theorem sameLineage_alone {ρ : Renaming} {model model' : Model} {id : RecordId}
    (base : (model.record id).base = none) (base' : (model'.record (ρ.record id)).base = none) :
    SameLineage ρ model model' id := by
  rw [SameLineage, lineage, lineage, basesFrom, basesFrom, base, base']
  simp

namespace SameNames

variable {ρ : Renaming} {model model' : Model} (same : SameNames ρ model model')

include same

theorem packageMember? (id : PackageId) (name : String) :
    model'.packageMember? (ρ.package id) name =
      (model.packageMember? id name).map (Member.rename ρ) := by
  rw [Model.packageMember?, same.enclosing, List.findSome?_map, Model.packageMember?,
    List.map_findSome?]
  congr 1
  funext outer
  exact same.members outer name

/-- What a name stands for in a record type that is there, in the types that it extends, and in the
packages around it. -/
theorem recordMember? {id : RecordId} (inside : id.index < model.records.size)
    (lineage : SameLineage ρ model model' id) (name : String) :
    model'.scopeMember? (.record (ρ.record id)) name =
      (model.scopeMember? (.record id) name).map (Member.rename ρ) := by
  have inType : ((model'.lineage (ρ.record id)).findSome? fun owner =>
      model'.typeMember? owner name) =
        ((model.lineage id).findSome? fun owner => model.typeMember? owner name).map
          (Member.rename ρ) := by
    rw [lineage, List.findSome?_map, List.map_findSome?]
    congr 1
    funext owner
    exact same.typeMember owner name
  rw [Model.scopeMember?, Model.scopeMember?, inType, same.recordPackage id inside,
    same.packageMember?, Option.map_or]

/-- Where a lookup may start: in a package, or in a record type that is there. -/
def Starts (_ : SameNames ρ model model') : Scope → Prop
  | .package _ => True
  | .record id => id.index < model.records.size ∧ SameLineage ρ model model' id

theorem scopeMember? {scope : Scope} (starts : same.Starts scope) (name : String) :
    model'.scopeMember? (scope.rename ρ) name =
      (model.scopeMember? scope name).map (Member.rename ρ) := by
  cases scope with
  | package id => exact same.packageMember? id name
  | record id => exact same.recordMember? starts.1 starts.2 name

theorem lookupFirst? {scope : Scope} (starts : same.Starts scope) (name : String) :
    model'.lookupFirst? (scope.rename ρ) name =
      (model.lookupFirst? scope name).map (Meaning.rename ρ) := by
  rw [Model.lookupFirst?, Model.lookupFirst?, same.scopeMember? starts, same.roots]
  cases model.scopeMember? scope name with
  | some member => rfl
  | none =>
    cases model.roots.lookup name with
    | some root => rfl
    | none => cases Builtin.ofName? name <;> rfl

theorem lookupIn? (name : String) (meaning : Meaning) :
    model'.lookupIn? name (meaning.rename ρ) =
      (model.lookupIn? name meaning).map (Meaning.rename ρ) := by
  rcases meaning with (package | record | _ | _) | _
  · simp only [Model.lookupIn?, Meaning.rename, Member.rename, same.members, Option.map_map]
    rfl
  · simp only [Model.lookupIn?, Meaning.rename, Member.rename, same.typeMember, Option.map_map]
    rfl
  all_goals rfl

theorem lookup? (scope : Scope) (starts : same.Starts scope) (name : String) :
    model'.lookup? (scope.rename ρ) name = (model.lookup? scope name).map (Meaning.rename ρ) := by
  rw [Model.lookup?, Model.lookup?]
  split
  · rfl
  · rename_i first rest parts
    clear parts
    rw [same.lookupFirst? starts]
    generalize model.lookupFirst? scope first = found
    induction rest generalizing found with
    | nil => rfl
    | cons part rest ih =>
      rw [List.foldl_cons, List.foldl_cons, ← ih]
      congr 1
      cases found with
      | none => rfl
      | some meaning => exact same.lookupIn? part meaning

section Record

variable {id : RecordId} (inside : id.index < model.records.size)
  (lineage : SameLineage ρ model model' id)

include inside lineage

theorem lookupRecord? (name : String) :
    model'.lookupRecord? (ρ.record id) name = (model.lookupRecord? id name).map ρ.record := by
  have found := same.lookup? (.record id) ⟨inside, lineage⟩ name
  rw [Scope.rename] at found
  rw [Model.lookupRecord?, Model.lookupRecord?, found]
  rcases model.lookup? (.record id) name with _ | (_ | _ | _ | _) | _ <;> rfl

theorem lookupType? (name : String) :
    model'.lookupType? (ρ.record id) name = (model.lookupType? id name).map (TypeRef.rename ρ) := by
  have found := same.lookup? (.record id) ⟨inside, lineage⟩ name
  rw [Scope.rename] at found
  rw [Model.lookupType?, Model.lookupType?, found]
  rcases model.lookup? (.record id) name with _ | (_ | _ | _ | _) | _ <;> rfl

end Record

end SameNames

end RecordSchema
