import RecordSchema.Proofs.Model.Linkage

/-!
# Naming one declaration

A declaration is added and then listed under its name: with the outermost packages, in a package or
in a record type. Either half alone leaves a model that is not well scoped; both together name the
declaration.
-/

set_option autoImplicit false

namespace RecordSchema.Model

/-- One more declaration is there, at home in a place that does not list it yet. -/
structure Adds (place : Option Scope) (name : String) (added : Member) (before after : Model) :
    Prop where
  fresh : ¬ added.reference.InRange before.census
  items : ∀ member : Member, member.reference.InRange after.census →
    member.reference.InRange before.census ∨ member = added
  home : after.home added = place
  named : after.memberName added = name
  keeps : Keeps before after
  included : ∀ id : PackageId, id.index < before.packages.size →
    (after.package id).included = (before.package id).included
  entries : ∀ other, after.entries other = before.entries other

/-- A place lists one more declaration. -/
structure Lists (place : Option Scope) (name : String) (added : Member) (before after : Model) :
    Prop where
  census : after.census = before.census
  home : ∀ member, after.home member = before.home member
  memberName : ∀ member, after.memberName member = before.memberName member
  record : ∀ id, (after.record id).included = (before.record id).included ∧
    (after.record id).pack = (before.record id).pack
  included : ∀ id, (after.package id).included = (before.package id).included
  entries : ∀ other, (after.entries other).Perm
    (if place = other then (name, added) :: before.entries other else before.entries other)

theorem Adds.names {place : Option Scope} {name : String} {added : Member}
    {before middle after : Model} (adds : Adds place name added before middle)
    (lists : Lists place name added middle after)
    (inside : ∀ scope ∈ place, scope.reference.InRange before.census) :
    Names place name added before after where
  fresh := adds.fresh
  inside := inside
  items member inRange := adds.items member (lists.census ▸ inRange)
  home := by rw [lists.home, adds.home]
  named := by rw [lists.memberName, adds.named]
  keeps :=
    { census := by rw [lists.census]; exact adds.keeps.census
      home := fun member inRange => by rw [lists.home, adds.keeps.home member inRange]
      memberName := fun member inRange => by
        rw [lists.memberName, adds.keeps.memberName member inRange]
      record := fun id inRange => by
        rw [(lists.record id).1, (lists.record id).2]
        exact adds.keeps.record id inRange }
  included id inRange := by rw [lists.included, adds.included id inRange]
  entries other := by rw [← adds.entries]; exact lists.entries other

/-!
## Adding
-/

variable (model : Model)

theorem adds_package (added : Package) (empty : added.members = []) :
    Adds (added.parent.map .package) added.name (.package ⟨model.packages.size⟩) model
      (model.pushPackage added) where
  fresh := Nat.lt_irrefl _
  items member inRange := by
    cases member with
    | package id =>
      exact (lt_push inRange).imp_right fun last => congrArg Member.package (PackageId.ext last)
    | record id | enumeration id | constant id => exact .inl inRange
  home := by simp [home]
  named := by simp [memberName]
  keeps :=
    { census := model.census_le_pushPackage added
      home := fun member inRange => by
        cases member with
        | package id =>
          have different : id.index ≠ model.packages.size := Nat.ne_of_lt inRange
          simp [home, different]
        | record id | enumeration id | constant id => rfl
      memberName := fun member inRange => by
        cases member with
        | package id =>
          have different : id.index ≠ model.packages.size := Nat.ne_of_lt inRange
          simp [memberName, different]
        | record id | enumeration id | constant id => rfl
      record := fun _ _ => ⟨rfl, rfl⟩ }
  included id inRange := by
    rw [package_pushPackage, if_neg (Nat.ne_of_lt inRange)]
  entries other := by
    rcases other with _ | id | id
    · rfl
    · by_cases last : id.index = model.packages.size
      · have outside : ¬ id.index < model.packages.size := by omega
        simp only [entries, package_pushPackage, last, ↓reduceIte, empty,
          model.package_eq_default outside]
        rfl
      · simp [entries, last]
    · rfl

theorem adds_record (added : Record) (noConstants : added.constants = [])
    (noEnumerations : added.enumerations = []) :
    Adds (some (.package added.package)) added.name (.record ⟨model.records.size⟩) model
      (model.pushRecord added) where
  fresh := Nat.lt_irrefl _
  items member inRange := by
    cases member with
    | record id =>
      exact (lt_push inRange).imp_right fun last => congrArg Member.record (RecordId.ext last)
    | package id | enumeration id | constant id => exact .inl inRange
  home := by simp [home]
  named := by simp [memberName]
  keeps :=
    { census := model.census_le_pushRecord added
      home := fun member inRange => by
        cases member with
        | record id =>
          have different : id.index ≠ model.records.size := Nat.ne_of_lt inRange
          simp [home, different]
        | package id | enumeration id | constant id => rfl
      memberName := fun member inRange => by
        cases member with
        | record id =>
          have different : id.index ≠ model.records.size := Nat.ne_of_lt inRange
          simp [memberName, different]
        | package id | enumeration id | constant id => rfl
      record := fun id inRange => by
        rw [record_pushRecord, if_neg (Nat.ne_of_lt inRange)]
        exact ⟨rfl, rfl⟩ }
  included _ _ := rfl
  entries other := by
    rcases other with _ | id | id
    · rfl
    · rfl
    · by_cases last : id.index = model.records.size
      · have outside : ¬ id.index < model.records.size := by omega
        simp only [entries, record_pushRecord, last, ↓reduceIte, noConstants, noEnumerations,
          model.record_eq_default outside]
        rfl
      · simp [entries, last]

theorem adds_enumeration (added : Enumeration) :
    Adds (some added.scope) added.name (.enumeration ⟨model.enumerations.size⟩) model
      (model.pushEnumeration added) where
  fresh := Nat.lt_irrefl _
  items member inRange := by
    cases member with
    | enumeration id =>
      exact (lt_push inRange).imp_right fun last => congrArg Member.enumeration (EnumId.ext last)
    | package id | record id | constant id => exact .inl inRange
  home := by simp [home]
  named := by simp [memberName]
  keeps :=
    { census := model.census_le_pushEnumeration added
      home := fun member inRange => by
        cases member with
        | enumeration id =>
          have different : id.index ≠ model.enumerations.size := Nat.ne_of_lt inRange
          simp [home, different]
        | package id | record id | constant id => rfl
      memberName := fun member inRange => by
        cases member with
        | enumeration id =>
          have different : id.index ≠ model.enumerations.size := Nat.ne_of_lt inRange
          simp [memberName, different]
        | package id | record id | constant id => rfl
      record := fun _ _ => ⟨rfl, rfl⟩ }
  included _ _ := rfl
  entries other := by
    rcases other with _ | id | id <;> rfl

theorem adds_constant (added : Constant) :
    Adds (some added.scope) added.name (.constant ⟨model.constants.size⟩) model
      (model.pushConstant added) where
  fresh := Nat.lt_irrefl _
  items member inRange := by
    cases member with
    | constant id =>
      exact (lt_push inRange).imp_right fun last => congrArg Member.constant (ConstantId.ext last)
    | package id | record id | enumeration id => exact .inl inRange
  home := by simp [home]
  named := by simp [memberName]
  keeps :=
    { census := model.census_le_pushConstant added
      home := fun member inRange => by
        cases member with
        | constant id =>
          have different : id.index ≠ model.constants.size := Nat.ne_of_lt inRange
          simp [home, different]
        | package id | record id | enumeration id => rfl
      memberName := fun member inRange => by
        cases member with
        | constant id =>
          have different : id.index ≠ model.constants.size := Nat.ne_of_lt inRange
          simp [memberName, different]
        | package id | record id | enumeration id => rfl
      record := fun _ _ => ⟨rfl, rfl⟩ }
  included _ _ := rfl
  entries other := by
    rcases other with _ | id | id <;> rfl

/-!
## Listing
-/

theorem lists_root (name : String) (id : PackageId) :
    Lists none name (.package id) model
      { model with roots := model.roots ++ [(name, id)] } where
  census := rfl
  home member := by cases member <;> rfl
  memberName member := by cases member <;> rfl
  record _ := ⟨rfl, rfl⟩
  included _ := rfl
  entries other := by
    rcases other with _ | id | id
    · simp [entries]
    · exact .refl _
    · exact .refl _

theorem lists_member {id : PackageId} (inside : id.index < model.packages.size) (name : String)
    (added : Member) :
    Lists (some (.package id)) name added model (model.modifyPackage id fun current =>
      { current with members := current.members ++ [(name, added)] }) where
  census := model.census_modifyPackage id _
  home member := by
    cases member with
    | package other => simp only [home, package_modifyPackage]; split <;> rfl
    | record other | enumeration other | constant other => rfl
  memberName member := by
    cases member with
    | package other => simp only [memberName, package_modifyPackage]; split <;> rfl
    | record other | enumeration other | constant other => rfl
  record _ := ⟨rfl, rfl⟩
  included other := by rw [package_modifyPackage]; split <;> rfl
  entries other := by
    rcases other with _ | other | other
    · exact .refl _
    · by_cases same : id = other
      · subst same
        simp [entries, inside]
      · simp [entries, same]
    · exact .refl _

theorem lists_constant {id : RecordId} (inside : id.index < model.records.size) (name : String)
    (added : ConstantId) :
    Lists (some (.record id)) name (.constant added) model (model.modifyRecord id fun current =>
      { current with constants := current.constants ++ [(name, added)] }) where
  census := model.census_modifyRecord id _
  home member := by
    cases member with
    | record other => simp only [home, record_modifyRecord]; split <;> rfl
    | package other | enumeration other | constant other => rfl
  memberName member := by
    cases member with
    | record other => simp only [memberName, record_modifyRecord]; split <;> rfl
    | package other | enumeration other | constant other => rfl
  record other := by rw [record_modifyRecord]; split <;> exact ⟨rfl, rfl⟩
  included _ := rfl
  entries other := by
    rcases other with _ | other | other
    · exact .refl _
    · exact .refl _
    · by_cases same : id = other
      · subst same
        simp [entries, inside]
      · simp [entries, same]

theorem lists_enumeration {id : RecordId} (inside : id.index < model.records.size) (name : String)
    (added : EnumId) :
    Lists (some (.record id)) name (.enumeration added) model (model.modifyRecord id fun current =>
      { current with enumerations := current.enumerations ++ [(name, added)] }) where
  census := model.census_modifyRecord id _
  home member := by
    cases member with
    | record other => simp only [home, record_modifyRecord]; split <;> rfl
    | package other | enumeration other | constant other => rfl
  memberName member := by
    cases member with
    | record other => simp only [memberName, record_modifyRecord]; split <;> rfl
    | package other | enumeration other | constant other => rfl
  record other := by rw [record_modifyRecord]; split <;> exact ⟨rfl, rfl⟩
  included _ := rfl
  entries other := by
    rcases other with _ | other | other
    · exact .refl _
    · exact .refl _
    · by_cases same : id = other
      · subst same
        simp [entries, inside, ← List.append_assoc]
      · simp [entries, same]

end RecordSchema.Model
