import RecordSchema.Proofs.Traversal.Nesting

/-!
# Each declaration once

A traversal comes to no declaration twice: what it comes to by way of a package stands in the package,
and nothing stands in two packages of one place.
-/

set_option autoImplicit false

namespace RecordSchema.Traversal

open Model

/-- The declarations that a traversal has code emitted for, in order. -/
def declared (model : Model) (outer : Option String) : List Member :=
  (steps model true outer).filterMap Step.declared?

/-- The declarations that a traversal comes to in a package. -/
def declaredWithin (model : Model) (fuel : Nat) (package : PackageId) : List Member :=
  (packageSteps model true fuel package).filterMap Step.declared?

/-- The declarations that a traversal comes to by way of a member. -/
def declaredBy (model : Model) (package : PackageId → List Member) : Member → List Member
  | .package nested => package nested
  | .record id => if model.isEmitted id then [.record id] else []
  | value => [value]

section Places

variable {model : Model}

/-- Constants and enumerations of a package come before what else there is. -/
theorem declaredWithin_succ_perm (fuel : Nat) {package : PackageId} (enters : Enters model package) :
    (declaredWithin model (fuel + 1) package).Perm
      ((model.contents (some (.package package))).flatMap
        (declaredBy model (declaredWithin model fuel))) := by
  have values : ∀ (read : Member → Option Step) (members : List Member),
      (members.filterMap read).filterMap Step.declared? =
        members.flatMap fun member => ((read member).bind Step.declared?).toList :=
    fun read members => by rw [List.filterMap_filterMap, List.filterMap_eq_flatMap_toList]
  rw [declaredWithin, packageSteps_succ, if_neg (by rw [enters]; exact Bool.false_ne_true),
    filterMap_bracket Step.declared? (fun _ => rfl) rfl]
  have apart := ((List.flatMap_append_perm (model.contents (some (.package package)))
    (fun member => ((constantStep? member).bind Step.declared?).toList)
    (fun member => ((enumerationStep? member).bind Step.declared?).toList)).append_right _).trans
    (List.flatMap_append_perm _ _ fun member =>
      (onward (packageSteps model true fuel) (fun record => [recordStep model record]) member).filterMap
        Step.declared?)
  have enter : (Step.enter package).declared? = none := rfl
  have leave : (Step.leave package).declared? = none := rfl
  simp only [List.cons_append, List.filterMap_cons, List.filterMap_append, values, through,
    List.filterMap_flatMap, List.filterMap_nil, List.append_nil, enter, leave]
  refine apart.trans (.of_eq (List.flatMap_congr fun member _ => ?_))
  cases member with
  | package nested => rfl
  | enumeration _ | constant _ => rfl
  | record id =>
    rw [declaredBy, onward, recordStep]
    split <;> rfl

private theorem declaredWithin_eq_nil {fuel : Nat} {package : PackageId}
    (passes : ¬ Enters model package) : declaredWithin model fuel package = [] := by
  cases fuel with
  | zero => rfl
  | succ fuel =>
    have stops := (Bool.not_eq_false _).mp passes
    rw [declaredWithin, packageSteps_succ, if_pos stops]
    refine List.filterMap_eq_nil_iff.mpr fun step listed => ?_
    obtain ⟨id, rfl⟩ := mem_referenceSteps listed
    rfl

private theorem mem_declaredBy {package : PackageId → List Member} {member reached : Member}
    (visit : reached ∈ declaredBy model package member) :
    reached = member ∨ ∃ nested, member = .package nested ∧ reached ∈ package nested := by
  cases member with
  | package nested => exact .inr ⟨nested, rfl, visit⟩
  | enumeration _ | constant _ => exact .inl (List.mem_singleton.mp visit)
  | record id =>
    rw [declaredBy] at visit
    split at visit
    · exact .inl (List.mem_singleton.mp visit)
    · cases visit

/-- Members that are declared stand in a package, and no two of them are one. -/
structure Gathered (model : Model) (package : PackageId) (members : List Member) : Prop where
  nodup : members.Nodup
  inRange : ∀ member ∈ members, member.reference.InRange model.census
  standsIn : ∀ member ∈ members, model.StandsIn package member

variable (wellScoped : model.WellScoped)

include wellScoped

/-- No declaration is come to by way of two members of a place. -/
theorem nodup_declaredBy {place : Option Scope} {package : PackageId → List Member}
    (gathered : ∀ nested, .package nested ∈ model.contents place →
      Gathered model nested (package nested)) :
    ((model.contents place).flatMap (declaredBy model package)).Nodup := by
  have home : ∀ member ∈ model.contents place,
      member.reference.InRange model.census ∧ model.home member = place :=
    fun _ listed => home_of_contents wellScoped listed
  have beside : ∀ {nested : PackageId} {member : Member}, .package nested ∈ model.contents place →
      member ∈ model.contents place → ¬ model.StandsIn nested member := fun outer listed =>
    not_standsIn_beside wellScoped (home _ outer).1 (model.self_mem_enclosing _)
      ((home _ listed).2.trans (home _ outer).2.symm)
  refine List.nodup_flatMap.mpr ⟨fun member listed => ?_, ?_⟩
  · cases member with
    | package nested => exact (gathered nested listed).nodup
    | enumeration _ | constant _ => exact List.nodup_singleton _
    | record id =>
      rw [declaredBy]
      split
      · exact List.nodup_singleton _
      · exact List.nodup_nil
  · have distinct : (model.contents place).Nodup :=
      wellScoped.named.nodup fun member listed => (home member listed).1
    refine distinct.pairwise_of_forall_ne fun member listed other listedToo different => ?_
    intro reached one two
    rcases mem_declaredBy one with rfl | ⟨nested, rfl, within⟩ <;>
      rcases mem_declaredBy two with rfl | ⟨further, rfl, withinToo⟩
    · exact different rfl
    · exact beside listedToo listed ((gathered further listedToo).standsIn _ withinToo)
    · exact beside listed listedToo ((gathered nested listed).standsIn _ within)
    · obtain ⟨around, at_home, on⟩ := (gathered nested listed).standsIn _ within
      obtain ⟨_, same, onToo⟩ := (gathered further listedToo).standsIn _ withinToo
      cases at_home.symm.trans same
      have inside := wellScoped.closed.home ((gathered nested listed).inRange _ within)
        (.package around) at_home
      exact different (congrArg Member.package (enclosing_unique wellScoped inside on onToo
        ((home _ listed).2.trans (home _ listedToo).2.symm)))

private theorem declaredWithin_gathered {fuel : Nat} {package : PackageId}
    (inside : package.index < model.packages.size) :
    Gathered model package (declaredWithin model fuel package) := by
  induction fuel generalizing package with
  | zero => exact ⟨List.nodup_nil, nofun, nofun⟩
  | succ fuel ih =>
    by_cases enters : Enters model package
    · have nested : ∀ nested, .package nested ∈ model.contents (some (.package package)) →
          Gathered model nested (declaredWithin model fuel nested) :=
        fun nested listed => ih (home_of_contents wellScoped listed).1
      have perm := declaredWithin_succ_perm fuel enters
      refine ⟨perm.nodup_iff.mpr (nodup_declaredBy wellScoped nested), fun reached visit => ?_,
        fun reached visit => ?_⟩ <;>
        obtain ⟨member, listed, visit⟩ := List.mem_flatMap.mp (perm.mem_iff.mp visit) <;>
        obtain ⟨inRange, home⟩ := home_of_contents wellScoped listed <;>
        rcases mem_declaredBy visit with rfl | ⟨further, rfl, within⟩
      · exact inRange
      · exact (nested further listed).inRange _ within
      · exact ⟨package, home, model.self_mem_enclosing package⟩
      · obtain ⟨around, at_home, on⟩ := (nested further listed).standsIn _ within
        obtain ⟨parent, found, same⟩ := Option.map_eq_some_iff.mp home
        cases same
        exact ⟨around, at_home, enclosing_parent wellScoped on inRange found⟩
    · rw [declaredWithin_eq_nil enters]
      exact ⟨List.nodup_nil, nofun, nofun⟩

omit wellScoped in
private theorem declared_eq (model : Model) (outer : Option String) :
    declared model outer =
      (model.contents none).flatMap (declaredBy model (declaredWithin model model.packages.size)) := by
  rw [contents, List.flatMap_map, declared, steps]
  simp only [List.cons_append, List.filterMap_cons, List.filterMap_append,
    filterMap_bracket Step.declared? (fun _ => rfl) rfl, List.filterMap_flatMap, Step.declared?,
    List.filterMap_nil, List.append_nil]
  rfl

theorem nodup_declared (outer : Option String) : (declared model outer).Nodup := by
  rw [declared_eq]
  exact nodup_declaredBy wellScoped fun _ listed =>
    declaredWithin_gathered wellScoped (home_of_contents wellScoped listed).1

theorem inRange_of_declared {outer : Option String} {member : Member}
    (visit : member ∈ declared model outer) : member.reference.InRange model.census := by
  rw [declared_eq] at visit
  obtain ⟨root, listed, visit⟩ := List.mem_flatMap.mp visit
  have inRange := (home_of_contents wellScoped listed).1
  rcases mem_declaredBy visit with rfl | ⟨package, rfl, within⟩
  · exact inRange
  · exact (declaredWithin_gathered wellScoped inRange).inRange _ within

end Places

end RecordSchema.Traversal
