import Mathlib.Algebra.GroupWithZero.Nat
import RecordSchema.Proofs.Inclusion
import RecordSchema.Traversal

/-!
# The steps of a traversal

The order in which a backend meets the declarations is a list of steps that depends on the model alone.
It goes down from the outermost packages, and where a package is included or external it changes over to
references. It meets every record type once: of the members of a place around a type exactly one leads
to the type, and nothing else does.
-/

set_option autoImplicit false

namespace RecordSchema

open Model

inductive Step where
  | prologue
  | openNamespace (name : String)
  | closeNamespace
  | enter (package : PackageId)
  | constant (id : ConstantId)
  | enumeration (id : EnumId)
  | record (id : RecordId)
  | reference (id : RecordId)
  | leave (package : PackageId)
  | finish
  | epilogue
deriving DecidableEq

namespace Traversal

def referenceSteps (model : Model) : Nat → PackageId → List Step
  | 0, _ => []
  | fuel + 1, package =>
    (model.package package).members.flatMap fun member =>
      match member.2 with
      | .package nested => referenceSteps model fuel nested
      | .record record => [.reference record]
      | _ => []

def constantStep? : Member → Option Step
  | .constant id => some (.constant id)
  | _ => none

def enumerationStep? : Member → Option Step
  | .enumeration id => some (.enumeration id)
  | _ => none

def recordStep (model : Model) (id : RecordId) : Step :=
  if model.isEmitted id then .record id else .reference id

def bracket (name : Option String) (steps : List Step) : List Step :=
  match name with
  | some name => .openNamespace name :: steps ++ [.closeNamespace]
  | none => steps

/-- The steps for a package. -/
def packageSteps (model : Model) (brackets : Bool) : Nat → PackageId → List Step
  | 0, _ => []
  | fuel + 1, id =>
    let package := model.package id
    if package.included || package.external then referenceSteps model (fuel + 1) id
    else
      let members := package.members.map (·.2)
      let constants := members.filterMap constantStep?
      let enumerations := members.filterMap enumerationStep?
      let others := members.flatMap fun member =>
        match member with
        | .package nested => packageSteps model brackets fuel nested
        | .record record => [recordStep model record]
        | _ => []
      bracket (if brackets then some (Cpp.packageNamespace model id) else none)
        (.enter id :: constants ++ enumerations ++ others ++ [.leave id])

/-- All steps of a traversal. -/
def steps (model : Model) (brackets : Bool) (outer : Option String) : List Step :=
  let packages := model.roots.flatMap fun root =>
    packageSteps model brackets model.packages.size root.2
  .prologue :: bracket outer (packages ++ [.finish]) ++ [.epilogue]

/-- Takes a step: calls the hook of the backend for it, or opens or closes a namespace. -/
def step {σ : Type} (model : Model) (backend : Backend σ) (output : Output) :
    Step → Emission σ Output
  | .prologue => output.add (backend.prologue model)
  | .openNamespace name => pure (output.openNamespace name)
  | .closeNamespace => output.closeNamespace
  | .enter id => output.add (backend.enterPackage model id)
  | .constant id => output.add (backend.visitConstant model id)
  | .enumeration id => output.add (backend.visitEnumeration model id)
  | .record id => output.add (backend.visitRecord model id)
  | .reference id => output.add (backend.referenceRecord model id)
  | .leave id => output.add (backend.leavePackage model id)
  | .finish => output.add (backend.finish model)
  | .epilogue => output.add (backend.epilogue model)

end Traversal

namespace Model

/-- A record type and the packages around it, the innermost first. -/
def ancestry (model : Model) (id : RecordId) : List Member :=
  .record id :: (model.enclosing (model.record id).package).map .package

/-- The places around a record type, from outermost to innermost. -/
def around (model : Model) (id : RecordId) : List (Option Scope) :=
  none :: (model.enclosing (model.record id).package).map fun package => some (.package package)

theorem enclosing_le {model : Model} {id outer : PackageId} (around : outer ∈ model.enclosing id) :
    outer.index ≤ id.index := by
  fun_induction model.enclosing id with
  | case1 id root | case3 id parent found after =>
    cases List.mem_singleton.mp around
    exact Nat.le_refl _
  | case2 id parent found before ih =>
    rcases List.mem_cons.mp around with rfl | further
    · exact Nat.le_refl _
    · exact Nat.le_of_lt (Nat.lt_of_le_of_lt (ih further) before)

/-- Around a package that is around another is its parent. -/
theorem enclosing_parent {model : Model} (wellScoped : model.WellScoped) {id outer parent : PackageId}
    (around : outer ∈ model.enclosing id) (inside : outer.index < model.packages.size)
    (found : (model.package outer).parent = some parent) : parent ∈ model.enclosing id := by
  have before := wellScoped.parentBefore outer inside parent found
  fun_induction model.enclosing id with
  | case1 id root | case3 id other same after =>
    cases List.mem_singleton.mp around
    simp_all
  | case2 id other same _ ih =>
    rcases List.mem_cons.mp around with rfl | further
    · rw [found] at same
      cases same
      exact List.mem_cons_of_mem _ (model.self_mem_enclosing parent)
    · exact List.mem_cons_of_mem _ (ih further)

/-- In a chain of packages, with something in the first of them, one item leads on from each place. What is
around a package stands further out than in it. -/
theorem exists_toward {model : Model} (wellScoped : model.WellScoped) {package : PackageId}
    (inside : package.index < model.packages.size) {start : Member}
    (home : model.home start = some (.package package)) {place : Option Scope}
    (on : place ∈ none :: (model.enclosing package).map fun outer => some (.package outer)) :
    ∃ toward ∈ start :: (model.enclosing package).map .package, model.home toward = place ∧
      ∀ other ∈ start :: (model.enclosing package).map .package,
        model.home other = place → other = toward := by
  have further : ∀ {id : PackageId}, id ∈ model.enclosing package →
      model.home (.package id) ≠ some (.package package) := by
    intro id around same
    obtain ⟨parent, found, equal⟩ := Option.map_eq_some_iff.mp same
    cases equal
    have bound := Nat.lt_of_le_of_lt (enclosing_le around) inside
    have before := wellScoped.parentBefore id bound package found
    exact Nat.lt_irrefl _ (Nat.lt_of_lt_of_le before (enclosing_le around))
  by_cases here : place = some (.package package)
  · subst here
    refine ⟨start, List.mem_cons_self, home, fun other member same => ?_⟩
    rcases List.mem_cons.mp member with rfl | outer
    · rfl
    · obtain ⟨id, around, rfl⟩ := List.mem_map.mp outer
      exact absurd same (further around)
  · have apart : ∀ {toward : Member}, model.home toward = place → toward ≠ start := by
      rintro toward same rfl
      exact here (same.symm.trans home)
    cases found : (model.package package).parent with
    | none =>
      have alone : model.enclosing package = [package] := by
        rw [enclosing, found]
      rw [alone] at on ⊢
      have outermost : place = none := by simpa [here] using on
      subst outermost
      refine ⟨.package package, by simp, by rw [Model.home, found, Option.map_none], ?_⟩
      intro other member same
      simpa [apart same] using member
    | some parent =>
      have before := wellScoped.parentBefore package inside parent found
      have chain : model.enclosing package = package :: model.enclosing parent := by
        rw [enclosing, found]
        simp [before]
      have nested : model.home (.package package) = some (.package parent) := by
        rw [Model.home, found, Option.map_some]
      rw [chain] at on ⊢
      have later : place ∈ none :: (model.enclosing parent).map fun outer =>
          some (.package outer) := by simpa [here] using on
      obtain ⟨toward, member, same, only⟩ := exists_toward wellScoped
        (wellScoped.closed.parent package parent found) nested later
      refine ⟨toward, List.mem_cons_of_mem _ member, same, fun other among equal => ?_⟩
      rcases List.mem_cons.mp among with rfl | later
      · exact absurd rfl (apart equal)
      · exact only other later equal
termination_by package.index

/-- An item of the chain is at home in a place around the record type. -/
theorem home_mem_around {model : Model} (wellScoped : model.WellScoped) {id : RecordId}
    (inside : id.index < model.records.size) {member : Member} (on : member ∈ model.ancestry id) :
    model.home member ∈ model.around id := by
  rcases List.mem_cons.mp on with rfl | outer
  · exact List.mem_cons_of_mem _ (List.mem_map_of_mem (model.self_mem_enclosing _))
  · obtain ⟨package, around, rfl⟩ := List.mem_map.mp outer
    cases found : (model.package package).parent with
    | none =>
      rw [home, found]
      exact List.mem_cons_self
    | some parent =>
      rw [home, found]
      refine List.mem_cons_of_mem _ (List.mem_map_of_mem ?_)
      have bound := Nat.lt_of_le_of_lt (enclosing_le around)
        (wellScoped.closed.record inside).package
      exact enclosing_parent wellScoped around bound found

private theorem sum_indicator {α : Type} (items : List α) (property : α → Prop) [DecidablePred property]
    (times : Nat) :
    (items.map fun item => if property item then times else 0).sum =
      (items.countP fun item => decide (property item)) * times := by
  induction items with
  | nil => simp
  | cons item rest ih =>
    rw [List.map_cons, List.sum_cons, ih, List.countP_cons]
    by_cases holds : property item <;> simp [holds, Nat.add_mul, Nat.add_comm]

/-- What a place lists is declared, and at home there. -/
theorem home_of_contents {model : Model} (wellScoped : model.WellScoped) {place : Option Scope}
    {member : Member} (listed : member ∈ model.contents place) :
    member.reference.InRange model.census ∧ model.home member = place := by
  have inside := wellScoped.closed.contents _ _ listed
  exact ⟨inside, (wellScoped.named.mem_iff inside).mp listed⟩

/-- Of the members of a place around a record type one leads to it; of other places none does. -/
theorem sum_toward {model : Model} (wellScoped : model.WellScoped) {id : RecordId} {times : Nat}
    (inside : times ≠ 0 → id.index < model.records.size) {place : Option Scope}
    {weight : Member → Nat} (leads : ∀ member ∈ model.contents place,
      weight member = if member ∈ model.ancestry id then times else 0) :
    ((model.contents place).map weight).sum = if place ∈ model.around id then times else 0 := by
  have homes : ∀ member ∈ model.contents place, model.home member = place := fun _ listed =>
    (home_of_contents wellScoped listed).2
  have exact : ∀ toward, (∀ member ∈ model.contents place,
      member ∈ model.ancestry id ↔ member = toward) →
        (model.contents place).countP (· ∈ model.ancestry id) =
          (model.contents place).count toward := by
    intro toward only
    exact List.countP_congr fun member listed => by simpa using only member listed
  rw [List.map_congr_left leads, sum_indicator]
  by_cases never : times = 0
  · simp [never]
  have inside := inside never
  split
  · rename_i on
    obtain ⟨toward, member, home, only⟩ := exists_toward wellScoped
      (wellScoped.closed.record inside).package (rfl : model.home (.record id) = _) on
    have present : toward.reference.InRange model.census := by
      rcases List.mem_cons.mp member with rfl | outer
      · exact inside
      · obtain ⟨package, around, rfl⟩ := List.mem_map.mp outer
        exact Nat.lt_of_le_of_lt (enclosing_le around) (wellScoped.closed.record inside).package
    rw [exact toward fun other listed => ⟨fun among => only other among (homes other listed),
        fun same => same ▸ member⟩,
      wellScoped.named toward present place, if_pos home, Nat.one_mul]
  · rename_i off
    have none : (model.contents place).countP (· ∈ model.ancestry id) = 0 := by
      refine List.countP_eq_zero.mpr fun other listed on => off ?_
      rw [← homes other listed]
      exact home_mem_around wellScoped inside (by simpa using on)
    rw [none, Nat.zero_mul]

end Model

namespace Traversal

/-- The steps of a member: those of a package, or those of a record type. -/
def onward (package : PackageId → List Step) (record : RecordId → List Step) : Member → List Step
  | .package nested => package nested
  | .record id => record id
  | _ => []

/-- Goes through the members of a place, into packages and over record types. -/
def through (package : PackageId → List Step) (record : RecordId → List Step)
    (members : List Member) : List Step :=
  members.flatMap (onward package record)

theorem referenceSteps_succ (model : Model) (fuel : Nat) (package : PackageId) :
    referenceSteps model (fuel + 1) package =
      through (referenceSteps model fuel) (fun id => [.reference id])
        (model.contents (some (.package package))) := by
  unfold referenceSteps
  exact (List.flatMap_map Prod.snd (onward _ _) (model.package package).members).symm

/-- Whoever counts a step for a record type, and meets it on the way into each package around the
type, meets it on the way through a place around it. -/
theorem count_through {model : Model} (wellScoped : model.WellScoped) {id : RecordId} {times : Nat}
    (inside : times ≠ 0 → id.index < model.records.size) {place : Option Scope}
    {package : PackageId → List Step} {record : RecordId → List Step} {step : Step}
    (packages : ∀ nested, .package nested ∈ model.contents place →
      (package nested).count step = if some (.package nested) ∈ model.around id then times else 0)
    (records : ∀ other : RecordId, other.index < model.records.size →
      (record other).count step = if other = id then times else 0) :
    (through package record (model.contents place)).count step =
      if place ∈ model.around id then times else 0 := by
  rw [through, List.count_flatMap]
  refine sum_toward wellScoped inside fun member listed => ?_
  cases member with
  | package nested =>
    rw [Function.comp_apply, onward, packages nested listed]
    simp [around, ancestry]
  | record other =>
    rw [Function.comp_apply, onward, records other (wellScoped.closed.contents place _ listed)]
    simp [ancestry]
  | enumeration _ | constant _ => simp [ancestry, onward]

/-- A nested package comes later, so less fuel is enough for it. -/
theorem fuel_nested {model : Model} (wellScoped : model.WellScoped) {package nested : PackageId}
    (listed : .package nested ∈ model.contents (some (.package package))) {fuel : Nat}
    (enough : model.packages.size ≤ package.index + (fuel + 1)) :
    nested.index < model.packages.size ∧ model.packages.size ≤ nested.index + fuel := by
  obtain ⟨inside, home⟩ := home_of_contents wellScoped listed
  obtain ⟨parent, found, same⟩ := Option.map_eq_some_iff.mp home
  cases same
  have before := wellScoped.parentBefore nested inside package found
  exact ⟨inside, by omega⟩

private theorem count_referenceSteps {model : Model} (wellScoped : model.WellScoped) (id : RecordId)
    {package : PackageId} {fuel : Nat} (bound : package.index < model.packages.size)
    (enough : model.packages.size ≤ package.index + fuel) :
    (referenceSteps model fuel package).count (.reference id) =
      if some (.package package) ∈ model.around id then
        if id.index < model.records.size then 1 else 0
      else 0 := by
  induction fuel generalizing package with
  | zero => omega
  | succ fuel ih =>
    rw [referenceSteps_succ]
    refine count_through wellScoped (by simp) (fun nested listed => ?_) fun other present => ?_
    · obtain ⟨present, later⟩ := fuel_nested wellScoped listed enough
      exact ih present later
    · by_cases same : other = id
      · subst same
        simp [present]
      · simp [same]

theorem mem_referenceSteps {model : Model} {step : Step} {fuel : Nat} {package : PackageId}
    (member : step ∈ referenceSteps model fuel package) : ∃ id, step = .reference id := by
  induction fuel generalizing package with
  | zero => cases member
  | succ fuel ih =>
    rw [referenceSteps_succ, through, List.mem_flatMap] at member
    obtain ⟨other, _, found⟩ := member
    cases other with
    | package nested => exact ih found
    | record id => exact ⟨id, List.mem_singleton.mp found⟩
    | enumeration _ | constant _ => cases found

theorem packageSteps_succ (model : Model) (brackets : Bool) (fuel : Nat) (id : PackageId) :
    packageSteps model brackets (fuel + 1) id =
      if (model.package id).included || (model.package id).external then
        referenceSteps model (fuel + 1) id
      else
        bracket (if brackets then some (Cpp.packageNamespace model id) else none)
          (.enter id :: (model.contents (some (.package id))).filterMap constantStep? ++
              (model.contents (some (.package id))).filterMap enumerationStep? ++
            through (packageSteps model brackets fuel) (fun record => [recordStep model record])
              (model.contents (some (.package id))) ++ [.leave id]) := by
  rw [packageSteps]
  rfl

/-- Steps for record types are no others. -/
theorem count_bracket {step : Step} {id : RecordId} (own : step = .record id ∨ step = .reference id)
    (name : Option String) (package : PackageId) (members : List Member) (others : List Step) :
    (bracket name (.enter package :: members.filterMap constantStep? ++
      members.filterMap enumerationStep? ++ others ++ [.leave package])).count step =
      others.count step := by
  have constants : (members.filterMap constantStep?).count step = 0 := by
    refine List.count_eq_zero.mpr fun member => ?_
    obtain ⟨other, _, found⟩ := List.mem_filterMap.mp member
    rcases own with rfl | rfl <;> cases other <;> cases found
  have enumerations : (members.filterMap enumerationStep?).count step = 0 := by
    refine List.count_eq_zero.mpr fun member => ?_
    obtain ⟨other, _, found⟩ := List.mem_filterMap.mp member
    rcases own with rfl | rfl <;> cases other <;> cases found
  rcases own with rfl | rfl <;> cases name <;> simp [bracket, constants, enumerations]

/-- How often a step for a record type comes up in a package: the members tell, and where the
traversal changes over, the references do. -/
theorem count_packageSteps {model : Model} (wellScoped : model.WellScoped) {id : RecordId}
    {times : Nat} (inside : times ≠ 0 → id.index < model.records.size) {step : Step}
    (own : step = .record id ∨ step = .reference id)
    (cut : ∀ package fuel, package.index < model.packages.size →
      model.packages.size ≤ package.index + fuel →
      (model.package package).included || (model.package package).external →
        (referenceSteps model fuel package).count step =
          if some (.package package) ∈ model.around id then times else 0)
    (record : ∀ other : RecordId, other.index < model.records.size →
      [recordStep model other].count step = if other = id then times else 0)
    {brackets : Bool} {package : PackageId} {fuel : Nat}
    (bound : package.index < model.packages.size)
    (enough : model.packages.size ≤ package.index + fuel) :
    (packageSteps model brackets fuel package).count step =
      if some (.package package) ∈ model.around id then times else 0 := by
  induction fuel generalizing package with
  | zero => omega
  | succ fuel ih =>
    rw [packageSteps_succ]
    split
    · rename_i stops
      exact cut package (fuel + 1) bound enough stops
    · rw [count_bracket own]
      refine count_through wellScoped inside (fun nested listed => ?_) record
      obtain ⟨present, later⟩ := fuel_nested wellScoped listed enough
      exact ih present later

/-- A type that is emitted has no package around it in which the traversal changes over. -/
theorem not_cut {model : Model} {id : RecordId}
    (primary : (model.record id).included = false →
      ∀ outer ∈ model.enclosing (model.record id).package, (model.package outer).included = false)
    (emitted : model.isEmitted id) {package : PackageId}
    (on : some (.package package) ∈ model.around id) :
    ((model.package package).included || (model.package package).external) = false := by
  simp only [isEmitted, Bool.and_eq_true, Bool.not_eq_true', List.all_eq_true] at emitted
  obtain ⟨⟨included, _⟩, external⟩ := emitted
  have outer : package ∈ model.enclosing (model.record id).package := by simpa [around] using on
  rw [primary included package outer, external package outer]
  rfl

/-- How often a step for a record type comes up in a traversal. -/
theorem count_steps_eq {model : Model} (wellScoped : model.WellScoped) {id : RecordId} {times : Nat}
    (inside : times ≠ 0 → id.index < model.records.size) {step : Step}
    (own : step = .record id ∨ step = .reference id)
    (cut : ∀ package fuel, package.index < model.packages.size →
      model.packages.size ≤ package.index + fuel →
      (model.package package).included || (model.package package).external →
        (referenceSteps model fuel package).count step =
          if some (.package package) ∈ model.around id then times else 0)
    (record : ∀ other : RecordId, other.index < model.records.size →
      [recordStep model other].count step = if other = id then times else 0)
    (brackets : Bool) (outer : Option String) : (steps model brackets outer).count step = times := by
  have roots : (steps model brackets outer).count step =
      (through (packageSteps model brackets model.packages.size)
        (fun other => [recordStep model other]) (model.contents none)).count step := by
    rw [through, contents, List.flatMap_map]
    rcases own with rfl | rfl <;> cases outer <;> simp [steps, bracket, onward]
  have on : none ∈ model.around id := List.mem_cons_self
  rw [roots, count_through wellScoped inside (fun nested listed => ?_) record, if_pos on]
  exact count_packageSteps wellScoped inside own cut record
    (wellScoped.closed.contents none _ listed) (Nat.le_add_left ..)

private theorem count_recordStep {model : Model} (id : RecordId) {other : RecordId}
    (inside : other.index < model.records.size) :
    ([recordStep model other].count (.record id) = if other = id then
        if id.index < model.records.size ∧ model.isEmitted id then 1 else 0
      else 0) ∧
      [recordStep model other].count (.reference id) = if other = id then
          if id.index < model.records.size ∧ ¬ model.isEmitted id then 1 else 0
        else 0 := by
  by_cases same : other = id
  · subst same
    by_cases emitted : model.isEmitted other <;> simp [recordStep, emitted, inside]
  · by_cases emitted : model.isEmitted other <;> simp [recordStep, emitted, same]

/-- The traversal visits a type that is emitted once and refers to any other once. Where the traversal
changes over to references there is no type that is emitted. -/
theorem count_steps {model : Model} (wellScoped : model.WellScoped)
    (primary : ∀ id : RecordId, id.index < model.records.size → (model.record id).included = false →
      ∀ outer ∈ model.enclosing (model.record id).package, (model.package outer).included = false)
    (brackets : Bool) (outer : Option String) (id : RecordId) :
    (steps model brackets outer).count (.record id) =
        (if id.index < model.records.size ∧ model.isEmitted id then 1 else 0) ∧
      (steps model brackets outer).count (.reference id) =
        if id.index < model.records.size ∧ ¬ model.isEmitted id then 1 else 0 := by
  have unreached : id.index < model.records.size → ∀ {package : PackageId},
      (model.package package).included || (model.package package).external →
        some (.package package) ∈ model.around id → model.isEmitted id = false := by
    intro inside package stops on
    by_contra emitted
    rw [not_cut (primary id inside) (by simpa using emitted) on] at stops
    cases stops
  constructor
  · refine count_steps_eq wellScoped (by simp +contextual) (.inl rfl)
      (fun package fuel bound enough stops => ?_)
      (fun other inside => (count_recordStep id inside).1) brackets outer
    have none : (referenceSteps model fuel package).count (.record id) = 0 :=
      List.count_eq_zero.mpr fun member => by
        obtain ⟨other, same⟩ := mem_referenceSteps member
        cases same
    rw [none]
    by_cases inside : id.index < model.records.size <;>
      by_cases on : some (.package package) ∈ model.around id
    · simp [unreached inside stops on]
    all_goals simp [inside, on]
  · refine count_steps_eq wellScoped (by simp +contextual) (.inr rfl)
      (fun package fuel bound enough stops => ?_)
      (fun other inside => (count_recordStep id inside).2) brackets outer
    rw [count_referenceSteps wellScoped id bound enough]
    by_cases inside : id.index < model.records.size <;>
      by_cases on : some (.package package) ∈ model.around id
    · simp [unreached inside stops on, inside]
    all_goals simp [inside, on]

end Traversal

end RecordSchema
