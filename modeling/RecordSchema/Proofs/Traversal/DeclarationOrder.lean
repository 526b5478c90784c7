import RecordSchema.Proofs.Traversal.Nesting

/-!
# The order of visits

Of two record types that are emitted the one is visited before the other that is declared before it:
where the ways to them from the outermost packages part, the member that leads to the one is listed
before the member that leads to the other. Nothing else has a part in the order, neither bases nor the
types of attributes.
-/

set_option autoImplicit false

namespace RecordSchema

open Model

/-- A record type is declared before another: in the place where the ways to them part, what leads to it
is listed before what leads to the other. -/
def Model.DeclaredBefore (model : Model) (first second : RecordId) : Prop :=
  ∃ place toward other, [toward, other].Sublist (model.contents place) ∧
    toward ∈ model.ancestry first ∧ other ∈ model.ancestry second

namespace Traversal

/-- Two items of some parts in a row stand in one part, or in two parts that are in their order. -/
theorem pair_sublist_flatMap_iff {α β : Type} {items : List α} {parts : α → List β}
    {first second : β} :
    [first, second].Sublist (items.flatMap parts) ↔
      (∃ item ∈ items, [first, second].Sublist (parts item)) ∨
        ∃ before after, [before, after].Sublist items ∧ first ∈ parts before ∧
          second ∈ parts after := by
  induction items with
  | nil => simp
  | cons item rest ih =>
    rw [List.flatMap_cons]
    constructor
    · intro pair
      obtain ⟨here, later, split, among, others⟩ := List.sublist_append_iff.mp pair
      match here with
      | [] =>
        cases split
        rcases ih.mp others with ⟨other, listed, inside⟩ | ⟨before, after, listed, members⟩
        · exact .inl ⟨other, List.mem_cons_of_mem _ listed, inside⟩
        · exact .inr ⟨before, after, listed.cons item, members⟩
      | [_] =>
        cases split
        obtain ⟨after, listed, member⟩ := List.mem_flatMap.mp (List.singleton_sublist.mp others)
        exact .inr ⟨item, after, (List.singleton_sublist.mpr listed).cons_cons item,
          List.singleton_sublist.mp among, member⟩
      | [_, _] =>
        cases split
        exact .inl ⟨item, List.mem_cons_self, among⟩
      | _ :: _ :: _ :: _ => cases split
    · rintro (⟨other, listed, inside⟩ | ⟨before, after, listed, member, later⟩)
      · rcases List.mem_cons.mp listed with rfl | listed
        · exact inside.trans (List.sublist_append_left _ _)
        · exact (ih.mpr (.inl ⟨other, listed, inside⟩)).trans (List.sublist_append_right _ _)
      · rcases List.sublist_cons_iff.mp listed with listed | ⟨tail, same, listed⟩
        · exact (ih.mpr (.inr ⟨before, after, listed, member, later⟩)).trans
            (List.sublist_append_right _ _)
        · cases same
          have among : second ∈ rest.flatMap parts :=
            List.mem_flatMap.mpr ⟨after, List.singleton_sublist.mp listed, later⟩
          exact (List.singleton_sublist.mpr member).append (List.singleton_sublist.mpr among)

/-- The record types that are visited by way of a member. -/
def visitedBy (model : Model) (package : PackageId → List RecordId) : Member → List RecordId
  | .package nested => package nested
  | .record id => if model.isEmitted id then [id] else []
  | _ => []

/-- The record types that are visited in a package. -/
def visitedWithin (model : Model) (fuel : Nat) (package : PackageId) : List RecordId :=
  (packageSteps model false fuel package).filterMap Step.visited?

/-- The record types that are visited by way of the members of a place. -/
def visitedIn (model : Model) (place : Option Scope) : List RecordId :=
  (model.contents place).flatMap (visitedBy model (visitedWithin model model.packages.size))

section Order

variable {model : Model}

private theorem filterMap_through_visited {package : PackageId → List Step} (members : List Member) :
    (through package (fun record => [recordStep model record]) members).filterMap Step.visited? =
      members.flatMap (visitedBy model fun nested => (package nested).filterMap Step.visited?) := by
  rw [through, List.filterMap_flatMap]
  refine List.flatMap_congr fun member _ => ?_
  cases member with
  | record id =>
    rw [onward, visitedBy, recordStep]
    split <;> rfl
  | package _ | enumeration _ | constant _ => rfl

private theorem visitedWithin_succ (fuel : Nat) (package : PackageId) :
    visitedWithin model (fuel + 1) package =
      if Enters model package then
        (model.contents (some (.package package))).flatMap (visitedBy model (visitedWithin model fuel))
      else [] := by
  rw [visitedWithin, packageSteps_succ]
  by_cases enters : Enters model package
  · have values : ∀ members : List Member, (members.filterMap constantStep?).filterMap
          Step.visited? = [] ∧ (members.filterMap enumerationStep?).filterMap Step.visited? = [] := by
      intro members
      constructor <;> refine List.filterMap_eq_nil_iff.mpr fun step listed => ?_ <;>
        obtain ⟨member, _, found⟩ := List.mem_filterMap.mp listed <;>
        cases member <;> cases found <;> rfl
    rw [if_pos enters, if_neg (by rw [enters]; exact Bool.false_ne_true),
      if_neg Bool.false_ne_true, bracket]
    simp only [List.cons_append, List.filterMap_cons, List.filterMap_append, values,
      filterMap_through_visited, Step.visited?, List.nil_append, List.filterMap_nil, List.append_nil]
    rfl
  · rw [if_neg enters, if_pos (Bool.not_eq_false _ ▸ enters)]
    refine List.filterMap_eq_nil_iff.mpr fun step listed => ?_
    obtain ⟨id, rfl⟩ := mem_referenceSteps listed
    rfl

/-- Fuel that is enough makes no difference. -/
theorem visitedWithin_eq (wellScoped : model.WellScoped) {package : PackageId} {fuel other : Nat}
    (inside : package.index < model.packages.size)
    (enough : model.packages.size ≤ package.index + fuel)
    (enoughToo : model.packages.size ≤ package.index + other) :
    visitedWithin model fuel package = visitedWithin model other package := by
  induction fuel generalizing package other with
  | zero => omega
  | succ fuel ih =>
    obtain ⟨other, rfl⟩ : ∃ less, other = less + 1 := ⟨other - 1, by omega⟩
    rw [visitedWithin_succ, visitedWithin_succ]
    congr 1
    refine List.flatMap_congr fun member listed => ?_
    cases member with
    | package nested =>
      obtain ⟨present, later⟩ := fuel_nested wellScoped listed enough
      exact ih present later (fuel_nested wellScoped listed enoughToo).2
    | record _ | enumeration _ | constant _ => rfl

private theorem visitedWithin_eq_visitedIn (wellScoped : model.WellScoped) {package : PackageId}
    (inside : package.index < model.packages.size) (enters : Enters model package) :
    visitedWithin model model.packages.size package = visitedIn model (some (.package package)) := by
  rw [visitedWithin_eq wellScoped inside (Nat.le_add_left ..)
    (show _ ≤ package.index + (model.packages.size + 1) by omega), visitedWithin_succ, if_pos enters]
  rfl

private theorem visited_eq_visitedIn (model : Model) : visited model = visitedIn model none := by
  have roots : (model.roots.flatMap fun root =>
      packageSteps model false model.packages.size root.2).filterMap Step.visited? =
        visitedIn model none := by
    rw [visitedIn, contents, List.flatMap_map, List.filterMap_flatMap]
    rfl
  rw [visited, steps, bracket, List.cons_append, List.filterMap_cons, List.filterMap_append,
    List.filterMap_append, roots]
  exact (List.append_nil _).trans (List.append_nil _)

/-- By way of a member nothing is visited, or the member itself, or what is visited in it. -/
theorem visitedBy_cases (model : Model) (fuel : Nat) (member : Member) :
    visitedBy model (visitedWithin model fuel) member = [] ∨
      (∃ id, member = .record id ∧ visitedBy model (visitedWithin model fuel) member = [id]) ∨
      ∃ nested less, member = .package nested ∧ fuel = less + 1 ∧
        visitedBy model (visitedWithin model fuel) member =
          (model.contents (some (.package nested))).flatMap
            (visitedBy model (visitedWithin model less)) := by
  cases member with
  | enumeration _ | constant _ => exact .inl rfl
  | record id =>
    rw [visitedBy]
    split
    · exact .inr (.inl ⟨id, rfl, rfl⟩)
    · exact .inl rfl
  | package nested =>
    cases fuel with
    | zero => exact .inl rfl
    | succ less =>
      rw [visitedBy, visitedWithin_succ]
      split
      · exact .inr (.inr ⟨nested, less, rfl, rfl, rfl⟩)
      · exact .inl rfl

section Pairs

variable (wellScoped : model.WellScoped) {first second : RecordId}
  (inside : first.index < model.records.size) (insideToo : second.index < model.records.size)

include wellScoped inside

/-- What is visited by way of a member has the member above it. -/
theorem mem_ancestry_of_visitedBy {fuel : Nat} {member : Member}
    (visit : first ∈ visitedBy model (visitedWithin model fuel) member) :
    member ∈ model.ancestry first := by
  induction fuel using Nat.strongRecOn generalizing member with
  | ind fuel ih =>
    rcases visitedBy_cases model fuel member with
      none | ⟨id, rfl, only⟩ | ⟨nested, less, rfl, rfl, within⟩
    · rw [none] at visit
      cases visit
    · rw [only] at visit
      cases List.mem_singleton.mp visit
      exact List.mem_cons_self
    · rw [within] at visit
      obtain ⟨inner, listed, visit⟩ := List.mem_flatMap.mp visit
      have around := home_mem_around wellScoped inside (ih less (Nat.lt_succ_self _) visit)
      rw [(home_of_contents wellScoped listed).2] at around
      simpa [Model.around, ancestry] using around

include insideToo

/-- If two types are visited by way of a place one after the other, the first is declared first. -/
theorem declaredBefore_of_pair {fuel : Nat} {place : Option Scope}
    (pair : [first, second].Sublist
      ((model.contents place).flatMap (visitedBy model (visitedWithin model fuel)))) :
    model.DeclaredBefore first second := by
  induction fuel using Nat.strongRecOn generalizing place with
  | ind fuel ih =>
    rcases pair_sublist_flatMap_iff.mp pair with
      ⟨member, -, pair⟩ | ⟨before, after, listed, visit, later⟩
    · rcases visitedBy_cases model fuel member with
        none | ⟨id, -, only⟩ | ⟨nested, less, -, rfl, within⟩
      · rw [none] at pair
        cases pair
      · rw [only] at pair
        exact absurd pair.length_le (by simp)
      · rw [within] at pair
        exact ih less (Nat.lt_succ_self _) pair
    · exact ⟨place, before, after, listed, mem_ancestry_of_visitedBy wellScoped inside visit,
        mem_ancestry_of_visitedBy wellScoped insideToo later⟩

end Pairs

private theorem sublist_flatMap_of_mem {α β : Type} {items : List α} {item : α} (listed : item ∈ items)
    (parts : α → List β) : (parts item).Sublist (items.flatMap parts) := by
  rw [List.flatMap_def]
  exact List.sublist_flatten_of_mem (List.mem_map_of_mem listed)

private theorem visitedWithin_sublist {package : PackageId} {place : Option Scope}
    (listed : .package package ∈ model.contents place) :
    (visitedWithin model model.packages.size package).Sublist (visitedIn model place) :=
  sublist_flatMap_of_mem listed (visitedBy model (visitedWithin model model.packages.size))

/-- The packages around one that is reached are reached. -/
theorem Reached.outer (wellScoped : model.WellScoped) {package outer : PackageId}
    (reached : Reached model package) (around : outer ∈ model.enclosing package) :
    Reached model outer := by
  obtain ⟨inside, enters⟩ := reached
  fun_induction model.enclosing package with
  | case1 id root =>
    cases List.mem_singleton.mp around
    exact ⟨inside, by simpa [enclosing, root] using enters⟩
  | case3 id parent found after =>
    exact absurd (wellScoped.parentBefore id inside parent found) after
  | case2 id parent found before ih =>
    rcases List.mem_cons.mp around with rfl | further
    · exact ⟨inside, by rw [enclosing, found]; simpa [before] using enters⟩
    · exact ih further (wellScoped.closed.parent id parent found)
        fun other on => enters other (List.mem_cons_of_mem _ on)

/-- What is visited in a package that is reached is visited in the packages around it, in that order. -/
theorem visitedIn_sublist_within (wellScoped : model.WellScoped) {package outer : PackageId}
    (reached : Reached model package) (around : outer ∈ model.enclosing package) :
    (visitedIn model (some (.package package))).Sublist
      (visitedWithin model model.packages.size outer) := by
  obtain ⟨inside, enters⟩ := reached
  fun_induction model.enclosing package with
  | case1 id root =>
    cases List.mem_singleton.mp around
    rw [visitedWithin_eq_visitedIn wellScoped inside (enters _ (List.mem_singleton_self _))]
  | case2 id parent found before ih =>
    have here : visitedWithin model model.packages.size id = visitedIn model (some (.package id)) :=
      visitedWithin_eq_visitedIn wellScoped inside (enters _ List.mem_cons_self)
    rcases List.mem_cons.mp around with rfl | further
    · rw [here]
    · have present := wellScoped.closed.parent id parent found
      refine .trans ?_ (ih further present fun other on => enters other (List.mem_cons_of_mem _ on))
      have inRange : (Member.package id).reference.InRange model.census := inside
      have listed : .package id ∈ model.contents (some (.package parent)) :=
        (wellScoped.named.mem_iff inRange).mpr (by rw [Model.home, found]; rfl)
      exact here ▸ visitedWithin_sublist listed
  | case3 id parent found after =>
    exact absurd (wellScoped.parentBefore id inside parent found) after

private theorem visitedIn_sublist (wellScoped : model.WellScoped) {package : PackageId}
    (reached : Reached model package) :
    (visitedIn model (some (.package package))).Sublist (visited model) := by
  obtain ⟨outer, around, listed⟩ := exists_root wellScoped reached.1
  rw [visited_eq_visitedIn]
  exact (visitedIn_sublist_within wellScoped reached around).trans (visitedWithin_sublist listed)

/-- A type that is emitted, in a package that is reached, is visited by way of all that is above it. -/
theorem visitedBy_of_ancestry (wellScoped : model.WellScoped) {id : RecordId} {member : Member}
    (inside : id.index < model.records.size) (emitted : model.isEmitted id)
    (reached : Reached model (model.record id).package) (on : member ∈ model.ancestry id) :
    id ∈ visitedBy model (visitedWithin model model.packages.size) member := by
  rcases List.mem_cons.mp on with rfl | outer
  · rw [visitedBy, if_pos emitted]
    exact List.mem_singleton_self _
  · obtain ⟨package, around, rfl⟩ := List.mem_map.mp outer
    refine (visitedIn_sublist_within wellScoped reached around).subset ?_
    have inRange : (Member.record id).reference.InRange model.census := inside
    refine List.mem_flatMap.mpr ⟨.record id, (wellScoped.named.mem_iff inRange).mpr rfl, ?_⟩
    rw [visitedBy, if_pos emitted]
    exact List.mem_singleton_self _

/-- The order of visits is that of the declarations. -/
theorem pair_sublist_visited_iff (wellScoped : model.WellScoped) {first second : RecordId}
    (inside : first.index < model.records.size) (insideToo : second.index < model.records.size)
    (emitted : model.isEmitted first) (emittedToo : model.isEmitted second)
    (reached : Reached model (model.record first).package)
    (reachedToo : Reached model (model.record second).package) :
    [first, second].Sublist (visited model) ↔ model.DeclaredBefore first second := by
  constructor
  · intro pair
    rw [visited_eq_visitedIn] at pair
    exact declaredBefore_of_pair wellScoped inside insideToo pair
  · rintro ⟨place, toward, other, listed, on, onToo⟩
    have pair : [first, second].Sublist (visitedIn model place) :=
      pair_sublist_flatMap_iff.mpr (.inr ⟨toward, other, listed,
        visitedBy_of_ancestry wellScoped inside emitted reached on,
        visitedBy_of_ancestry wellScoped insideToo emittedToo reachedToo onToo⟩)
    have around := home_mem_around wellScoped inside on
    rw [(home_of_contents wellScoped (listed.subset List.mem_cons_self)).2] at around
    rcases List.mem_cons.mp around with rfl | around
    · rwa [visited_eq_visitedIn]
    · obtain ⟨package, on, rfl⟩ := List.mem_map.mp around
      exact pair.trans (visitedIn_sublist wellScoped (reached.outer wellScoped on))

end Order

section Built

variable {units : List SourceUnit} {built : Built}

/-- A built model's traversal reaches the package of each type that it visits. -/
theorem build_reached (accepted : build units = .ok built) {id : RecordId}
    (visit : id ∈ visited built.model) : Reached built.model (built.model.record id).package := by
  obtain ⟨inside, emitted⟩ := (build_mem_visited accepted id).mp visit
  obtain ⟨stages⟩ := build_stages accepted
  have wellScoped : built.model.WellScoped := stages.sound.toWellScoped
  refine ⟨(wellScoped.closed.record inside).package, fun outer around => ?_⟩
  exact not_cut (fun primary => stages.inclusion.enclosing wellScoped.closed inside primary) emitted
    (by simpa [Model.around] using around)

/-- Types are visited in the order of their declaration. -/
theorem build_pair_visited_iff (accepted : build units = .ok built) {first second : RecordId}
    (visit : first ∈ visited built.model) (visitToo : second ∈ visited built.model) :
    [first, second].Sublist (visited built.model) ↔ built.model.DeclaredBefore first second := by
  obtain ⟨stages⟩ := build_stages accepted
  have wellScoped : built.model.WellScoped := stages.sound.toWellScoped
  obtain ⟨inside, emitted⟩ := (build_mem_visited accepted first).mp visit
  obtain ⟨insideToo, emittedToo⟩ := (build_mem_visited accepted second).mp visitToo
  exact pair_sublist_visited_iff wellScoped inside insideToo emitted emittedToo
    (build_reached accepted visit) (build_reached accepted visitToo)

end Built

end Traversal

end RecordSchema
