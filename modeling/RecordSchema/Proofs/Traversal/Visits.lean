import RecordSchema.Proofs.Traversal.Calls

/-!
# What is visited, and where

A traversal visits the record types that are emitted, each once, whatever the namespaces around the
code. It goes down into packages and opens a namespace for each, while a declaration knows only the way up
from its package. Both come to the same: while a declaration is visited, the namespaces that are open are
those on the path to its package.
-/

set_option autoImplicit false

namespace RecordSchema

open Model

/-- The declaration for which a step has code emitted. -/
def Step.declared? : Step → Option Member
  | constant id => some (.constant id)
  | enumeration id => some (.enumeration id)
  | record id => some (.record id)
  | _ => none

namespace Cpp

/-- The namespaces of a package and of those around it, the outermost first. -/
def namespacePath (model : Model) (id : PackageId) : List String :=
  (model.packageChain id).map (packageNamespace model)

end Cpp

namespace Traversal

/-- Wherever some steps visit a declaration, it is at home in a package, and the namespaces that are
open are those on the path to it within the outer ones, if those given are open before the steps. -/
def VisitsAtHome (model : Model) (outer scopes : List String) (steps : List Step) : Prop :=
  ∀ (front : List Step) (step : Step) (back : List Step), steps = front ++ step :: back →
    ∀ member, step.declared? = some member → ∃ package, model.home member = some (.package package) ∧
      front.foldlM turn scopes = some ((Cpp.namespacePath model package).reverse ++ outer)

namespace VisitsAtHome

variable {model : Model} {outer scopes : List String} {first second : List Step}

private theorem of_unvisited (unvisited : ∀ step ∈ first, step.declared? = none) :
    VisitsAtHome model outer scopes first := by
  rintro front step back rfl member visit
  rw [unvisited step (by simp)] at visit
  cases visit

/-- Steps that open and close nothing leave open what is. -/
theorem of_calls (calls : ∀ step ∈ first, step.isCall)
    (home : ∀ step ∈ first, ∀ member, step.declared? = some member →
      ∃ package, model.home member = some (.package package) ∧
        scopes = (Cpp.namespacePath model package).reverse ++ outer) :
    VisitsAtHome model outer scopes first := by
  rintro front step back rfl member visit
  obtain ⟨package, place, same⟩ := home step (by simp) member visit
  have kept : Balanced front := .of_calls fun other among => calls other (by simp [among])
  exact ⟨package, place, by rw [kept, same]⟩

theorem append (one : VisitsAtHome model outer scopes first) (balanced : Balanced first)
    (other : VisitsAtHome model outer scopes second) :
    VisitsAtHome model outer scopes (first ++ second) := by
  intro front step back split member visit
  rcases List.append_eq_append_iff.mp split with ⟨between, rfl, later⟩ | ⟨between, rfl, later⟩
  · obtain ⟨package, home, reached⟩ := other between step back later member visit
    exact ⟨package, home, by rw [List.foldlM_append, balanced scopes]; exact reached⟩
  · cases between with
    | nil =>
      obtain ⟨package, home, reached⟩ := other [] step back later.symm member visit
      rw [List.append_nil] at balanced
      exact ⟨package, home, (balanced scopes).trans reached⟩
    | cons next rest =>
      cases later
      exact one front step rest rfl member visit

theorem flatMap {α : Type} {items : List α} {steps : α → List Step}
    (each : ∀ item ∈ items, VisitsAtHome model outer scopes (steps item))
    (balanced : ∀ item ∈ items, Balanced (steps item)) :
    VisitsAtHome model outer scopes (items.flatMap steps) := by
  induction items with
  | nil => exact of_unvisited (by simp)
  | cons item rest ih =>
    obtain ⟨here, others⟩ := List.forall_mem_cons.mp each
    obtain ⟨closed, othersClosed⟩ := List.forall_mem_cons.mp balanced
    rw [List.flatMap_cons]
    exact here.append closed (ih others othersClosed)

theorem bracket {name : Option String}
    (inner : VisitsAtHome model outer (name.toList ++ scopes) first) (balanced : Balanced first) :
    VisitsAtHome model outer scopes (bracket name first) := by
  cases name with
  | none => exact inner
  | some name =>
    have ended : VisitsAtHome model outer (name :: scopes) (first ++ [.closeNamespace]) :=
      inner.append balanced (of_unvisited (by simp [Step.declared?]))
    intro front step back split member visit
    cases front with
    | nil =>
      cases split
      cases visit
    | cons opens rest =>
      obtain ⟨rfl, later⟩ := List.cons.inj split
      rw [List.foldlM_cons]
      exact ended rest step back later member visit

end VisitsAtHome

/-- What a package declares itself is visited by calls alone. -/
theorem visit_declared {model : Model} {package : PackageId} {step : Step}
    (among : step ∈ .enter package ::
      (model.contents (some (.package package))).filterMap constantStep? ++
        (model.contents (some (.package package))).filterMap enumerationStep?)
    {member : Member} (visit : step.declared? = some member) :
    member ∈ model.contents (some (.package package)) := by
  rcases List.mem_append.mp among with first | enumeration
  · rcases List.mem_cons.mp first with rfl | constant
    · cases visit
    · obtain ⟨other, listed, found⟩ := List.mem_filterMap.mp constant
      cases other <;> cases found
      cases visit
      exact listed
  · obtain ⟨other, listed, found⟩ := List.mem_filterMap.mp enumeration
    cases other <;> cases found
    cases visit
    exact listed

section Package

variable {model : Model} (wellScoped : model.WellScoped) {package : PackageId} {above : List PackageId}
  (around : model.enclosing package = package :: above)

include around in
/-- The namespaces that are open in a package are those on the path to it. -/
theorem open_eq_namespacePath (outer : List String) :
    Cpp.packageNamespace model package :: (above.map (Cpp.packageNamespace model) ++ outer) =
      (Cpp.namespacePath model package).reverse ++ outer := by
  rw [Cpp.namespacePath, packageChain, around, List.map_reverse, List.reverse_reverse]
  rfl

include wellScoped around

/-- What a package declares itself is visited in its namespace. -/
theorem declared_visitsAtHome (outer : List String) :
    VisitsAtHome model outer
      (Cpp.packageNamespace model package :: (above.map (Cpp.packageNamespace model) ++ outer))
      (.enter package :: (model.contents (some (.package package))).filterMap constantStep? ++
        (model.contents (some (.package package))).filterMap enumerationStep?) :=
  .of_calls (fun _ member => (declared_isCall member).1) fun _ among _ visit =>
    ⟨package, (home_of_contents wellScoped (visit_declared among visit)).2,
      open_eq_namespacePath around outer⟩

/-- The types of a package are visited in its namespace, and packages in it bring what they bring. -/
theorem onward_visitsAtHome {outer : List String} {descend : PackageId → List Step}
    (nested : ∀ inner, model.enclosing inner = inner :: package :: above →
      VisitsAtHome model outer
        (Cpp.packageNamespace model package :: (above.map (Cpp.packageNamespace model) ++ outer))
        (descend inner))
    {member : Member} (listed : member ∈ model.contents (some (.package package))) :
    VisitsAtHome model outer
      (Cpp.packageNamespace model package :: (above.map (Cpp.packageNamespace model) ++ outer))
      (onward descend (fun record => [recordStep model record]) member) := by
  obtain ⟨inside, home⟩ := home_of_contents wellScoped listed
  cases member with
  | package inner =>
    obtain ⟨parent, found, same⟩ := Option.map_eq_some_iff.mp home
    cases same
    have before := wellScoped.parentBefore inner inside package found
    refine nested inner ?_
    rw [enclosing, found]
    simp only [before, dite_true, around]
  | record id =>
    rw [onward, recordStep]
    split
    · refine .of_calls (by simp [Step.isCall]) fun step single member visit => ?_
      cases List.mem_singleton.mp single
      cases visit
      exact ⟨package, home, open_eq_namespacePath around outer⟩
    · exact .of_unvisited (by simp [Step.declared?])
  | enumeration _ | constant _ => exact .of_unvisited (by simp [onward])

end Package

/-- In a package, declarations are visited within the namespaces on the path to them, if those on the
path to the package are open. -/
theorem packageSteps_visitsAtHome {model : Model} (wellScoped : model.WellScoped)
    {outer : List String} {package : PackageId} {above : List PackageId} {fuel : Nat}
    (around : model.enclosing package = package :: above) :
    VisitsAtHome model outer (above.map (Cpp.packageNamespace model) ++ outer)
      (packageSteps model true fuel package) := by
  induction fuel generalizing package above with
  | zero => exact .of_unvisited (by simp [packageSteps])
  | succ fuel ih =>
    rw [packageSteps_succ]
    split
    · refine .of_unvisited fun step among => ?_
      obtain ⟨_, rfl⟩ := mem_referenceSteps among
      rfl
    · have declared := declared_visitsAtHome wellScoped around outer
      have declaredBalanced : Balanced (.enter package ::
          (model.contents (some (.package package))).filterMap constantStep? ++
            (model.contents (some (.package package))).filterMap enumerationStep?) :=
        .of_calls fun _ member => (declared_isCall member).1
      have each : ∀ member, Balanced (onward (packageSteps model true fuel)
          (fun record => [recordStep model record]) member) :=
        onward_balanced (packageSteps_balanced model true fuel)
      have others : VisitsAtHome model outer
          (Cpp.packageNamespace model package :: (above.map (Cpp.packageNamespace model) ++ outer))
          (through (packageSteps model true fuel) (fun record => [recordStep model record])
            (model.contents (some (.package package)))) :=
        .flatMap (fun _ listed => onward_visitsAtHome wellScoped around (fun _ chain => ih chain) listed)
          fun member _ => each member
      have balanced := declaredBalanced.append (.flatMap fun member _ => each member :
        Balanced (through (packageSteps model true fuel) (fun record => [recordStep model record])
          (model.contents (some (.package package)))))
      have leave : Balanced [.leave package] := .of_calls (by simp [Step.isCall])
      exact .bracket ((declared.append declaredBalanced others).append balanced
        (.of_unvisited (by simp [Step.declared?]))) (balanced.append leave)

/-- While a declaration is visited, the namespaces that are open are those on the path to it, within
the outermost one. -/
theorem steps_visitsAtHome {model : Model} (wellScoped : model.WellScoped) (outer : Option String) :
    VisitsAtHome model outer.toList [] (steps model true outer) := by
  have packages : VisitsAtHome model outer.toList (outer.toList ++ []) (model.roots.flatMap fun root =>
      packageSteps model true model.packages.size root.2) := by
    refine .flatMap (fun root listed => ?_) fun root _ => packageSteps_balanced model true _ root.2
    have top : .package root.2 ∈ model.contents none := List.mem_map_of_mem listed
    have home : (model.package root.2).parent = none :=
      Option.map_eq_none_iff.mp (home_of_contents wellScoped top).2
    have alone : model.enclosing root.2 = [root.2] := by
      rw [enclosing, home]
    rw [List.append_nil]
    exact packageSteps_visitsAtHome wellScoped alone
  have balanced : Balanced (model.roots.flatMap fun root =>
      packageSteps model true model.packages.size root.2) :=
    .flatMap fun root _ => packageSteps_balanced model true _ root.2
  have calls : ∀ {step : Step}, step.isCall → Balanced [step] := fun isCall =>
    .of_calls fun _ member => List.mem_singleton.mp member ▸ isCall
  have apart : ∀ (step : Step) {scopes : List String}, step.declared? = none →
      VisitsAtHome model outer.toList scopes [step] := fun _ _ unvisited =>
    .of_unvisited fun _ member => List.mem_singleton.mp member ▸ unvisited
  have whole := packages.append balanced (apart .finish rfl)
  have wholeBalanced := balanced.append (calls rfl : Balanced [.finish])
  exact ((apart .prologue rfl).append (calls rfl) (.bracket whole wholeBalanced)).append
    ((calls rfl : Balanced [.prologue]).append (.bracket wholeBalanced))
    (apart .epilogue rfl)

end Traversal

/-!
## Visits in a run

What is written for a type stands between what was written before and what comes after.
-/

/-- The record type that a step visits. -/
def Step.visited? : Step → Option RecordId
  | .record id => some id
  | _ => none

namespace Traversal

/-- The record types that are visited, in order. -/
def visited (model : Model) : List RecordId :=
  (steps model false none).filterMap Step.visited?

section Visited

variable {model : Model}

/-- What is seen in some steps is seen in them within a namespace, if that is not seen. -/
theorem filterMap_bracket {α : Type} (view : Step → Option α)
    (opens : ∀ name, view (.openNamespace name) = none) (closes : view .closeNamespace = none)
    (name : Option String) (inner : List Step) :
    (bracket name inner).filterMap view = inner.filterMap view := by
  cases name with
  | none => rfl
  | some name =>
    rw [bracket, List.cons_append, List.filterMap_cons_none (opens name), List.filterMap_append,
      List.filterMap_cons_none closes, List.filterMap_nil, List.append_nil]

private theorem filterMap_through (first second : PackageId → List Step) (record : RecordId → List Step)
    (same : ∀ id, (first id).filterMap Step.visited? = (second id).filterMap Step.visited?)
    (members : List Member) :
    (through first record members).filterMap Step.visited? =
      (through second record members).filterMap Step.visited? := by
  rw [through, through, List.filterMap_flatMap, List.filterMap_flatMap]
  congr 1
  funext member
  cases member with
  | package id => exact same id
  | record _ | enumeration _ | constant _ => rfl

private theorem filterMap_packageSteps (brackets : Bool) (fuel : Nat) (id : PackageId) :
    (packageSteps model brackets fuel id).filterMap Step.visited? =
      (packageSteps model false fuel id).filterMap Step.visited? := by
  induction fuel generalizing id with
  | zero => rfl
  | succ fuel ih =>
    rw [packageSteps_succ, packageSteps_succ]
    split
    · rfl
    · simp only [filterMap_bracket Step.visited? (fun _ => rfl) rfl, List.filterMap_append]
      rw [filterMap_through _ _ _ ih]

/-- Namespaces have no part in what is visited. -/
theorem filterMap_steps (model : Model) (brackets : Bool) (outer : Option String) :
    (steps model brackets outer).filterMap Step.visited? = visited model := by
  have packages : ∀ roots : List (String × PackageId),
      (roots.flatMap fun root => packageSteps model brackets model.packages.size root.2).filterMap
          Step.visited? =
        (roots.flatMap fun root => packageSteps model false model.packages.size root.2).filterMap
          Step.visited? := by
    intro roots
    rw [List.filterMap_flatMap, List.filterMap_flatMap]
    congr 1
    funext root
    exact filterMap_packageSteps brackets _ root.2
  rw [visited]
  simp only [steps, List.cons_append, List.filterMap_cons, List.filterMap_append,
    filterMap_bracket Step.visited? (fun _ => rfl) rfl, packages]

private theorem count_visited (model : Model) (id : RecordId) :
    (visited model).count id = (steps model false none).count (.record id) := by
  rw [visited, List.count_filterMap, List.count]
  refine List.countP_congr fun step _ => ?_
  cases step <;> simp [Step.visited?]

end Visited

section Built

variable {units : List SourceUnit} {built : Built}

/-- A built model's traversal visits the types that are emitted, each once. -/
theorem build_count_visited (accepted : build units = .ok built) (id : RecordId) :
    (visited built.model).count id =
      if id.index < built.model.records.size ∧ built.model.isEmitted id then 1 else 0 := by
  obtain ⟨stages⟩ := build_stages accepted
  have wellScoped : built.model.WellScoped := stages.sound.toWellScoped
  rw [count_visited]
  exact (count_steps wellScoped
    (fun _ inside => stages.inclusion.enclosing wellScoped.closed inside) false none id).1

theorem build_mem_visited (accepted : build units = .ok built) (id : RecordId) :
    id ∈ visited built.model ↔ id.index < built.model.records.size ∧ built.model.isEmitted id := by
  rw [← List.count_pos_iff, build_count_visited accepted]
  split <;> simp [*]

theorem build_nodup_visited (accepted : build units = .ok built) : (visited built.model).Nodup := by
  refine List.nodup_iff_count_le_one.mpr fun id => ?_
  rw [build_count_visited accepted]
  split <;> decide

end Built

/-- Wherever some steps visit a type, the namespaces that are open are the expected ones, if those given
are open before the steps. -/
def VisitsWithin (expected : RecordId → List String) (scopes : List String) (steps : List Step) :
    Prop :=
  ∀ front id back, steps = front ++ .record id :: back →
    front.foldlM turn scopes = some (expected id)

/-- The namespaces of the packages around a record type, the innermost first. -/
def namespacesAround (model : Model) (id : RecordId) : List String :=
  (model.enclosing (model.record id).package).map (Cpp.packageNamespace model)

/-- While a record type is visited, the namespaces that are open are those of the packages around it,
innermost first, and the outermost one. -/
theorem steps_visitsWithin {model : Model} (wellScoped : model.WellScoped) (outer : Option String) :
    VisitsWithin (fun id => namespacesAround model id ++ outer.toList) []
      (steps model true outer) := by
  intro front id back split
  obtain ⟨package, home, reached⟩ :=
    steps_visitsAtHome wellScoped outer front (.record id) back split (.record id) rfl
  cases home
  simp only [reached, namespacesAround, Cpp.namespacePath, packageChain, List.map_reverse,
    List.reverse_reverse]

section Runs

variable {σ : Type} {model : Model} {backend : Backend σ}

/-- If every step can be taken in which no namespace is closed that is not open, a run succeeds. -/
theorem run_total (outer : Option String) (start : σ)
    (each : ∀ step ∈ steps model backend.brackets outer, ∀ output state,
      (turn output.scopes step).isSome →
        ∃ after later, (Traversal.step model backend output step).run.run state = (.ok after, later)) :
    ∃ generated last, (run model backend outer).run.run start = (.ok generated, last) := by
  have total : ∀ (steps : List Step) (output : Output) (state : σ) (scopes : List String),
      (∀ step ∈ steps, ∀ output state, (turn output.scopes step).isSome →
        ∃ after later,
          (Traversal.step model backend output step).run.run state = (.ok after, later)) →
      steps.foldlM turn output.scopes = some scopes →
        ∃ after later, (steps.foldlM (step model backend) output).run.run state =
          (.ok after, later) := by
    intro steps
    induction steps with
    | nil => exact fun output state _ _ _ => ⟨output, state, rfl⟩
    | cons first rest ih =>
      intro output state scopes each turns
      obtain ⟨here, others⟩ := List.forall_mem_cons.mp each
      rw [List.foldlM_cons] at turns
      obtain ⟨between, turned, turns⟩ := Option.bind_eq_some_iff.mp turns
      obtain ⟨middle, later, taken⟩ := here output state (turned ▸ rfl)
      have same : between = middle.scopes := Option.some.inj (turned.symm.trans (step_ok taken).1)
      obtain ⟨after, last, rest⟩ := ih middle later scopes others (same ▸ turns)
      exact ⟨after, last, by rw [List.foldlM_cons, run_bind, taken]; exact rest⟩
  obtain ⟨final, last, taken⟩ := total _ {} start [] each (steps_balanced _ _ _ [])
  refine ⟨final.generated, last, ?_⟩
  rw [run_eq, run_bind, taken]
  rfl

/-- A run that succeeds writes for a type that it visits what the backend gives for it, within the
namespaces that are open at that point. -/
theorem run_visit {outer : Option String} {start last : σ} {generated : Generated}
    (ran : (run model backend outer).run.run start = (.ok generated, last))
    {front back : List Step} {id : RecordId}
    (split : steps model backend.brackets outer = front ++ .record id :: back) :
    ∃ (before : Output) (text after : Generated) (state later : σ),
      (front.foldlM (step model backend) {}).run.run start = (.ok before, state) ∧
        front.foldlM turn [] = some before.scopes ∧
        (backend.visitRecord model id).run.run state = (.ok text, later) ∧
        generated = before.generated ++ text ++ after := by
  rw [run_eq] at ran
  obtain ⟨final, _, all, ended⟩ := run_bind_ok ran
  obtain rfl : final.generated = generated := by
    cases ended
    rfl
  rw [split, List.foldlM_append] at all
  obtain ⟨before, state, first, rest⟩ := run_bind_ok all
  rw [List.foldlM_cons] at rest
  obtain ⟨_, later, visit, rest⟩ := run_bind_ok rest
  obtain ⟨text, called, rfl⟩ := add_ok visit
  obtain ⟨_, after, grown⟩ := foldlM_step_ok rest
  exact ⟨before, text, after, state, later, first, (foldlM_step_ok first).1, called, grown⟩

end Runs

end Traversal

end RecordSchema
