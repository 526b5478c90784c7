import RecordSchema.Proofs.Traversal.Steps

/-!
# A traversal takes its steps

Whatever a package opens it closes, so a walk through a model comes to the same as taking the steps of
the traversal one after the other, up to the first fault. The namespaces that are open are as many as
expected wherever they are counted.
-/

set_option autoImplicit false

namespace RecordSchema

open Model

namespace Generated

theorem append_empty (text : Generated) : text ++ ({} : Generated) = text :=
  congrArg₂ Generated.mk String.append_empty String.append_empty

theorem empty_append (text : Generated) : ({} : Generated) ++ text = text :=
  congrArg₂ Generated.mk String.empty_append String.empty_append

theorem append_assoc (first second third : Generated) :
    first ++ second ++ third = first ++ (second ++ third) :=
  congrArg₂ Generated.mk String.append_assoc String.append_assoc

end Generated

/-- Whether a step calls the backend. -/
def Step.isCall : Step → Bool
  | openNamespace _ | closeNamespace => false
  | _ => true

namespace Traversal

/-- The namespaces that are open after a step, if it can be taken. -/
def turn : List String → Step → Option (List String)
  | scopes, .openNamespace name => some (name :: scopes)
  | _ :: scopes, .closeNamespace => some scopes
  | [], .closeNamespace => none
  | scopes, _ => some scopes

/-- Steps that close the namespaces that they open, and no others. -/
def Balanced (steps : List Step) : Prop :=
  ∀ scopes, steps.foldlM turn scopes = some scopes

private theorem turn_call (scopes : List String) {step : Step} (isCall : step.isCall) :
    turn scopes step = some scopes := by
  cases step with
  | openNamespace _ | closeNamespace => cases isCall
  | _ => cases scopes <;> rfl

namespace Balanced

variable {first second : List Step}

theorem append (one : Balanced first) (other : Balanced second) : Balanced (first ++ second) := by
  intro scopes
  rw [List.foldlM_append, one scopes]
  exact other scopes

theorem of_calls (calls : ∀ step ∈ first, step.isCall) : Balanced first := by
  intro scopes
  induction first with
  | nil => rfl
  | cons step rest ih =>
    obtain ⟨isCall, others⟩ := List.forall_mem_cons.mp calls
    rw [List.foldlM_cons, turn_call scopes isCall]
    exact ih others

theorem flatMap {α : Type} {items : List α} {steps : α → List Step}
    (each : ∀ item ∈ items, Balanced (steps item)) : Balanced (items.flatMap steps) := by
  induction items with
  | nil => exact fun _ => rfl
  | cons item rest ih =>
    obtain ⟨here, others⟩ := List.forall_mem_cons.mp each
    rw [List.flatMap_cons]
    exact here.append (ih others)

theorem bracket {name : Option String} (inner : Balanced first) : Balanced (bracket name first) := by
  cases name with
  | none => exact inner
  | some name =>
    intro scopes
    rw [Traversal.bracket, List.cons_append, List.foldlM_cons]
    change (first ++ [Step.closeNamespace]).foldlM turn (name :: scopes) = _
    rw [List.foldlM_append, inner]
    rfl

end Balanced

/-- What comes before the nested packages and record types of a package calls hooks, and visits
nothing. -/
theorem declared_isCall {package : PackageId} {members : List Member} {step : Step}
    (member : step ∈ .enter package :: members.filterMap constantStep? ++
      members.filterMap enumerationStep?) : step.isCall ∧ ∀ id, step ≠ .record id := by
  rcases List.mem_append.mp member with first | enumeration
  · rcases List.mem_cons.mp first with rfl | constant
    · exact ⟨rfl, nofun⟩
    · obtain ⟨other, _, found⟩ := List.mem_filterMap.mp constant
      cases other <;> cases found
      exact ⟨rfl, nofun⟩
  · obtain ⟨other, _, found⟩ := List.mem_filterMap.mp enumeration
    cases other <;> cases found
    exact ⟨rfl, nofun⟩

theorem onward_balanced {model : Model} {package : PackageId → List Step}
    (packages : ∀ id, Balanced (package id)) (member : Member) :
    Balanced (onward package (fun record => [recordStep model record]) member) := by
  cases member with
  | package nested => exact packages nested
  | record record =>
    refine .of_calls fun step member => ?_
    rw [List.mem_singleton.mp member, recordStep]
    split <;> rfl
  | enumeration _ | constant _ => exact fun _ => rfl

theorem packageSteps_balanced (model : Model) (brackets : Bool) (fuel : Nat) (id : PackageId) :
    Balanced (packageSteps model brackets fuel id) := by
  induction fuel generalizing id with
  | zero => exact fun _ => rfl
  | succ fuel ih =>
    rw [packageSteps_succ]
    split
    · refine .of_calls fun step member => ?_
      obtain ⟨record, rfl⟩ := mem_referenceSteps member
      rfl
    · have declared : Balanced (.enter id ::
          (model.contents (some (.package id))).filterMap constantStep? ++
            (model.contents (some (.package id))).filterMap enumerationStep?) :=
        .of_calls fun _ member => (declared_isCall member).1
      have others : Balanced (through (packageSteps model brackets fuel)
          (fun record => [recordStep model record]) (model.contents (some (.package id)))) :=
        .flatMap fun member _ => onward_balanced ih member
      have leave : Balanced [.leave id] := .of_calls (by simp [Step.isCall])
      exact .bracket ((declared.append others).append leave)

private theorem rootSteps_balanced (model : Model) (brackets : Bool) :
    Balanced ((model.roots.flatMap fun root : String × PackageId =>
      packageSteps model brackets model.packages.size root.2) ++ [Step.finish]) := by
  have finish : Balanced [.finish] := .of_calls (by simp [Step.isCall])
  exact .append (.flatMap fun root _ => packageSteps_balanced model brackets _ root.2) finish

theorem steps_balanced (model : Model) (brackets : Bool) (outer : Option String) :
    Balanced (steps model brackets outer) := by
  have single : ∀ {step : Step}, step.isCall → Balanced [step] := fun isCall =>
    .of_calls fun _ member => List.mem_singleton.mp member ▸ isCall
  exact ((single rfl).append (.bracket (rootSteps_balanced model brackets))).append (single rfl)

section Runs

variable {σ : Type} {model : Model} {backend : Backend σ}

theorem run_bind {α β : Type} (first : Emission σ α) (next : α → Emission σ β) (state : σ) :
    (first >>= next).run.run state =
      match first.run.run state with
      | (.ok value, last) => (next value).run.run last
      | (.error fault, last) => (.error fault, last) := by
  change ExceptT.bindCont next (first.run.run state).1 (first.run.run state).2 = _
  rcases first.run.run state with ⟨_ | _, last⟩ <;> rfl

theorem run_bind_ok {α β : Type} {first : Emission σ α} {next : α → Emission σ β} {result : β}
    {state last : σ} (ran : (first >>= next).run.run state = (.ok result, last)) :
    ∃ value between, first.run.run state = (.ok value, between) ∧
      (next value).run.run between = (.ok result, last) := by
  rw [run_bind] at ran
  split at ran
  · rename_i value between taken
    exact ⟨value, between, taken, ran⟩
  · cases ran

theorem add_ok {hook : Emission σ Generated} {output after : Output} {state later : σ}
    (taken : (output.add hook).run.run state = (.ok after, later)) :
    ∃ text, hook.run.run state = (.ok text, later) ∧
      after = ⟨output.generated ++ text, output.scopes⟩ := by
  obtain ⟨text, between, ran, taken⟩ := run_bind_ok taken
  cases taken
  exact ⟨text, ran, rfl⟩

/-- A step that can be taken adds to what is written and leaves the namespaces open that it should. -/
theorem step_ok {step : Step} {output after : Output} {state later : σ}
    (taken : (Traversal.step model backend output step).run.run state = (.ok after, later)) :
    turn output.scopes step = some after.scopes ∧
      ∃ more, after.generated = output.generated ++ more := by
  have hook : ∀ {hook : Emission σ Generated}, step.isCall →
      (output.add hook).run.run state = (.ok after, later) →
        turn output.scopes step = some after.scopes ∧
          ∃ more, after.generated = output.generated ++ more := by
    intro hook isCall taken
    obtain ⟨text, _, rfl⟩ := add_ok taken
    exact ⟨turn_call _ isCall, text, rfl⟩
  cases step with
  | openNamespace name =>
    cases taken
    exact ⟨rfl, _, rfl⟩
  | closeNamespace =>
    obtain ⟨generated, scopes⟩ := output
    cases scopes with
    | nil => cases taken
    | cons name rest =>
      cases taken
      exact ⟨rfl, _, rfl⟩
  | prologue | finish | epilogue => exact hook rfl taken
  | enter id | constant id | enumeration id | record id | reference id | leave id =>
    exact hook rfl taken

theorem foldlM_step_ok {steps : List Step} {output after : Output} {state later : σ}
    (taken : (steps.foldlM (step model backend) output).run.run state = (.ok after, later)) :
    steps.foldlM turn output.scopes = some after.scopes ∧
      ∃ more, after.generated = output.generated ++ more := by
  induction steps generalizing output state with
  | nil =>
    cases taken
    exact ⟨rfl, {}, (Generated.append_empty _).symm⟩
  | cons first rest ih =>
    rw [List.foldlM_cons] at taken
    obtain ⟨middle, between, here, taken⟩ := run_bind_ok taken
    obtain ⟨turned, more, same⟩ := step_ok here
    obtain ⟨others, further, grown⟩ := ih taken
    refine ⟨?_, more ++ further, ?_⟩
    · rw [List.foldlM_cons, turned]
      exact others
    · rw [grown, same, Generated.append_assoc]

/-!
## Walks
-/

private theorem foldlM_flatMap {α : Type} (items : List α) (steps : α → List Step) (output : Output) :
    (items.flatMap steps).foldlM (step model backend) output =
      items.foldlM (fun output item => (steps item).foldlM (step model backend) output) output := by
  induction items generalizing output with
  | nil => rfl
  | cons item rest ih => simp only [List.flatMap_cons, List.foldlM_append, List.foldlM_cons, ih]

private theorem foldlM_bracket (name : Option String) (steps : List Step) (output : Output) :
    (bracket name steps).foldlM (step model backend) output =
      output.within name (steps.foldlM (step model backend)) := by
  cases name with
  | none => rfl
  | some name =>
    rw [bracket, List.cons_append, List.foldlM_cons, step, pure_bind, List.foldlM_append,
      Output.within]
    simp only [List.foldlM_cons, List.foldlM_nil, bind_pure, step]

/-- Where steps close what they open, as many namespaces are open after them as before. -/
theorem Balanced.expectDepth {steps : List Step} (balanced : Balanced steps) (output : Output) :
    (do
      let after ← steps.foldlM (step model backend) output
      after.expectDepth output.scopes.length) = steps.foldlM (step model backend) output := by
  funext state
  change ((_ >>= _ : Emission σ Output).run.run state : Except GenerationFault Output × σ) =
    (steps.foldlM (step model backend) output).run.run state
  rw [run_bind]
  split
  · rename_i after last taken
    have kept : after.scopes = output.scopes :=
      Option.some.inj ((foldlM_step_ok taken).1.symm.trans (balanced output.scopes))
    rw [taken, Output.expectDepth, if_pos (congrArg List.length kept)]
    rfl
  · rename_i fault last failed
    exact failed.symm

private theorem referToPackage_eq (fuel : Nat) (output : Output) (id : PackageId) :
    referToPackage model backend fuel output id =
      (referenceSteps model fuel id).foldlM (step model backend) output := by
  induction fuel generalizing output id with
  | zero => rfl
  | succ fuel ih =>
    rw [referToPackage, referenceSteps, foldlM_flatMap]
    congr 1
    funext output member
    obtain ⟨name, member⟩ := member
    cases member with
    | package nested => exact ih output nested
    | record record => exact (bind_pure _).symm
    | enumeration _ | constant _ => rfl

private theorem foldlM_visitConstant (members : List Member) (output : Output) :
    members.foldlM (visitConstant model backend) output =
      (members.filterMap constantStep?).foldlM (step model backend) output := by
  rw [List.foldlM_filterMap]
  congr 1
  funext output member
  cases member <;> rfl

private theorem foldlM_visitEnumeration (members : List Member) (output : Output) :
    members.foldlM (visitEnumeration model backend) output =
      (members.filterMap enumerationStep?).foldlM (step model backend) output := by
  rw [List.foldlM_filterMap]
  congr 1
  funext output member
  cases member <;> rfl

private theorem visitRecord_eq (output : Output) (id : RecordId) :
    visitRecord model backend output id = step model backend output (recordStep model id) := by
  rw [visitRecord, recordStep]
  split <;> rfl

/-- The members of a package are gone through by their steps, if nested packages are. -/
theorem visitPackage_eq {descend : Output → PackageId → Emission σ Output}
    {nested : PackageId → List Step}
    (same : ∀ output id, descend output id = (nested id).foldlM (step model backend) output)
    (id : PackageId) : visitPackage model backend descend id =
      (Step.enter id :: (model.contents (some (.package id))).filterMap constantStep? ++
          (model.contents (some (.package id))).filterMap enumerationStep? ++
        through nested (fun record => [recordStep model record]) (model.contents (some (.package id))) ++
          [Step.leave id]).foldlM (step model backend) := by
  have others : ∀ (members : List Member) (output : Output),
      members.foldlM (visitOther model backend descend) output =
        (through nested (fun record => [recordStep model record]) members).foldlM
          (step model backend) output := by
    intro members output
    rw [through, foldlM_flatMap]
    congr 1
    funext output member
    cases member with
    | package nested => exact same output nested
    | record record => exact (visitRecord_eq output record).trans (bind_pure _).symm
    | enumeration _ | constant _ => rfl
  refine funext fun output => ?_
  simp only [visitPackage, List.cons_append, List.append_assoc, List.foldlM_cons, List.foldlM_append,
    List.foldlM_nil, bind_pure, foldlM_visitConstant, foldlM_visitEnumeration, others]
  rfl

/-- A walk through a package takes the steps of the package: its namespace is closed again, so the count
of those that are open does not stop it. -/
theorem walkPackage_eq (fuel : Nat) (output : Output) (id : PackageId) :
    walkPackage model backend fuel output id =
      (packageSteps model backend.brackets fuel id).foldlM (step model backend) output := by
  induction fuel generalizing output id with
  | zero => rfl
  | succ fuel ih =>
    have balanced := packageSteps_balanced model backend.brackets (fuel + 1) id
    by_cases passed : (model.package id).included || (model.package id).external
    · rw [walkPackage, packageSteps_succ, if_pos passed, if_pos passed]
      exact referToPackage_eq (fuel + 1) output id
    · rw [← balanced.expectDepth output, walkPackage, packageSteps_succ, if_neg passed,
        if_neg passed, foldlM_bracket, visitPackage_eq ih]

private theorem walkModel_eq : walkModel model backend =
    ((model.roots.flatMap fun root : String × PackageId =>
      packageSteps model backend.brackets model.packages.size root.2) ++ [Step.finish]).foldlM
        (step model backend) := by
  refine funext fun output => ?_
  rw [List.foldlM_append, foldlM_flatMap, walkModel]
  simp only [walkPackage_eq, List.foldlM_cons, List.foldlM_nil, bind_pure]
  rfl

/-- A run takes the steps of the traversal. -/
theorem run_eq (model : Model) (backend : Backend σ) (outer : Option String) :
    run model backend outer = (do
      let output ← (steps model backend.brackets outer).foldlM (step model backend) {}
      pure output.generated) := by
  have prologue : Balanced [.prologue] := .of_calls (by simp [Step.isCall])
  have balanced : Balanced (.prologue :: bracket outer _) :=
    prologue.append (.bracket (rootSteps_balanced model backend.brackets))
  rw [steps, List.foldlM_append, ← balanced.expectDepth {}, List.foldlM_cons, run, walkModel_eq]
  simp only [foldlM_bracket, List.foldlM_cons, List.foldlM_nil, bind_pure, bind_assoc]
  rfl

end Runs

end Traversal

end RecordSchema
