import RecordSchema.Backend.Dispatcher
import RecordSchema.Proofs.Traversal.Visits

/-!
# What dispatchers write

A dispatcher takes down the record types that are visited and writes one function at the end. Whatever
an earlier run has left behind, the function is about the types of this run.
-/

set_option autoImplicit false

namespace RecordSchema

open Model

/-- Whether a step is for a package or for something in one, and no namespace. -/
def Step.isInner : Step → Bool
  | .enter _ | .constant _ | .enumeration _ | .record _ | .reference _ | .leave _ => true
  | _ => false

namespace Traversal

private theorem isInner_through {package : PackageId → List Step}
    (packages : ∀ id, ∀ step ∈ package id, step.isInner) {model : Model} (members : List Member) :
    ∀ step ∈ through package (fun record => [recordStep model record]) members, step.isInner := by
  intro step among
  obtain ⟨member, _, among⟩ := List.mem_flatMap.mp among
  cases member with
  | package id => exact packages id step among
  | record id =>
    rw [List.mem_singleton.mp among, recordStep]
    split <;> rfl
  | enumeration _ | constant _ => cases among

private theorem isInner_packageSteps (model : Model) (fuel : Nat) (id : PackageId) :
    ∀ step ∈ packageSteps model false fuel id, step.isInner := by
  induction fuel generalizing id with
  | zero => exact fun _ none => nomatch none
  | succ fuel ih =>
    rw [packageSteps_succ]
    intro step among
    split at among
    · obtain ⟨record, rfl⟩ := mem_referenceSteps among
      rfl
    · simp only [bracket, Bool.false_eq_true, if_false, List.mem_append, List.mem_cons,
        List.mem_filterMap, List.not_mem_nil, or_false] at among
      rcases among with (((rfl | ⟨other, _, found⟩) | ⟨other, _, found⟩) | among) | rfl
      · rfl
      · cases other <;> cases found
        rfl
      · cases other <;> cases found
        rfl
      · exact isInner_through ih _ step among
      · rfl

end Traversal

namespace Dispatcher

open Traversal

/-- The function of a dispatcher with what stands around it. -/
def framed (options : Options) (model : Model) (outer : Option String) (function : Generated) :
    Generated :=
  match outer with
  | none => prologue options model ++ function
  | some name => prologue options model ++ opening name ++ function ++ closing name

section Collecting

variable (name : String) (options : Options) (finish : Model → State → Generated × State)

/-- In packages a dispatcher takes down what it visits, and writes nothing. -/
theorem collect {model : Model} {steps : List Step} (inner : ∀ step ∈ steps, step.isInner)
    (output : Output) (state : State) :
    (steps.foldlM (step model (collecting name options finish)) output).run.run state =
      (.ok output, { state with records := state.records ++ steps.filterMap Step.visited? }) := by
  have quiet : ({ output with generated := output.generated ++ {} } : Output) = output := by
    rw [Generated.append_empty]
  induction steps generalizing state with
  | nil =>
    rw [List.filterMap_nil, List.append_nil]
    rfl
  | cons first rest ih =>
    obtain ⟨here, others⟩ := List.forall_mem_cons.mp inner
    rw [List.foldlM_cons, run_bind]
    have taken : (step model (collecting name options finish) output first).run.run state =
        (.ok { output with generated := output.generated ++ {} },
          { state with records := state.records ++ first.visited?.toList }) := by
      cases first with
      | record id => rfl
      | enter _ | constant _ | enumeration _ | reference _ | leave _ =>
        simp only [Step.visited?, Option.toList_none, List.append_nil]
        rfl
      | _ => cases here
    rw [taken, quiet]
    refine (ih others _).trans ?_
    cases visit : first.visited? with
    | none => simp [visit]
    | some id => simp [visit]

/-- The types that are visited make the function, whatever state the run starts from. -/
theorem run_collecting (model : Model) (outer : Option String) (start : State) :
    (run model (collecting name options finish) outer).run.run start =
      (.ok (framed options model outer
          (finish model { start with records := visited model, warnings := [] }).1),
        (finish model { start with records := visited model, warnings := [] }).2) := by
  have inner : ∀ step ∈ model.roots.flatMap fun root =>
      packageSteps model false model.packages.size root.2, step.isInner := by
    intro step among
    obtain ⟨root, _, among⟩ := List.mem_flatMap.mp among
    exact isInner_packageSteps model _ root.2 step among
  have records : (model.roots.flatMap fun root =>
      packageSteps model false model.packages.size root.2).filterMap Step.visited? =
        visited model := by
    simp only [visited, steps, bracket, List.cons_append, List.filterMap_cons, List.filterMap_append,
      Step.visited?, List.filterMap_nil, List.append_nil]
  have packages : ∀ (output : Output) (state : State),
      ((model.roots.flatMap fun root => packageSteps model false model.packages.size root.2).foldlM
          (step model (collecting name options finish)) output).run.run state =
        (.ok output, { state with records := state.records ++ visited model }) := by
    intro output state
    rw [← records]
    exact collect name options finish inner output state
  have brackets : (collecting name options finish).brackets = false := rfl
  have prologue : (step model (collecting name options finish) {} .prologue).run.run start =
      (.ok ⟨prologue options model, []⟩, { start with records := [], warnings := [] }) := by
    rw [← Generated.empty_append (prologue options model)]
    rfl
  have finished : ∀ (output : Output) (state : State),
      (step model (collecting name options finish) output .finish).run.run state =
        (.ok { output with generated := output.generated ++ (finish model state).1 },
          (finish model state).2) := fun _ _ => rfl
  have epilogue : ∀ (output : Output) (state : State),
      (step model (collecting name options finish) output .epilogue).run.run state =
        (.ok output, state) := by
    intro output state
    have quiet : ({ output with generated := output.generated ++ {} } : Output) = output := by
      rw [Generated.append_empty]
    exact Eq.trans rfl (congrArg (fun output => (Except.ok output, state)) quiet)
  have opened : ∀ (outer : String) (output : Output) (state : State),
      (step model (collecting name options finish) output (.openNamespace outer)).run.run state =
        (.ok ⟨output.generated ++ opening outer, outer :: output.scopes⟩, state) := fun _ _ _ => rfl
  have closed : ∀ (outer : String) (generated : Generated) (state : State),
      (step model (collecting name options finish) ⟨generated, [outer]⟩ .closeNamespace).run.run
        state = (.ok ⟨generated ++ closing outer, []⟩, state) := fun _ _ _ => rfl
  cases outer with
  | none =>
    simp only [run_eq, brackets, steps, bracket, List.cons_append, List.append_assoc, List.foldlM_cons,
      List.foldlM_append, run_bind, prologue, packages, List.nil_append, List.foldlM_nil, finished,
      epilogue]
    rfl
  | some outer =>
    simp only [run_eq, brackets, steps, bracket, List.cons_append, List.append_assoc, List.foldlM_cons,
      List.foldlM_append, run_bind, prologue, packages, List.nil_append, List.foldlM_nil, finished,
      epilogue, opened, closed]
    rfl

end Collecting

end Dispatcher

end RecordSchema
