import RecordSchema.Proofs.Traversal.Walk

/-!
# What a backend is asked to do

A backend that is watched does what it did, and keeps a record of its calls. As long as they succeed a
traversal goes on to its end, since its namespaces are closed as they were opened, and the calls are
the steps of the traversal in order. So a backend visits each type that is emitted once, refers once
to each of the others, and to nothing else.
-/

set_option autoImplicit false

namespace RecordSchema

open Model

/-- A call of a backend, and whether it succeeded. -/
abbrev Call := Step × Bool

/-- A hook that puts down what it was called for and how that went. -/
def Emission.watched {σ : Type} (hook : Emission σ Generated) (step : Step) :
    Emission (σ × List Call) Generated :=
  ExceptT.mk do
    let (state, calls) ← get
    let (result, later) := hook.run.run state
    set (later, calls ++ [(step, result.isOk)])
    pure result

/-- A backend whose calls are recorded. -/
def Backend.watched {σ : Type} (backend : Backend σ) : Backend (σ × List Call) where
  name := backend.name
  brackets := backend.brackets
  prologue model := (backend.prologue model).watched .prologue
  enterPackage model id := (backend.enterPackage model id).watched (.enter id)
  visitConstant model id := (backend.visitConstant model id).watched (.constant id)
  visitEnumeration model id := (backend.visitEnumeration model id).watched (.enumeration id)
  visitRecord model id := (backend.visitRecord model id).watched (.record id)
  referenceRecord model id := (backend.referenceRecord model id).watched (.reference id)
  leavePackage model id := (backend.leavePackage model id).watched (.leave id)
  finish model := (backend.finish model).watched .finish
  epilogue model := (backend.epilogue model).watched .epilogue

namespace Traversal

/-- The calls of a backend in a traversal, in order. -/
def calls {σ : Type} (model : Model) (backend : Backend σ) (outer : Option String) (start : σ) :
    List Call :=
  ((run model backend.watched outer).run.run (start, [])).2.2

/-- What comes of a computation with a backend that is watched: the same as without, and if all calls
succeed, those that are expected and the namespaces that are. -/
def Watches {σ : Type} (watched : Emission (σ × List Call) Output) (plain : Emission σ Output)
    (expected : List Step) (scopes : Option (List String)) : Prop :=
  ∀ (state : σ) (before : List Call), ∃ result last made,
    watched.run.run (state, before) = (result, last, before ++ made) ∧
      plain.run.run state = (result, last) ∧
      ((∀ call ∈ made, call.2 = true) → ∀ still, scopes = some still →
        ∃ after : Output, result = .ok after ∧ after.scopes = still ∧
          made = (expected.filter Step.isCall).map fun step => (step, true))

section Watching

variable {σ : Type} {model : Model} {backend : Backend σ}

private theorem watches_pure (output : Output) {expected : List Step}
    (quiet : expected.filter Step.isCall = []) :
    Watches (σ := σ) (pure output) (pure output) expected (some output.scopes) := by
  intro state before
  refine ⟨.ok output, state, [], ?_, rfl, fun _ still same => ?_⟩
  · rw [List.append_nil]
    rfl
  · cases same
    exact ⟨output, rfl, rfl, by rw [quiet, List.map_nil]⟩

private theorem watches_throw (fault : GenerationFault) (expected : List Step) :
    Watches (σ := σ) (throw fault) (throw fault) expected none := by
  intro state before
  refine ⟨.error fault, state, [], ?_, rfl, fun _ still impossible => nomatch impossible⟩
  rw [List.append_nil]
  rfl

private theorem watches_bind {watched : Emission (σ × List Call) Output} {plain : Emission σ Output}
    {expected further : List Step} {scopes : Option (List String)}
    {next : Output → Emission (σ × List Call) Output} {plainNext : Output → Emission σ Output}
    {later : List String → Option (List String)} (first : Watches watched plain expected scopes)
    (second : ∀ output, Watches (next output) (plainNext output) further (later output.scopes)) :
    Watches (watched >>= next) (plain >>= plainNext) (expected ++ further) (scopes >>= later) := by
  intro state before
  obtain ⟨result, last, made, ran, same, complete⟩ := first state before
  cases result with
  | error fault =>
    refine ⟨.error fault, last, made, ?_, ?_, fun all still reached => ?_⟩
    · rw [run_bind, ran]
    · rw [run_bind, same]
    · obtain ⟨between, found, _⟩ := Option.bind_eq_some_iff.mp reached
      obtain ⟨after, impossible, _⟩ := complete all between found
      cases impossible
  | ok output =>
    obtain ⟨result, final, more, ranNext, sameNext, completeNext⟩ :=
      second output last (before ++ made)
    refine ⟨result, final, made ++ more, ?_, ?_, fun all still reached => ?_⟩
    · rw [run_bind, ran, ← List.append_assoc]
      exact ranNext
    · rw [run_bind, same]
      exact sameNext
    · obtain ⟨between, found, reached⟩ := Option.bind_eq_some_iff.mp reached
      obtain ⟨good, goodNext⟩ := List.forall_mem_append.mp all
      obtain ⟨_, equal, rfl, made⟩ := complete good between found
      cases equal
      obtain ⟨after, equal, same, more⟩ := completeNext goodNext still reached
      exact ⟨after, equal, same, by rw [made, more, List.filter_append, List.map_append]⟩

private theorem watches_add (output : Output) (hook : Emission σ Generated) {step : Step}
    (isCall : step.isCall) :
    Watches (output.add (hook.watched step)) (output.add hook) [step] (some output.scopes) := by
  intro state before
  have seen : (hook.watched step).run.run (state, before) =
      ((hook.run.run state).1, (hook.run.run state).2,
        before ++ [(step, (hook.run.run state).1.isOk)]) := rfl
  rcases ran : hook.run.run state with ⟨fault | text, last⟩ <;> rw [ran] at seen
  · refine ⟨.error fault, last, [(step, false)], ?_, ?_, fun all => ?_⟩
    · rw [Output.add, run_bind, seen]
      rfl
    · rw [Output.add, run_bind, ran]
    · cases all (step, false) (List.mem_singleton_self _)
  · refine ⟨.ok { output with generated := output.generated ++ text }, last, [(step, true)],
      ?_, ?_, fun _ still same => ?_⟩
    · rw [Output.add, run_bind, seen]
      rfl
    · rw [Output.add, run_bind, ran]
      rfl
    · cases same
      exact ⟨_, rfl, rfl, by simp [isCall]⟩

/-- A step of a traversal calls one hook of the backend, or opens or closes a namespace. -/
theorem watches_step (output : Output) (step : Step) :
    Watches (Traversal.step model backend.watched output step)
      (Traversal.step model backend output step) [step] (turn output.scopes step) := by
  cases step with
  | openNamespace name => exact watches_pure ⟨_, name :: output.scopes⟩ rfl
  | closeNamespace =>
    obtain ⟨generated, scopes⟩ := output
    cases scopes with
    | nil => exact watches_throw _ _
    | cons name rest => exact watches_pure ⟨_, rest⟩ rfl
  | prologue | finish | epilogue => exact watches_add output _ rfl
  | enter id | constant id | enumeration id | record id | reference id | leave id =>
    exact watches_add output _ rfl

private theorem watches_steps (steps : List Step) (output : Output) :
    Watches (steps.foldlM (step model backend.watched) output)
      (steps.foldlM (step model backend) output) steps (steps.foldlM turn output.scopes) := by
  induction steps generalizing output with
  | nil => exact watches_pure output rfl
  | cons first rest ih =>
    rw [List.foldlM_cons, List.foldlM_cons, List.foldlM_cons]
    exact watches_bind (watches_step output first) ih

end Watching

/-- Watching changes nothing, and if all calls succeed the traversal goes on to its end and the calls
are the steps that call. -/
theorem run_watched {σ : Type} (model : Model) (backend : Backend σ) (outer : Option String)
    (start : σ) : ∃ result last,
      (run model backend outer).run.run start = (result, last) ∧
        (run model backend.watched outer).run.run (start, []) =
          (result, last, calls model backend outer start) ∧
        ((∀ call ∈ calls model backend outer start, call.2 = true) →
          (∃ generated, result = .ok generated) ∧
            calls model backend outer start =
              ((steps model backend.brackets outer).filter Step.isCall).map
                fun step => (step, true)) := by
  have watches : Watches
      ((steps model backend.brackets outer).foldlM (step model backend.watched) {})
      ((steps model backend.brackets outer).foldlM (step model backend) {})
      (steps model backend.brackets outer) ((steps model backend.brackets outer).foldlM turn []) :=
    watches_steps (steps model backend.brackets outer) {}
  obtain ⟨result, last, made, watched, plain, complete⟩ := watches start []
  have brackets : backend.watched.brackets = backend.brackets := rfl
  rw [List.nil_append] at watched
  have ended : ∃ final, (run model backend outer).run.run start = (final, last) ∧
      (run model backend.watched outer).run.run (start, []) = (final, last, made) ∧
      ∀ output, result = .ok output → final = .ok output.generated := by
    rw [run_eq, run_eq, run_bind, run_bind, brackets, plain, watched]
    cases result with
    | error fault => exact ⟨_, rfl, rfl, nofun⟩
    | ok output =>
      refine ⟨_, rfl, rfl, ?_⟩
      rintro _ ⟨rfl⟩
      rfl
  obtain ⟨final, same, watchedRun, success⟩ := ended
  have equal : calls model backend outer start = made := by rw [calls, watchedRun]
  refine ⟨final, last, same, equal ▸ watchedRun, fun all => ?_⟩
  obtain ⟨output, ok, -, all⟩ := complete (equal ▸ all) [] (steps_balanced _ _ _ [])
  exact ⟨⟨_, success output ok⟩, equal.trans all⟩

/-- If a backend succeeds in all that it is asked to do, it visits each type that is emitted once and
refers once to each other, and does neither with anything else. What counts for it is that a package
is included if and only if no primary unit opens it. -/
theorem build_emission {units : List SourceUnit} {built : Built} (success : build units = .ok built)
    {σ : Type} (backend : Backend σ) (outer : Option String) (start : σ)
    (succeed : ∀ call ∈ calls built.model backend outer start, call.2 = true) :
    (∃ generated last, (run built.model backend outer).run.run start = (.ok generated, last) ∧
        (run built.model backend.watched outer).run.run (start, []) =
          (.ok generated, last, calls built.model backend outer start)) ∧
      (∀ id : RecordId,
        ((calls built.model backend outer start).map (·.1)).count (.record id) =
            (if id.index < built.model.records.size ∧ built.model.isEmitted id then 1 else 0) ∧
          ((calls built.model backend outer start).map (·.1)).count (.reference id) =
            if id.index < built.model.records.size ∧ ¬ built.model.isEmitted id then 1 else 0) ∧
      built.model.Inclusion units ∧
      ∀ id : RecordId, id.index < built.model.records.size →
        (built.model.record id).included = false →
          ∀ package ∈ built.model.enclosing (built.model.record id).package,
            (built.model.package package).included = false := by
  obtain ⟨stages⟩ := build_stages success
  have inclusion := stages.inclusion
  have wellScoped : built.model.WellScoped := stages.sound.toWellScoped
  have primary : ∀ id : RecordId, id.index < built.model.records.size →
      (built.model.record id).included = false →
        ∀ package ∈ built.model.enclosing (built.model.record id).package,
          (built.model.package package).included = false :=
    fun _ inside => inclusion.enclosing wellScoped.closed inside
  obtain ⟨_, last, plain, watched, complete⟩ := run_watched built.model backend outer start
  obtain ⟨⟨generated, rfl⟩, made⟩ := complete succeed
  refine ⟨⟨generated, last, plain, watched⟩, fun id => ?_, inclusion, primary⟩
  have counted : ∀ {step : Step}, step.isCall →
      ((calls built.model backend outer start).map (·.1)).count step =
        (steps built.model backend.brackets outer).count step := by
    intro step isCall
    rw [made, List.map_map]
    exact (congrArg _ (List.map_id _)).trans (List.count_filter isCall)
  rw [counted rfl, counted rfl]
  exact count_steps wellScoped primary backend.brackets outer id

/-- Two units open the packages `Detector` and `Detector.Raw` between them, the first of which is only
read for its declarations, and a third package is external. -/
def reopeningUnits : List SourceUnit :=
  let types (names : List String) : List Declaration.Record :=
    names.map fun name => { name }
  [{ document := { packages := [.mk "Detector.Raw" none [] [] [] [] (types ["Frame"])] },
     included := true },
    { document :=
        { packages :=
            [.mk "Detector" none [] [] []
                [.mk "Raw" none [] [] [] [] (types ["Pixel"])] (types ["Config"]),
              .mk "Clock" none ["external"] [] [] [] (types ["Time"])] } }]

/-- A backend that counts its visits. -/
def visitCount : Backend Nat where
  name := "count"
  visitRecord _ _ := do
    modify (· + 1)
    pure {}

theorem build_emission_sample : ∃ built, build reopeningUnits = .ok built ∧
    (∀ call ∈ calls built.model visitCount none 0, call.2 = true) ∧
    (built.model.records.toList.map (·.name)) = ["Frame", "Pixel", "Config", "Time"] ∧
    ((calls built.model visitCount none 0).map (·.1)).count (.reference ⟨0⟩) = 1 ∧
    ((calls built.model visitCount none 0).map (·.1)).count (.record ⟨1⟩) = 1 ∧
    ((calls built.model visitCount none 0).map (·.1)).count (.record ⟨2⟩) = 1 ∧
    ((calls built.model visitCount none 0).map (·.1)).count (.reference ⟨3⟩) = 1 := by
  have computed : ∃ built, build reopeningUnits = .ok built ∧
      (∀ call ∈ calls built.model visitCount none 0, call.2 = true) ∧
      (built.model.records.toList.map (·.name)) = ["Frame", "Pixel", "Config", "Time"] ∧
      built.model.records.size = 4 ∧
      [0, 1, 2, 3].map (fun index => built.model.isEmitted ⟨index⟩) = [false, true, true, false] :=
    exists_built (by decide +kernel)
  obtain ⟨built, accepted, succeed, names, size, emitted⟩ := computed
  obtain ⟨_, counts, _, _⟩ := build_emission accepted visitCount none 0 succeed
  simp only [List.map_cons, List.map_nil, List.cons.injEq, and_true] at emitted
  obtain ⟨frame, pixel, config, time⟩ := emitted
  refine ⟨built, accepted, succeed, names, ?_, ?_, ?_, ?_⟩
  · simp [(counts ⟨0⟩).2, size, frame]
  · simp [(counts ⟨1⟩).1, size, pixel]
  · simp [(counts ⟨2⟩).1, size, config]
  · simp [(counts ⟨3⟩).2, size, time]

end Traversal

end RecordSchema
