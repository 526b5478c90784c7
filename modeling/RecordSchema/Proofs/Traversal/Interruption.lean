import RecordSchema.Proofs.Traversal.Runs

/-!
# A run that is interrupted

A call of a backend that fails ends the run. The calls before it are those of the run that would have gone
on, each in the state that it found there. After it nothing is done: no hook is called, no namespace is
opened or closed, and what the run fails with is what the hook has failed with.
-/

set_option autoImplicit false

namespace RecordSchema

open Model

/-- A hook that counts the calls before it, and at one position fails instead of doing its work. It may
have changed its state by then. -/
def Emission.interrupted {σ : Type} (hook : Emission σ Generated) (position : Nat)
    (failure : σ → GenerationFault × σ) : Emission (σ × Nat) Generated :=
  ExceptT.mk do
    let (state, count) ← get
    if count = position then
      let (fault, later) := failure state
      set (later, count + 1)
      pure (.error fault)
    else
      let (result, later) := hook.run.run state
      set (later, count + 1)
      pure result

/-- A backend whose call at a position fails, whichever hook that is. -/
def Backend.interrupted {σ : Type} (backend : Backend σ) (position : Nat)
    (failure : σ → GenerationFault × σ) : Backend (σ × Nat) where
  name := backend.name
  brackets := backend.brackets
  prologue model := (backend.prologue model).interrupted position failure
  enterPackage model id := (backend.enterPackage model id).interrupted position failure
  visitConstant model id := (backend.visitConstant model id).interrupted position failure
  visitEnumeration model id := (backend.visitEnumeration model id).interrupted position failure
  visitRecord model id := (backend.visitRecord model id).interrupted position failure
  referenceRecord model id := (backend.referenceRecord model id).interrupted position failure
  leavePackage model id := (backend.leavePackage model id).interrupted position failure
  finish model := (backend.finish model).interrupted position failure
  epilogue model := (backend.epilogue model).interrupted position failure

private theorem Emission.watched_eq {σ : Type} (hook : Emission σ Generated) (step : Step) (state : σ)
    (before : List Call) : (hook.watched step).run.run (state, before) =
      ((hook.run.run state).1, (hook.run.run state).2,
        before ++ [(step, (hook.run.run state).1.isOk)]) :=
  rfl

private theorem Emission.interrupted_eq {σ : Type} (hook : Emission σ Generated) (position : Nat)
    (failure : σ → GenerationFault × σ) (state : σ) (count : Nat) :
    (hook.interrupted position failure).run.run (state, count) =
      if count = position then (.error (failure state).1, (failure state).2, count + 1)
      else ((hook.run.run state).1, (hook.run.run state).2, count + 1) := by
  change StateT.run (ite (count = position) _ _) _ = _
  split <;> rfl

namespace Traversal

/-- A step that is put down when it is begun, be it a call or a bracket of a namespace. -/
def noted {σ : Type} (model : Model) (backend : Backend σ) (output : Output) (step : Step) :
    Emission (σ × List Step) Output :=
  ExceptT.mk do
    let (state, before) ← get
    let (result, later) := (Traversal.step model backend output step).run.run state
    set (later, before ++ [step])
    pure result

/-- The steps that a run begins, in order. -/
def begun {σ : Type} (model : Model) (backend : Backend σ) (outer : Option String) (start : σ) :
    List Step :=
  (((steps model backend.brackets outer).foldlM (noted model backend) {}).run.run (start, [])).2.2

private theorem noted_eq {σ : Type} (model : Model) (backend : Backend σ) (output : Output) (step : Step)
    (state : σ) (before : List Step) : (noted model backend output step).run.run (state, before) =
      (((Traversal.step model backend output step).run.run state).1,
        ((Traversal.step model backend output step).run.run state).2, before ++ [step]) :=
  rfl

section Hooks

variable {σ : Type} {model : Model} {backend : Backend σ}

private theorem hook_watched {step : Step} (isCall : step.isCall) :
    backend.watched.hook model step = (backend.hook model step).watched step := by
  cases step <;> first | rfl | cases isCall

private theorem hook_interrupted {position : Nat} {failure : σ → GenerationFault × σ} {step : Step}
    (isCall : step.isCall) : (backend.interrupted position failure).hook model step =
      (backend.hook model step).interrupted position failure := by
  cases step <;> first | rfl | cases isCall

/-- What brackets do does not depend on the backend. -/
theorem step_bracket {τ : Type} (other : Backend τ) (elsewhere : τ) {step : Step}
    (bracket : ¬ step.isCall) {output after : Output} {state later : σ}
    (taken : (Traversal.step model backend output step).run.run state = (.ok after, later)) :
    later = state ∧ (Traversal.step model other output step).run.run elsewhere = (.ok after, elsewhere) := by
  cases step with
  | openNamespace name =>
    cases taken
    exact ⟨rfl, rfl⟩
  | closeNamespace =>
    obtain ⟨generated, scopes⟩ := output
    cases scopes with
    | nil => cases taken
    | cons name rest =>
      cases taken
      exact ⟨rfl, rfl⟩
  | _ => exact absurd rfl bracket

end Hooks

/-!
## Backends that keep more than their state
-/

section Tracking

variable {σ τ : Type} {model : Model} {backend : Backend σ}

/-- A backend that does the work of another, and keeps something besides the state, as long as there is
something to go on to. -/
def Tracks (model : Model) (backend : Backend σ) (tracking : Backend (σ × τ))
    (next : τ → Step → Option τ) : Prop :=
  ∀ step : Step, step.isCall → ∀ (state later : σ) (text : Generated) (kept after : τ),
    (backend.hook model step).run.run state = (.ok text, later) → next kept step = some after →
      (tracking.hook model step).run.run (state, kept) = (.ok text, (later, after))

theorem Tracks.foldlM {tracking : Backend (σ × τ)} {next : τ → Step → Option τ}
    (tracks : Tracks model backend tracking next) {steps : List Step} {output after : Output}
    {state last : σ} {kept final : τ}
    (taken : (steps.foldlM (step model backend) output).run.run state = (.ok after, last))
    (reached : (steps.filter Step.isCall).foldlM next kept = some final) :
    (steps.foldlM (step model tracking) output).run.run (state, kept) = (.ok after, (last, final)) := by
  induction steps generalizing output state kept with
  | nil =>
    cases taken
    cases reached
    rfl
  | cons first rest ih =>
    rw [List.foldlM_cons] at taken
    obtain ⟨middle, between, here, onward⟩ := run_bind_ok taken
    rw [List.foldlM_cons, run_bind]
    by_cases isCall : first.isCall
    · rw [List.filter_cons_of_pos isCall, List.foldlM_cons] at reached
      obtain ⟨further, one, reached⟩ := Option.bind_eq_some_iff.mp reached
      rw [step_call output isCall] at here
      obtain ⟨text, ran, rfl⟩ := add_ok here
      rw [step_call output isCall, Output.add, run_bind,
        tracks first isCall state between text kept further ran one]
      exact ih onward reached
    · rw [List.filter_cons_of_neg isCall] at reached
      obtain ⟨rfl, same⟩ := step_bracket tracking (between, kept) isCall here
      rw [same]
      exact ih onward reached

/-- The record of the calls grows. -/
theorem tracks_watched : Tracks model backend backend.watched
    fun before step => some (before ++ [(step, true)]) := by
  intro step isCall state later text before after ran next
  cases next
  rw [hook_watched isCall, Emission.watched_eq, ran]
  rfl

/-- The position is not reached. -/
theorem tracks_interrupted (position : Nat) (failure : σ → GenerationFault × σ) :
    Tracks model backend (backend.interrupted position failure)
      fun count _ => if count = position then none else some (count + 1) := by
  intro step isCall state later text count after ran next
  dsimp only at next
  split at next
  · cases next
  · rename_i early
    cases next
    rw [hook_interrupted isCall, Emission.interrupted_eq, if_neg early, ran]

private theorem foldlM_recorded (made : List Step) (before : List Call) :
    made.foldlM (fun before step => some (before ++ [(step, true)])) before =
      some (before ++ made.map fun step => (step, true)) := by
  induction made generalizing before with
  | nil => rw [List.map_nil, List.append_nil]; rfl
  | cons first rest ih =>
    rw [List.foldlM_cons]
    refine (ih _).trans ?_
    rw [List.append_assoc, List.singleton_append, List.map_cons]

private theorem foldlM_counted {position : Nat} (made : List Step) (count : Nat)
    (early : count + made.length ≤ position) :
    made.foldlM (fun count _ => if count = position then none else some (count + 1)) count =
      some (count + made.length) := by
  induction made generalizing count with
  | nil => rfl
  | cons first rest ih =>
    rw [List.length_cons] at early ⊢
    rw [List.foldlM_cons, if_neg (by omega)]
    refine (ih (count + 1) (by omega)).trans ?_
    rw [Nat.add_right_comm, Nat.add_assoc]

/-- The calls of a run that goes on, in the states they find. -/
theorem wrote_calls {steps : List Step} {output after : Output} {state last : σ}
    (taken : (steps.foldlM (step model backend) output).run.run state = (.ok after, last)) :
    ∃ text, Wrote model backend state ((steps.filter Step.isCall).map .called) text last := by
  induction steps generalizing output state with
  | nil =>
    cases taken
    exact ⟨{}, .nil _⟩
  | cons first rest ih =>
    rw [List.foldlM_cons] at taken
    obtain ⟨middle, between, here, onward⟩ := run_bind_ok taken
    obtain ⟨more, wrote⟩ := ih onward
    by_cases isCall : first.isCall
    · rw [step_call output isCall] at here
      obtain ⟨text, ran, -⟩ := add_ok here
      rw [List.filter_cons_of_pos isCall, List.map_cons]
      exact ⟨text ++ more, .called ran wrote⟩
    · rw [List.filter_cons_of_neg isCall]
      obtain ⟨rfl, -⟩ := step_bracket backend between isCall here
      exact ⟨more, wrote⟩

private theorem foldlM_noted {steps : List Step} {output after : Output} {state last : σ}
    (taken : (steps.foldlM (step model backend) output).run.run state = (.ok after, last))
    (before : List Step) :
    (steps.foldlM (noted model backend) output).run.run (state, before) =
      (.ok after, (last, before ++ steps)) := by
  induction steps generalizing output state before with
  | nil =>
    cases taken
    rw [List.append_nil]
    rfl
  | cons first rest ih =>
    rw [List.foldlM_cons] at taken
    obtain ⟨middle, between, here, onward⟩ := run_bind_ok taken
    rw [List.foldlM_cons, run_bind, noted_eq, here, List.append_cons before first rest]
    exact ih onward _

end Tracking

/-!
## The call that fails
-/

section Fault

variable {σ : Type} {model : Model} {backend : Backend σ}

private theorem foldlM_stops {τ : Type} {run : Output → Step → Emission τ Output} {front back : List Step}
    {hook : Step} {before between : Output} {state reached last : τ} {fault : GenerationFault}
    (taken : (front.foldlM run before).run.run state = (.ok between, reached))
    (failed : (run between hook).run.run reached = (.error fault, last)) :
    ((front ++ hook :: back).foldlM run before).run.run state = (.error fault, last) := by
  rw [List.foldlM_append, run_bind, taken]
  dsimp only
  rw [List.foldlM_cons, run_bind, failed]

private theorem step_fault {hook : Step} (isCall : hook.isCall) {output : Output} {state last : σ}
    {fault : GenerationFault} (failed : (backend.hook model hook).run.run state = (.error fault, last)) :
    (Traversal.step model backend output hook).run.run state = (.error fault, last) := by
  rw [step_call output isCall, Output.add, run_bind, failed]

private theorem hook_fault (model : Model) (backend : Backend σ) {hook : Step} (isCall : hook.isCall)
    (position : Nat) (failure : σ → GenerationFault × σ) (state : σ) :
    ((backend.interrupted position failure).hook model hook).run.run (state, position) =
      (.error (failure state).1, (failure state).2, position + 1) := by
  rw [hook_interrupted isCall, Emission.interrupted_eq, if_pos rfl]

section Run

variable {outer : Option String} {front back : List Step} {hook : Step} {between : Output}
  {start reached last : σ} {fault : GenerationFault} (isCall : hook.isCall)
  (split : steps model backend.brackets outer = front ++ hook :: back)
  (taken : (front.foldlM (step model backend) {}).run.run start = (.ok between, reached))
  (failed : (backend.hook model hook).run.run reached = (.error fault, last))

include isCall split taken failed

private theorem run_fault : (run model backend outer).run.run start = (.error fault, last) := by
  rw [run_eq, run_bind, split, foldlM_stops taken (step_fault isCall failed)]

private theorem calls_fault : calls model backend outer start =
    (front.filter Step.isCall).map (fun step => (step, true)) ++ [(hook, false)] := by
  have apart : steps model backend.watched.brackets outer = front ++ hook :: back := split
  have watched := tracks_watched.foldlM taken (foldlM_recorded (front.filter Step.isCall) [])
  have ends : (backend.watched.hook model hook).run.run
      (reached, [] ++ (front.filter Step.isCall).map fun step => (step, true)) =
        (.error fault, last,
          ([] ++ (front.filter Step.isCall).map fun step => (step, true)) ++ [(hook, false)]) := by
    rw [hook_watched isCall, Emission.watched_eq, failed]
    rfl
  rw [calls, run_fault isCall apart watched ends, List.nil_append]

private theorem begun_fault : begun model backend outer start = front ++ [hook] := by
  have ends := noted_eq model backend between hook reached ([] ++ front)
  rw [step_fault isCall failed] at ends
  rw [begun, split, foldlM_stops (foldlM_noted taken []) ends, List.nil_append]

end Run

end Fault

/-!
## The calls before
-/

/-- A call among steps stands after the calls before it. -/
theorem exists_split {steps : List Step} {position : Nat} {hook : Step}
    (named : (steps.filter Step.isCall)[position]? = some hook) :
    hook.isCall ∧ ∃ front back, steps = front ++ hook :: back ∧
      front.filter Step.isCall = (steps.filter Step.isCall).take position ∧
      (front.filter Step.isCall).length = position := by
  obtain ⟨bound, same⟩ := List.getElem?_eq_some_iff.mp named
  have split := (List.take_append_drop position (steps.filter Step.isCall)).symm
  rw [List.drop_eq_getElem_cons bound, same] at split
  obtain ⟨first, second, parts, earlier, later⟩ := List.filter_eq_append_iff.mp split
  obtain ⟨quiet, back, rfl, brackets, isCall, -⟩ := List.filter_eq_cons_iff.mp later
  have calls : (first ++ quiet).filter Step.isCall = (steps.filter Step.isCall).take position := by
    rw [List.filter_append, earlier, List.filter_eq_nil_iff.mpr brackets, List.append_nil]
  refine ⟨isCall, first ++ quiet, back, ?_, calls, ?_⟩
  · rw [parts, List.append_assoc]
  · rw [calls, List.length_take]
    exact Nat.min_eq_left (Nat.le_of_lt bound)

/-- A run in which all calls succeed comes to each of them by the steps before it. -/
theorem exists_reached {σ : Type} {model : Model} {backend : Backend σ} {outer : Option String} {start : σ}
    (succeed : ∀ call ∈ calls model backend outer start, call.2 = true) {position : Nat} {hook : Step}
    (named : (calls model backend outer start)[position]? = some (hook, true)) :
    hook.isCall ∧ ∃ front back between state,
      steps model backend.brackets outer = front ++ hook :: back ∧
      (calls model backend outer start).take position =
        (front.filter Step.isCall).map (fun step => (step, true)) ∧
      (front.filter Step.isCall).length = position ∧
      (front.foldlM (step model backend) {}).run.run start = (.ok between, state) := by
  obtain ⟨_, last, ran, -, complete⟩ := run_watched model backend outer start
  obtain ⟨⟨generated, rfl⟩, made⟩ := complete succeed
  rw [made, List.getElem?_map] at named
  obtain ⟨step, listed, same⟩ := Option.map_eq_some_iff.mp named
  obtain rfl : step = hook := congrArg Prod.fst same
  obtain ⟨isCall, front, back, split, earlier, count⟩ := exists_split listed
  rw [run_eq] at ran
  obtain ⟨output, later, taken, -⟩ := run_bind_ok ran
  rw [split, List.foldlM_append] at taken
  obtain ⟨between, state, taken, -⟩ := run_bind_ok taken
  refine ⟨isCall, front, back, between, state, split, ?_, count, taken⟩
  rw [made, ← List.map_take, earlier]

/-- Take any run in which all calls succeed, and let the call at a position fail instead, in whatever way.
Then the calls before it are made, in order and as in that run, and it is the last call; the run begins the
steps up to it and none after, and what it gives is the fault of that call. Up to the call the backend that
is interrupted does what the other does. -/
theorem run_interrupted {σ : Type} (model : Model) (backend : Backend σ) (outer : Option String)
    (start : σ) (succeed : ∀ call ∈ calls model backend outer start, call.2 = true)
    {position : Nat} {hook : Step}
    (named : (calls model backend outer start)[position]? = some (hook, true))
    (failure : σ → GenerationFault × σ) :
    ∃ text state front back,
      Wrote model backend start
        (((calls model backend outer start).take position).map fun call => .called call.1) text state ∧
      (run model (backend.interrupted position failure) outer).run.run (start, 0) =
        (.error (failure state).1, (failure state).2, position + 1) ∧
      calls model (backend.interrupted position failure) outer (start, 0) =
        (calls model backend outer start).take position ++ [(hook, false)] ∧
      steps model backend.brackets outer = front ++ hook :: back ∧
      front.filter Step.isCall = ((calls model backend outer start).take position).map Prod.fst ∧
      begun model (backend.interrupted position failure) outer (start, 0) = front ++ [hook] := by
  obtain ⟨isCall, front, back, between, state, split, before, count, taken⟩ :=
    exists_reached succeed named
  obtain ⟨text, wrote⟩ := wrote_calls taken
  have early : 0 + (front.filter Step.isCall).length ≤ position := by omega
  have reached := (tracks_interrupted position failure).foldlM taken (foldlM_counted _ 0 early)
  rw [count, Nat.zero_add] at reached
  have fault := hook_fault model backend isCall position failure state
  have apart : steps model (backend.interrupted position failure).brackets outer =
      front ++ hook :: back := split
  refine ⟨text, state, front, back, ?_, run_fault isCall apart reached fault, ?_, split, ?_,
    begun_fault isCall apart reached fault⟩
  · rw [before, List.map_map]
    exact wrote
  · rw [before]
    exact calls_fault isCall apart reached fault
  · rw [before, List.map_map]
    exact (List.map_id _).symm

theorem run_interrupted_sample : ∃ built, build reopeningUnits = .ok built ∧
    ∃ state, (run built.model (visitCount.interrupted 5 fun count => (.overflow, count)) (some "Pds")).run.run
        (0, 0) = (.error .overflow, state, 6) ∧
      calls built.model (visitCount.interrupted 5 fun count => (.overflow, count)) (some "Pds") (0, 0) =
        [(.prologue, true), (.enter ⟨0⟩, true), (.enter ⟨1⟩, true), (.reference ⟨0⟩, true),
          (.record ⟨1⟩, true), (.leave ⟨1⟩, false)] := by
  have computed : ∃ built, build reopeningUnits = .ok built ∧
      calls built.model visitCount (some "Pds") 0 =
        [Step.prologue, .enter ⟨0⟩, .enter ⟨1⟩, .reference ⟨0⟩, .record ⟨1⟩, .leave ⟨1⟩, .record ⟨2⟩,
          .leave ⟨0⟩, .reference ⟨3⟩, .finish, .epilogue].map fun step => (step, true) :=
    exists_built (by decide +kernel)
  obtain ⟨built, accepted, made⟩ := computed
  have succeed : ∀ call ∈ calls built.model visitCount (some "Pds") 0, call.2 = true := by
    rw [made]
    decide
  have named : (calls built.model visitCount (some "Pds") 0)[5]? = some (.leave ⟨1⟩, true) := by
    rw [made]
    rfl
  obtain ⟨_, state, _, _, -, ran, called, -⟩ :=
    run_interrupted built.model visitCount (some "Pds") 0 succeed named fun count => (.overflow, count)
  refine ⟨built, accepted, state, ran, ?_⟩
  rw [called, made]
  rfl

end Traversal

end RecordSchema
