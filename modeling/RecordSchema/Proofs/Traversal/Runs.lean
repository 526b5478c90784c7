import RecordSchema.Proofs.Traversal.Nesting
import RecordSchema.Proofs.Traversal.Visits

/-!
# What a run writes and what it fails with

Namespaces are closed as they were opened, so what a run fails with is what a hook of the backend has
failed with. Which faults that can be is said hook by hook, and nothing depends on the state. A run that
succeeds writes a part for each of its steps, and generated code is these parts one after the other.
-/

set_option autoImplicit false

namespace RecordSchema

section Hooks

variable {σ α β : Type}

/-- A computation fails with nothing but faults of a kind, whatever the state is. -/
def Emission.FailsOnly (kind : GenerationFault → Prop) (computation : Emission σ α) : Prop :=
  ∀ state fault last, computation.run.run state = (.error fault, last) → kind fault

namespace Emission.FailsOnly

variable {kind : GenerationFault → Prop}

theorem pure (value : α) : FailsOnly kind (pure value : Emission σ α) := by
  intro state fault last failed
  cases failed

theorem throw {fault : GenerationFault} (known : kind fault) :
    FailsOnly kind (throw fault : Emission σ α) := by
  intro state other last failed
  cases failed
  exact known

theorem get : FailsOnly kind (get : Emission σ σ) := by
  intro state fault last failed
  cases failed

theorem set (state : σ) : FailsOnly kind (set state : Emission σ PUnit) := by
  intro state fault last failed
  cases failed

theorem modify (change : σ → σ) : FailsOnly kind (modify change : Emission σ PUnit) := by
  intro state fault last failed
  cases failed

theorem bind {first : Emission σ α} {next : α → Emission σ β} (here : FailsOnly kind first)
    (later : ∀ value, FailsOnly kind (next value)) : FailsOnly kind (first >>= next) := by
  intro state fault last failed
  rw [Traversal.run_bind] at failed
  split at failed
  · rename_i value between _
    exact later value between fault last failed
  · rename_i other between taken
    cases failed
    exact here state fault last taken

end Emission.FailsOnly

/-- What the hooks of a backend fail with, by the step that calls them. -/
structure Backend.FailsOnly (backend : Backend σ) (model : Model)
    (kind : Step → GenerationFault → Prop) : Prop where
  prologue : (backend.prologue model).FailsOnly (kind .prologue)
  enterPackage : ∀ id, (backend.enterPackage model id).FailsOnly (kind (.enter id))
  visitConstant : ∀ id, (backend.visitConstant model id).FailsOnly (kind (.constant id))
  visitEnumeration : ∀ id, (backend.visitEnumeration model id).FailsOnly (kind (.enumeration id))
  visitRecord : ∀ id, (backend.visitRecord model id).FailsOnly (kind (.record id))
  referenceRecord : ∀ id, (backend.referenceRecord model id).FailsOnly (kind (.reference id))
  leavePackage : ∀ id, (backend.leavePackage model id).FailsOnly (kind (.leave id))
  finish : (backend.finish model).FailsOnly (kind .finish)
  epilogue : (backend.epilogue model).FailsOnly (kind .epilogue)

end Hooks

namespace Traversal

variable {σ : Type} {model : Model} {backend : Backend σ} {kind : Step → GenerationFault → Prop}

/-- A step that leaves an open namespace to close fails as its hook does. -/
theorem step_fails (faults : backend.FailsOnly model kind) {output : Output} {step : Step}
    (turns : (turn output.scopes step).isSome) :
    (Traversal.step model backend output step).FailsOnly (kind step) := by
  have hook : ∀ {kind : GenerationFault → Prop} {hook : Emission σ Generated},
      hook.FailsOnly kind → (output.add hook).FailsOnly kind :=
    fun fails => .bind fails fun _ => .pure _
  cases step with
  | openNamespace name => exact .pure _
  | closeNamespace =>
    obtain ⟨generated, scopes⟩ := output
    cases scopes with
    | nil => cases turns
    | cons name rest => exact .pure _
  | prologue => exact hook faults.prologue
  | finish => exact hook faults.finish
  | epilogue => exact hook faults.epilogue
  | enter id => exact hook (faults.enterPackage id)
  | constant id => exact hook (faults.visitConstant id)
  | enumeration id => exact hook (faults.visitEnumeration id)
  | record id => exact hook (faults.visitRecord id)
  | reference id => exact hook (faults.referenceRecord id)
  | leave id => exact hook (faults.leavePackage id)

private theorem foldlM_step_fails (faults : backend.FailsOnly model kind) {steps : List Step}
    {output : Output} {state last : σ} {scopes : List String} {fault : GenerationFault}
    (turns : steps.foldlM turn output.scopes = some scopes)
    (failed : (steps.foldlM (step model backend) output).run.run state = (.error fault, last)) :
    ∃ step ∈ steps, kind step fault := by
  induction steps generalizing output state with
  | nil => cases failed
  | cons first rest ih =>
    rw [List.foldlM_cons] at turns failed
    obtain ⟨between, turned, turns⟩ := Option.bind_eq_some_iff.mp turns
    rw [run_bind] at failed
    split at failed
    · rename_i middle later taken
      have same : between = middle.scopes := Option.some.inj (turned.symm.trans (step_ok taken).1)
      obtain ⟨step, listed, known⟩ := ih (same ▸ turns) failed
      exact ⟨step, List.mem_cons_of_mem _ listed, known⟩
    · rename_i other later taken
      cases failed
      exact ⟨first, List.mem_cons_self, step_fails faults (turned ▸ rfl) _ _ _ taken⟩

/-- A run fails with the fault of a step that it comes to. -/
theorem run_fails (faults : backend.FailsOnly model kind) {outer : Option String} {start last : σ}
    {fault : GenerationFault}
    (failed : (run model backend outer).run.run start = (.error fault, last)) :
    ∃ step ∈ steps model backend.brackets outer, kind step fault := by
  rw [run_eq, run_bind] at failed
  split at failed
  · cases failed
  · rename_i other _ taken
    cases failed
    exact foldlM_step_fails faults (steps_balanced _ _ _ []) taken

end Traversal

/-!
## Words that can be written
-/

namespace Traversal

section Texts

variable {σ : Type} {model : Model} {backend : Backend σ}

/-- The word and the state at its start say what is written. -/
theorem Wrote.unique {start last other : σ} {word : List Event} {text more : Generated}
    (wrote : Wrote model backend start word text last)
    (again : Wrote model backend start word more other) : text = more ∧ last = other := by
  induction wrote generalizing more with
  | nil =>
    cases again
    exact ⟨rfl, rfl⟩
  | called ran _ ih =>
    cases again with
    | called same rest =>
      cases ran.symm.trans same
      obtain ⟨rfl, rfl⟩ := ih rest
      exact ⟨rfl, rfl⟩
  | opened _ ih =>
    cases again with
    | opened rest =>
      obtain ⟨rfl, rfl⟩ := ih rest
      exact ⟨rfl, rfl⟩
  | closed _ ih =>
    cases again with
    | closed rest =>
      obtain ⟨rfl, rfl⟩ := ih rest
      exact ⟨rfl, rfl⟩

theorem Wrote.split {start last : σ} {word later : List Event} {text : Generated}
    (wrote : Wrote model backend start (word ++ later) text last) :
    ∃ front back between, Wrote model backend start word front between ∧
      Wrote model backend between later back last ∧ text = front ++ back := by
  induction word generalizing start text with
  | nil => exact ⟨{}, text, start, .nil start, wrote, (Generated.empty_append text).symm⟩
  | cons event word ih =>
    cases wrote with
    | called ran rest =>
      obtain ⟨front, back, between, first, second, rfl⟩ := ih rest
      exact ⟨_, back, between, .called ran first, second, (Generated.append_assoc ..).symm⟩
    | opened rest =>
      obtain ⟨front, back, between, first, second, rfl⟩ := ih rest
      exact ⟨_, back, between, .opened first, second, (Generated.append_assoc ..).symm⟩
    | closed rest =>
      obtain ⟨front, back, between, first, second, rfl⟩ := ih rest
      exact ⟨_, back, between, .closed first, second, (Generated.append_assoc ..).symm⟩

theorem Wrote.call {start last : σ} {step : Step} {text : Generated}
    (ran : (backend.hook model step).run.run start = (.ok text, last)) :
    Wrote model backend start [.called step] text last :=
  Generated.append_empty text ▸ .called ran (.nil last)

theorem Wrote.close (name : String) (state : σ) :
    Wrote model backend state [.closed name] (closing name) state :=
  Generated.append_empty (closing name) ▸ .closed (.nil state)

/-- Steps write what their word does: a word that can be written leaves no step to fail. -/
theorem Spells.completes {steps : List Step} {word : List Event} (spells : Spells steps word)
    {output : Output} {text : Generated} {state last : σ}
    (wrote : Wrote model backend state word text last) :
    (steps.foldlM (step model backend) output).run.run state =
      (.ok ⟨output.generated ++ text, output.scopes⟩, last) := by
  induction spells generalizing output text state last with
  | nil =>
    cases wrote
    rw [Generated.append_empty]
    rfl
  | call isCall =>
    cases wrote with
    | called ran rest =>
      cases rest
      rw [List.foldlM_cons, step_call output isCall, run_bind, Output.add, run_bind, ran,
        Generated.append_empty]
      rfl
  | append _ _ ih ihLater =>
    obtain ⟨front, back, between, first, second, rfl⟩ := wrote.split
    rw [List.foldlM_append, run_bind, ih first]
    simp only [ihLater second, Generated.append_assoc]
  | @bracketed name steps word _ ih =>
    cases wrote with
    | opened rest =>
      obtain ⟨inner, _, between, first, second, rfl⟩ := rest.split
      cases second with
      | closed none =>
        cases none
        rw [List.cons_append, List.foldlM_cons, run_bind]
        change ((steps ++ [Step.closeNamespace]).foldlM (step model backend)
            ⟨output.generated ++ opening name, name :: output.scopes⟩).run.run state =
          (.ok ⟨output.generated ++ (opening name ++ (inner ++ (closing name ++ {}))), output.scopes⟩, last)
        have whole : output.generated ++ (opening name ++ (inner ++ (closing name ++ {}))) =
            output.generated ++ opening name ++ inner ++ closing name := by
          simp only [Generated.append_assoc, Generated.append_empty]
        rw [List.foldlM_append, run_bind, ih first, whole]
        rfl

end Texts

end Traversal

/-!
## The parts of generated code

The part of a call is what the hook of the backend gives. So whatever two calls have written stands in the
code in the order of the calls.
-/

namespace Traversal

/-- Texts with the steps that they are written by. -/
abbrev Parts := List (Step × Generated)

/-- The texts of parts, one after the other. -/
def Parts.joined (parts : Parts) : Generated :=
  parts.foldr (fun part rest => part.2 ++ rest) {}

/-- Steps with the texts they write: a call writes what its hook gives. -/
structure Parted {σ : Type} (model : Model) (backend : Backend σ) (steps : List Step)
    (parts : Parts) : Prop where
  steps : parts.map Prod.fst = steps
  called : ∀ part ∈ parts, part.1.isCall →
    ∃ state later, (backend.hook model part.1).run.run state = (.ok part.2, later)

section Runs

variable {σ : Type} {model : Model} {backend : Backend σ}

/-- What a step adds, and where it comes from. -/
theorem step_part {step : Step} {output after : Output} {state later : σ}
    (taken : (Traversal.step model backend output step).run.run state = (.ok after, later)) :
    ∃ text, after.generated = output.generated ++ text ∧
      (step.isCall → ∃ state later, (backend.hook model step).run.run state = (.ok text, later)) := by
  by_cases isCall : step.isCall
  · rw [step_call output isCall] at taken
    obtain ⟨text, ran, rfl⟩ := add_ok taken
    exact ⟨text, rfl, fun _ => ⟨state, later, ran⟩⟩
  · obtain ⟨-, more, grown⟩ := step_ok taken
    exact ⟨more, grown, fun impossible => absurd impossible isCall⟩

private theorem foldlM_step_parts {steps : List Step} {output after : Output} {state later : σ}
    (taken : (steps.foldlM (step model backend) output).run.run state = (.ok after, later)) :
    ∃ parts, Parted model backend steps parts ∧
      after.generated = output.generated ++ parts.joined := by
  induction steps generalizing output state with
  | nil =>
    cases taken
    exact ⟨[], ⟨rfl, nofun⟩, (Generated.append_empty _).symm⟩
  | cons first rest ih =>
    rw [List.foldlM_cons] at taken
    obtain ⟨middle, between, here, taken⟩ := run_bind_ok taken
    obtain ⟨text, same, hook⟩ := step_part here
    obtain ⟨parts, parted, grown⟩ := ih taken
    refine ⟨(first, text) :: parts, ⟨by rw [List.map_cons, parted.steps], ?_⟩, ?_⟩
    · exact List.forall_mem_cons.mpr ⟨hook, parted.called⟩
    · rw [grown, same, Generated.append_assoc]
      rfl

/-- A run that succeeds has written its parts. -/
theorem run_parts {outer : Option String} {start last : σ} {generated : Generated}
    (ran : (run model backend outer).run.run start = (.ok generated, last)) :
    ∃ parts, Parted model backend (steps model backend.brackets outer) parts ∧
      generated = parts.joined := by
  rw [run_eq] at ran
  obtain ⟨output, _, taken, ended⟩ := run_bind_ok ran
  obtain ⟨parts, parted, grown⟩ := foldlM_step_parts taken
  refine ⟨parts, parted, ?_⟩
  cases ended
  exact grown.trans (Generated.empty_append _)

/-- A run that succeeds has written what the backend gives for a type that it visits. -/
theorem run_visited {outer : Option String} {start last : σ} {generated : Generated}
    (ran : (run model backend outer).run.run start = (.ok generated, last)) {id : RecordId}
    (visit : id ∈ visited model) :
    ∃ before text after state later, (backend.visitRecord model id).run.run state = (.ok text, later) ∧
      generated = before ++ text ++ after := by
  rw [← filterMap_steps model backend.brackets outer] at visit
  obtain ⟨step, listed, visit⟩ := List.mem_filterMap.mp visit
  have same : step = .record id := by
    cases step <;> cases visit
    rfl
  subst same
  obtain ⟨front, back, split⟩ := List.append_of_mem listed
  obtain ⟨before, text, after, state, later, -, -, called, whole⟩ := run_visit ran split
  exact ⟨before.generated, text, after, state, later, called, whole⟩

end Runs

end Traversal

end RecordSchema
