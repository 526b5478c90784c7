import RecordSchema.CommandLine.Execution
import RecordSchema.Proofs.CommandLine.FileLaws

/-!
# What the generation of code leaves in files

Before it writes, the generation of code leaves files alone. The declarations are written before the
directory of the definitions is made, so if that or the second write fails the declarations are new and the
definitions are not.
-/

set_option autoImplicit false

namespace RecordSchema.CommandLine

section Parts

variable {σ : Type} {view : FileView σ}

namespace Execution

private theorem say_quiet (line : String) : view.Quiet (say line : Execution (StateM σ) Unit) :=
  .change _

private theorem sayIf_quiet (verbose : Bool) (line : String) :
    view.Quiet (sayIf verbose line : Execution (StateM σ) Unit) := by
  unfold sayIf
  split
  · exact say_quiet line
  · exact .pure _

theorem onDisk_quiet {α : Type} (context : String) {operation : StateM σ (Except DiskError α)}
    (harmless : view.Harmless operation) :
    view.Quiet (onDisk context operation : Execution (StateM σ) α) := by
  refine .bind (.lift harmless) fun answer => ?_
  split
  · exact .pure _
  · exact .throw _

private theorem effect_sayIf (verbose : Bool) (line told : String) (disk : σ) :
    effect (sayIf verbose line : Execution (StateM σ) Unit) told disk =
      ((.ok (), if verbose then told ++ line ++ "\n" else told), disk) := by
  cases verbose <;> rfl

private theorem effect_onDisk {α : Type} (context : String) (operation : StateM σ (Except DiskError α))
    (told : String) (disk : σ) :
    effect (onDisk context operation : Execution (StateM σ) α) told disk =
      match operation.run disk with
      | (.ok value, left) => ((.ok value, told), left)
      | (.error error, left) => ((.error (.error context [error.message]), told), left) := by
  rw [onDisk, effect_bind, effect_lift]
  rcases operation.run disk with ⟨error | value, left⟩ <;> rfl

variable [MonadDisk (StateM σ)] (lawful : view.Lawful)

include lawful

private theorem loadFile_quiet (directories : List String) (loader : Loader) (path : String) :
    view.Quiet (loadFile directories loader path : Execution (StateM σ) Loader) := by
  refine .bind (.lift (Loading.load_quiet lawful directories path loader)) fun ⟨result, loader⟩ => ?_
  dsimp only
  split
  · exact .pure _
  · exact .throw _

private theorem loadFiles_quiet (inputs : Inputs) :
    view.Quiet (loadFiles inputs : Execution (StateM σ) Loader) :=
  .bind (sayIf_quiet _ _) fun _ => .bind (.forM fun _ => sayIf_quiet _ _) fun _ =>
    .bind (.foldlM (loadFile_quiet lawful _) _) fun _ => .bind (sayIf_quiet _ _) fun _ =>
      .bind (.forM fun _ => sayIf_quiet _ _) fun _ => .pure _

private theorem loadModel_quiet (inputs : Inputs) :
    view.Quiet (loadModel inputs : Execution (StateM σ) Model) := by
  refine .bind (loadFiles_quiet lawful inputs) fun loader => ?_
  split
  · exact .throw _
  · exact .bind (say_quiet _) fun _ => .throw _
  · exact .bind (sayIf_quiet _ _) fun _ => .pure _

private theorem makeDirectoryOf_quiet (path : String) :
    view.Quiet (makeDirectoryOf path : Execution (StateM σ) Unit) := by
  unfold makeDirectoryOf
  split
  · exact .pure _
  · split
    · exact .pure _
    · exact onDisk_quiet _ (MonadDisk.ensureNested_harmless lawful _)

end Execution

end Parts

namespace GenerateCommand

/-!
## The steps of the generation of code
-/

section Steps

variable {m : Type → Type} [Monad m] [MonadDisk m]

/-- The model that code is generated of, or that is shown. -/
def load (settings : GenerateCommand) : Execution m Model := do
  settings.summary.forM (Execution.sayIf settings.verbose)
  Execution.loadModel settings.toInputs

/-- The code that is generated, if the report is not shown in its place. -/
def prepare (settings : GenerateCommand) : Execution m (Option Generated) := do
  let model ← settings.load
  if settings.showReport then
    Execution.say (Report.ofModel model).toYamlText
    pure none
  else
    Execution.sayIf settings.verbose
      s!"\n[*] Starting code generation for {backendTitle settings.generator}..."
    let generated ← settings.generate model
    pure (some generated)

def declare (settings : GenerateCommand) : Execution m (Option Generated) := do
  match ← settings.prepare with
  | none => pure none
  | some generated =>
    settings.writeResult settings.declaration generated.declaration
    pure (some generated)

def finish (settings : GenerateCommand) : Option Generated → Execution m Unit
  | none => pure ()
  | some generated => do
    settings.writeResult settings.definition generated.definition
    Execution.say "[✓] Code generation complete"

theorem run_eq [LawfulMonad m] (settings : GenerateCommand) :
    (settings.run : Execution m Unit) = settings.declare >>= settings.finish := by
  unfold run declare prepare load
  simp only [bind_assoc]
  refine bind_congr fun _ => bind_congr fun model => ?_
  split
  · simp only [bind_assoc, pure_bind, finish]
    exact (bind_pure_unit ..).symm
  · simp only [bind_assoc, pure_bind, finish]

end Steps

/-!
## The files
-/

section Files

variable {σ : Type} [MonadDisk (StateM σ)]

/-- Code that the backend makes of the model that is loaded. -/
def Emits (settings : GenerateCommand) (told : String) (before : σ) (generated : Generated) : Prop :=
  ∃ model, (effect (settings.load : Execution (StateM σ) Model) told before).1.1 = .ok model ∧
    (settings.generator.run model settings.options).result = .ok generated

/-- How the generation of code ends, and what has become of the files. -/
inductive Leaves (view : FileView σ) (settings : GenerateCommand) (told : String) (before : σ) :
    Except Failure Unit → σ → Prop where
  /-- It fails with the first of the two files, or earlier. -/
  | untouched {failure : Failure} {after : σ} :
      (effect settings.declare told before).1.1 = .error failure → view.Unchanged before after →
      Leaves view settings told before (.error failure) after
  | shown {after : σ} : settings.showReport = true → view.Unchanged before after →
      Leaves view settings told before (.ok ()) after
  /-- It fails with the second of the two files. -/
  | declared {generated : Generated} {place : view.Place} {failure : Failure} {after : σ} :
      (effect settings.declare told before).1.1 = .ok (some generated) →
      settings.showReport = false → settings.Emits told before generated →
      view.Wrote settings.declaration generated.declaration place before after →
      Leaves view settings told before (.error failure) after
  | complete {generated : Generated} {first second : view.Place} {after : σ} :
      settings.showReport = false → settings.Emits told before generated →
      view.target after settings.declaration = some first →
      view.target after settings.definition = some second →
      view.held after second = some generated.definition.toUTF8 →
      (first ≠ second → view.held after first = some generated.declaration.toUTF8) →
      (∀ other, other ≠ first → other ≠ second → view.held after other = view.held before other) →
      Leaves view settings told before (.ok ()) after

variable {settings : GenerateCommand}

private theorem prepare_result (told : String) (before : σ) :
    match (effect (settings.prepare : Execution (StateM σ) (Option Generated)) told before).1.1 with
    | .error _ => True
    | .ok none => settings.showReport = true
    | .ok (some generated) => settings.showReport = false ∧ settings.Emits told before generated := by
  rw [prepare, effect_bind]
  rcases loaded : effect settings.load told before with ⟨⟨failure | model, heard⟩, left⟩
  · trivial
  · dsimp only
    cases shows : settings.showReport with
    | true =>
      rw [if_pos rfl]
      rfl
    | false =>
      rw [if_neg Bool.false_ne_true, effect_bind, Execution.effect_sayIf]
      dsimp only
      rw [generate]
      cases emitted : (settings.generator.run model settings.options).result with
      | ok generated => exact ⟨rfl, model, by rw [loaded], emitted⟩
      | error failure => cases failure <;> trivial

variable {view : FileView σ} (lawful : view.Lawful)

include lawful

private theorem prepare_quiet :
    view.Quiet (settings.prepare : Execution (StateM σ) (Option Generated)) := by
  refine .bind (.bind (.forM fun _ => Execution.sayIf_quiet _ _) fun _ =>
    Execution.loadModel_quiet lawful _) fun model => ?_
  split
  · exact .bind (Execution.say_quiet _) fun _ => .pure _
  · refine .bind (Execution.sayIf_quiet _ _) fun _ => .bind ?_ fun _ => .pure _
    unfold generate
    split
    · exact .pure _
    · exact .throw _
    · exact .throw _

private theorem writeResult_files (path text told : String) (before : σ) :
    match effect (settings.writeResult path text : Execution (StateM σ) Unit) told before with
    | ((.error _, _), after) => view.Unchanged before after
    | ((.ok (), _), after) => ∃ place, view.Wrote path text place before after := by
  have made := Execution.makeDirectoryOf_quiet lawful path told before
  rw [writeResult, effect_bind]
  rcases opened : effect (Execution.makeDirectoryOf path : Execution (StateM σ) Unit) told before with
    ⟨⟨failure | _, heard⟩, left⟩
  · rw [opened] at made
    exact made
  · rw [opened] at made
    dsimp only
    rw [effect_bind, Execution.writeFile, Execution.effect_onDisk]
    rcases writes : (MonadDisk.writeText path text : StateM σ (Except DiskError Unit)).run left with
      ⟨error | _, last⟩
    · exact made.trans (lawful.unwritten _ _ _ _ _ writes)
    · obtain ⟨place, wrote⟩ := lawful.written _ _ _ _ writes
      dsimp only
      rw [Execution.effect_sayIf]
      exact ⟨place, wrote.after_unchanged made⟩

private theorem declare_files (told : String) (before : σ) :
    match effect (settings.declare : Execution (StateM σ) (Option Generated)) told before with
    | ((.error _, _), after) => view.Unchanged before after
    | ((.ok none, _), after) => settings.showReport = true ∧ view.Unchanged before after
    | ((.ok (some generated), _), after) => settings.showReport = false ∧
        settings.Emits told before generated ∧
        ∃ place, view.Wrote settings.declaration generated.declaration place before after := by
  have quiet : view.Unchanged before (effect settings.prepare told before).2 :=
    prepare_quiet lawful told before
  have prepared := @prepare_result σ _ settings told before
  rw [declare, effect_bind]
  rcases done : effect settings.prepare told before with ⟨⟨failure | _ | generated, heard⟩, left⟩ <;>
    rw [done] at quiet prepared
  · exact quiet
  · exact ⟨prepared, quiet⟩
  · have written := @writeResult_files σ _ settings view lawful settings.declaration
      generated.declaration heard left
    dsimp only
    rw [effect_bind]
    rcases wrote : effect (settings.writeResult settings.declaration generated.declaration) heard left
      with ⟨⟨failure | _, heard⟩, last⟩ <;> rw [wrote] at written
    · exact quiet.trans written
    · obtain ⟨place, wrote⟩ := written
      exact ⟨prepared.1, prepared.2, place, wrote.after_unchanged quiet⟩

/-- The generation of code leaves two files that belong together when it succeeds, and none is changed by
the display of the report. When it fails no file is changed, unless it is the second file that it fails
with: then the first one has been written, and it is the only one that is changed. -/
theorem run_files (settings : GenerateCommand) (told : String) (before : σ) :
    Leaves view settings told before
      (effect (settings.run : Execution (StateM σ) Unit) told before).1.1
      (effect (settings.run : Execution (StateM σ) Unit) told before).2 := by
  have declares := @declare_files σ _ settings view lawful told before
  rw [run_eq, effect_bind]
  rcases declared : effect settings.declare told before with ⟨⟨failure | _ | generated, heard⟩, left⟩ <;>
    rw [declared] at declares
  · exact .untouched (by rw [declared]) declares
  · exact .shown declares.1 declares.2
  · obtain ⟨hidden, emits, first, wrote⟩ := declares
    have finishes := @writeResult_files σ _ settings view lawful settings.definition
      generated.definition heard left
    dsimp only
    rw [finish, effect_bind]
    rcases written : effect (settings.writeResult settings.definition generated.definition) heard left
      with ⟨⟨failure | _, heard⟩, last⟩ <;> rw [written] at finishes
    · exact .declared (by rw [declared]) hidden emits (wrote.then_unchanged finishes)
    · obtain ⟨second, rewrote⟩ := finishes
      exact .complete hidden emits (rewrote.leading _ _ wrote.target) rewrote.target rewrote.written
        (fun apart => (rewrote.others _ apart).trans wrote.written)
        fun other apart apart' => (rewrote.others other apart').trans (wrote.others other apart)

end Files

def sampleTree : FileTree :=
  ({ working := ["work"] } : FileTree).withFile ["work", "sample.yaml"]
    "packages:\n  - name: Sample\n    types:\n      - name: Data\n".toUTF8

def sampleCommand (definition : String) : GenerateCommand where
  files := ["sample.yaml"]
  directories := []
  verbose := false
  generator := .accessors
  declaration := "out/Sample.h"
  definition := definition
  includePrefix := none
  outerNamespace := none
  interfaceNamespace := none
  nativeNamespace := none
  ignored := []
  showReport := false

/-- The definitions cannot be written below a file, and the declarations have been written by then. -/
theorem sampleCommand_blocked :
    (effect (sampleCommand "sample.yaml/Sample.cpp").run "" sampleTree).1.1.toOption = none ∧
      FileTree.fileView.fileAt sampleTree "out/Sample.h" = none ∧
      (FileTree.fileView.fileAt (effect (sampleCommand "sample.yaml/Sample.cpp").run "" sampleTree).2
        "out/Sample.h").isSome := by
  decide +kernel

/-- One run that succeeds, and one whose second file cannot be written. -/
theorem run_files_sample : FileTree.fileView.Lawful ∧
    (∃ after, Leaves FileTree.fileView (sampleCommand "out/Sample.cpp") "" sampleTree (.ok ()) after) ∧
    ∃ failure after, Leaves FileTree.fileView (sampleCommand "sample.yaml/Sample.cpp") "" sampleTree
      (.error failure) after ∧ (FileTree.fileView.fileAt after "out/Sample.h").isSome := by
  have lawful := FileTree.fileView_lawful
  have succeeds : (effect (sampleCommand "out/Sample.cpp").run "" sampleTree).1.1.toOption = some () := by
    decide +kernel
  have one := run_files lawful (sampleCommand "out/Sample.cpp") "" sampleTree
  have other := run_files lawful (sampleCommand "sample.yaml/Sample.cpp") "" sampleTree
  rw [Outcome.toOption_eq_some.mp succeeds] at one
  obtain ⟨none, -, written⟩ := sampleCommand_blocked
  revert other
  cases failed : (effect (sampleCommand "sample.yaml/Sample.cpp").run "" sampleTree).1.1 with
  | error failure => exact fun other => ⟨lawful, ⟨_, one⟩, failure, _, other, written⟩
  | ok =>
    rw [failed] at none
    cases none

/-- Both files are as before if the generation of code fails, and hold what the backend has made if it
succeeds; the display of the report changes no file. -/
structure Consistent {σ : Type} [MonadDisk (StateM σ)] (view : FileView σ) (settings : GenerateCommand)
    (told : String) (before : σ) : Prop where
  failed : ∀ failure, (effect settings.run told before).1.1 = .error failure →
    ∀ path ∈ [settings.declaration, settings.definition],
      view.fileAt (effect settings.run told before).2 path = view.fileAt before path
  shown : settings.showReport = true →
    ∀ place, view.held (effect settings.run told before).2 place = view.held before place
  succeeded : (effect settings.run told before).1.1 = .ok () → settings.showReport = false →
    ∃ generated, settings.Emits told before generated ∧
      view.fileAt (effect settings.run told before).2 settings.declaration =
        some generated.declaration.toUTF8 ∧
      view.fileAt (effect settings.run told before).2 settings.definition =
        some generated.definition.toUTF8

/-- The first file stays written when the second one cannot be, and a file that is both holds the
definitions. -/
theorem run_not_consistent :
    ¬ Consistent FileTree.fileView (sampleCommand "sample.yaml/Sample.cpp") "" sampleTree ∧
    ¬ Consistent FileTree.fileView (sampleCommand "out/Sample.h") "" sampleTree := by
  constructor
  · rintro ⟨failed, -, -⟩
    obtain ⟨none, unwritten, written⟩ := sampleCommand_blocked
    cases result : (effect (sampleCommand "sample.yaml/Sample.cpp").run "" sampleTree).1.1 with
    | error failure =>
      have same := failed failure result "out/Sample.h" List.mem_cons_self
      rw [same, unwritten] at written
      cases written
    | ok =>
      rw [result] at none
      cases none
  · rintro ⟨-, -, succeeded⟩
    have succeeds : (effect (sampleCommand "out/Sample.h").run "" sampleTree).1.1.toOption = some () := by
      decide +kernel
    obtain ⟨generated, ⟨model, loaded, emitted⟩, first, second⟩ :=
      succeeded (Outcome.toOption_eq_some.mp succeeds) rfl
    have different : ((effect (sampleCommand "out/Sample.h").load "" sampleTree).1.1.toOption.all
        fun model => ((sampleCommand "out/Sample.h").generator.run model
          (sampleCommand "out/Sample.h").options).result.toOption.all fun generated =>
            decide (generated.declaration ≠ generated.definition)) = true := by
      decide +kernel
    rw [loaded] at different
    simp only [Except.toOption, Option.all_some, emitted] at different
    have same : generated.declaration.toUTF8 = generated.definition.toUTF8 :=
      Option.some.inj (first.symm.trans second)
    exact of_decide_eq_true different (String.toByteArray_inj.mp same)

end GenerateCommand

end RecordSchema.CommandLine
