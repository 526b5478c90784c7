import Mathlib.Data.List.Nodup
import RecordSchema.Disk.FileTree
import RecordSchema.Loader
import RecordSchema.Proofs.Model.Linkage
import RecordSchema.Proofs.Outcome
import RecordSchema.Proofs.Text

/-!
# What loading does

On a disk that does not change, what loading does can be told as a relation between the loader before
and the loader after. Nothing in it bounds how deeply imports may be nested: each of them leads to a file
that is not loaded yet, of which there are ever fewer, so loading comes to an end within its bound.
-/

set_option autoImplicit false

/-!
## Disks that do not change

What is read from a disk while nothing is written to it: every path has one answer. There are finitely
many files, and a file is read alike by all paths that lead to it. A file tree is such a disk.
-/

namespace RecordSchema

open Outcome

/-- The answers of a disk that does not change. -/
structure DiskView where
  canonicalize : String → Except DiskError String
  readText : String → Except DiskError String
  /-- The one paths of the files. -/
  files : List String
  mem_files : ∀ {path place text}, canonicalize path = .ok place → readText path = .ok text →
    place ∈ files
  /-- What is read by a path depends on where it leads alone. -/
  readText_congr : ∀ {path other place}, canonicalize path = .ok place →
    canonicalize other = .ok place → readText path = readText other

/-- In this state a disk answers as a view does, and reading does not change it. -/
structure Steady {σ : Type} [MonadDisk (StateM σ)] (disk : σ) (view : DiskView) : Prop where
  canonicalize : ∀ path, (MonadDisk.canonicalize path : StateM σ (Except DiskError String)).run disk =
    (view.canonicalize path, disk)
  readText : ∀ path, (MonadDisk.readText path : StateM σ (Except DiskError String)).run disk =
    (view.readText path, disk)
  fileBound : ∃ bound, (MonadDisk.fileBound : StateM σ Nat).run disk = (bound, disk) ∧
    view.files.length ≤ bound

/-!
## File trees
-/

private theorem Path.not_mem_segments {path segment : String}
    (listed : segment ∈ (Path.parts path).segments) :
    '/' ∉ segment.toList := by
  have piece : segment ∈ (Text.splitOnChar '/' path.toList).map String.ofList := by
    rw [parts] at listed
    split at listed
    · rename_i pieces
      exact pieces ▸ List.mem_cons_of_mem _ listed
    · exact listed
  obtain ⟨characters, among, rfl⟩ := List.mem_map.mp piece
  rw [String.toList_ofList]
  exact Text.not_mem_of_mem_splitOnChar among

namespace FileTree

/-- Names that can stand in a path. -/
def Proper (location : Location) : Prop :=
  ∀ name ∈ location, name ≠ "" ∧ '/' ∉ name.toList

instance (location : Location) : Decidable (Proper location) :=
  inferInstanceAs (Decidable (∀ name ∈ location, name ≠ "" ∧ '/' ∉ name.toList))

/-- The names of a location stand in its path. -/
theorem map_toList_eq {location : Location} (proper : Proper location) :
    location.map String.toList =
      if ("/".intercalate location).toList = [] then []
      else ("/".intercalate location).toList.splitOn '/' := by
  cases location with
  | nil => rfl
  | cons name rest =>
    have read : ("/".intercalate (name :: rest)).toList.splitOn '/' = (name :: rest).map String.toList :=
      Text.splitOn_intercalate rfl (List.cons_ne_nil _ _) fun piece among => (proper piece among).2
    have present : ("/".intercalate (name :: rest)).toList ≠ [] := by
      intro none
      rw [none] at read
      have empty : [] = name.toList := (List.cons.inj read).1
      exact (proper name List.mem_cons_self).1 (String.toList_eq_nil_iff.mp empty.symm)
    exact ((if_neg present).trans read).symm

private theorem pathOf_injective {location other : Location} (proper : Proper location)
    (otherProper : Proper other) (same : pathOf location = pathOf other) : location = other := by
  have paths : "/".intercalate location = "/".intercalate other :=
    (String.append_right_inj "/").mp same
  refine (List.map_inj_right fun _ _ => String.toList_injective).mp ?_
  rw [map_toList_eq proper, map_toList_eq otherProper, paths]

theorem Proper.follow {tree : FileTree} {location after : Location} {segment : String}
    (proper : Proper location) (plain : '/' ∉ segment.toList)
    (followed : tree.follow location segment = .ok after) : Proper after := by
  unfold FileTree.follow at followed
  split at followed
  · cases followed
  · cases followed
  · split at followed
    · cases followed
      exact proper
    · rename_i named
      split at followed
      · cases followed
        exact fun name listed => proper name (List.dropLast_subset _ listed)
      · split at followed
        · cases followed
        · cases followed
          intro name listed
          rcases List.mem_append.mp listed with listed | listed
          · exact proper name listed
          · cases List.mem_singleton.mp listed
            refine ⟨?_, plain⟩
            rintro rfl
            exact named rfl

private theorem find_proper {tree : FileTree} (working : Proper tree.working) {path : String}
    {location : Location} {entry : DiskEntry} (found : tree.find path = .ok (location, entry)) :
    Proper location ∧ tree.entry? location = some entry := by
  obtain ⟨place, located, found⟩ := bind_ok found
  have proper : Proper place := by
    unfold locate at located
    split at located
    · cases located
    · split at located
      · cases located
      · split at located
        · cases located
        · refine foldlM_preserves located Proper ?_ fun segment listed _ _ proper followed =>
            proper.follow (Path.not_mem_segments listed) followed
          split
          · exact fun _ listed => absurd listed List.not_mem_nil
          · exact working
  split at found
  · rename_i known
    cases found
    exact ⟨proper, known⟩
  · cases found

private theorem find_of_canonicalize {tree : FileTree} {path place : String}
    (known : tree.canonicalize path = .ok place) :
    ∃ location entry, tree.find path = .ok (location, entry) ∧ place = pathOf location := by
  obtain ⟨⟨location, entry⟩, found, rfl⟩ := map_ok known
  exact ⟨location, entry, found, rfl⟩

private theorem mem_entries_of_readText {tree : FileTree} (working : Proper tree.working)
    {path place text : String} (known : tree.canonicalize path = .ok place)
    (read : tree.readText path = .ok text) : place ∈ tree.entries.map fun entry => pathOf entry.1 := by
  obtain ⟨location, entry, found, rfl⟩ := find_of_canonicalize known
  obtain ⟨_, held⟩ := find_proper working found
  rw [readText, found] at read
  unfold entry? at held
  split at held
  · cases held
    cases read
  · obtain ⟨before, after, split, _⟩ := List.lookup_eq_some_iff.mp held
    exact List.mem_map.mpr ⟨(location, entry), by simp [split], rfl⟩

theorem readText_congr {tree : FileTree} (working : Proper tree.working) {path other place : String}
    (known : tree.canonicalize path = .ok place) (same : tree.canonicalize other = .ok place) :
    tree.readText path = tree.readText other := by
  obtain ⟨location, entry, found, rfl⟩ := find_of_canonicalize known
  obtain ⟨location', entry', found', paths⟩ := find_of_canonicalize same
  obtain ⟨proper, held⟩ := find_proper working found
  obtain ⟨proper', held'⟩ := find_proper working found'
  obtain rfl := pathOf_injective proper proper' paths
  obtain rfl : entry = entry' := Option.some.inj (held.symm.trans held')
  rw [readText, readText, found, found']

/-- A file tree as it is read. -/
def view (tree : FileTree) (working : Proper tree.working) : DiskView where
  canonicalize := tree.canonicalize
  readText := tree.readText
  files := tree.entries.map fun entry => pathOf entry.1
  mem_files := mem_entries_of_readText working
  readText_congr := readText_congr working

theorem steady (tree : FileTree) (working : Proper tree.working) :
    Steady tree (tree.view working) where
  canonicalize _ := rfl
  readText _ := rfl
  fileBound := ⟨tree.entries.length, rfl, Nat.le_of_eq (List.length_map _)⟩

end FileTree

end RecordSchema

/-!
## Runs
-/

namespace RecordSchema

/-- The document that a path leads to. -/
def DiskView.document (view : DiskView) (path : String) : Except LoadError Declaration.Document :=
  match view.readText path with
  | .error error => .error (.unreadable path error)
  | .ok text =>
    match Declaration.Document.ofYamlText? text with
    | none => .error (.malformed path)
    | some document => .ok document

/-- Where an import of a document leads. -/
def DiskView.importPlace? (view : DiskView) (directories : List String) (base file : String) :
    Option String :=
  (Loading.candidates directories base file).findSome? fun candidate =>
    (view.canonicalize candidate).toOption

namespace Loading

/-- What is to be loaded: a document with its imports, or imports of a document. -/
inductive Task where
  | document (path : String) (included : Bool)
  | imports (base : String) (files : List String)

/-- How a task goes, with the loader before and the loader after it. -/
inductive Runs (view : DiskView) (directories : List String) :
    Task → Loader → Except LoadError Unit → Loader → Prop where
  | lost {path : String} {included : Bool} {loader : Loader} {error : DiskError} :
      view.canonicalize path = .error error →
      Runs view directories (.document path included) loader (.error (.unreadable path error)) loader
  | known {path : String} {included : Bool} {loader : Loader} {place : String} {index : Nat} :
      view.canonicalize path = .ok place → loader.loaded.lookup place = some index →
      Runs view directories (.document path included) loader (.ok ())
        (if included then loader else loader.markPrimary index)
  | unread {path : String} {included : Bool} {loader : Loader} {place : String}
      {error : LoadError} :
      view.canonicalize path = .ok place → loader.loaded.lookup place = none →
      view.document path = .error error →
      Runs view directories (.document path included) loader (.error error) loader
  | read {path : String} {included : Bool} {loader after : Loader} {place : String}
      {document : Declaration.Document} {result : Except LoadError Unit} :
      view.canonicalize path = .ok place → loader.loaded.lookup place = none →
      view.document path = .ok document →
      Runs view directories (.imports path (document.imports.map (·.file)))
        (loader.register place { document, included, path }) result after →
      Runs view directories (.document path included) loader result after
  | done {base : String} {loader : Loader} :
      Runs view directories (.imports base []) loader (.ok ()) loader
  | missing {base file : String} {rest : List String} {loader : Loader} :
      view.importPlace? directories base file = none →
      Runs view directories (.imports base (file :: rest)) loader
        (.error (.importNotFound file base)) loader
  | failed {base file found : String} {rest : List String} {loader after : Loader}
      {error : LoadError} :
      view.importPlace? directories base file = some found →
      Runs view directories (.document found true) loader (.error error) after →
      Runs view directories (.imports base (file :: rest)) loader (.error error) after
  | next {base file found : String} {rest : List String} {loader between after : Loader}
      {result : Except LoadError Unit} :
      view.importPlace? directories base file = some found →
      Runs view directories (.document found true) loader (.ok ()) between →
      Runs view directories (.imports base rest) between result after →
      Runs view directories (.imports base (file :: rest)) loader result after

/-- What a loader has recorded: each document once, under its one path, in the order of the units. -/
structure Recorded (view : DiskView) (loader : Loader) : Prop where
  places : (loader.loaded.map (·.1)).Nodup
  indices : loader.loaded.map (·.2) = (List.range loader.units.size).reverse
  units : ∀ place index, (place, index) ∈ loader.loaded → ∃ unit,
    loader.units[index]? = some unit ∧ view.canonicalize unit.path = .ok place ∧
      view.document unit.path = .ok unit.document

section Recorded

variable {view : DiskView} {directories : List String}

private theorem DiskView.mem_files_of_document {path place : String} {document : Declaration.Document}
    (known : view.canonicalize path = .ok place) (read : view.document path = .ok document) :
    place ∈ view.files := by
  unfold DiskView.document at read
  split at read
  · cases read
  · rename_i text found
    exact view.mem_files known found

/-- What stands under a path is the same for every path that leads there. -/
theorem document_congr {path other place : String} (known : view.canonicalize path = .ok place)
    (same : view.canonicalize other = .ok place) {document : Declaration.Document} :
    view.document path = .ok document ↔ view.document other = .ok document := by
  unfold DiskView.document
  rw [view.readText_congr known same]
  cases view.readText other with
  | error error => simp
  | ok text => cases parsed : Declaration.Document.ofYamlText? text <;> simp [parsed]

theorem Recorded.empty : Recorded view {} where
  places := List.nodup_nil
  indices := rfl
  units _ _ listed := absurd listed List.not_mem_nil

namespace Recorded

variable {loader : Loader} (recorded : Recorded view loader)

include recorded

theorem length_le : loader.loaded.length ≤ view.files.length := by
  rw [← List.length_map (·.1)]
  refine recorded.places.length_le_of_subset fun place listed => ?_
  obtain ⟨⟨_, index⟩, among, rfl⟩ := List.mem_map.mp listed
  obtain ⟨unit, _, known, read⟩ := recorded.units _ index among
  exact DiskView.mem_files_of_document known read

theorem index_lt {place : String} {index : Nat} (listed : (place, index) ∈ loader.loaded) :
    index < loader.units.size := by
  obtain ⟨unit, found, _⟩ := recorded.units place index listed
  exact (Array.getElem?_eq_some_iff.mp found).1

theorem index_unique {place : String} {index other : Nat} (listed : (place, index) ∈ loader.loaded)
    (same : (place, other) ∈ loader.loaded) : index = other :=
  congrArg Prod.snd (List.inj_on_of_nodup_map recorded.places listed same rfl)

theorem place_unique {place other : String} {index : Nat} (listed : (place, index) ∈ loader.loaded)
    (same : (other, index) ∈ loader.loaded) : place = other := by
  have distinct : (loader.loaded.map (·.2)).Nodup := by
    rw [recorded.indices]
    exact List.nodup_reverse.mpr List.nodup_range
  exact congrArg Prod.fst (List.inj_on_of_nodup_map distinct listed same rfl)

/-- Every unit is recorded under the one path of its document. -/
theorem listed {index : Nat} {unit : LoadedUnit} (found : loader.units[index]? = some unit) :
    ∃ place, (place, index) ∈ loader.loaded ∧ view.canonicalize unit.path = .ok place := by
  have inside : index ∈ loader.loaded.map (·.2) := by
    rw [recorded.indices, List.mem_reverse, List.mem_range]
    exact (Array.getElem?_eq_some_iff.mp found).1
  obtain ⟨⟨place, _⟩, among, rfl⟩ := List.mem_map.mp inside
  obtain ⟨same, held, known, _⟩ := recorded.units place _ among
  obtain rfl := Option.some.inj (found.symm.trans held)
  exact ⟨place, among, known⟩

theorem markPrimary (index : Nat) : Recorded view (loader.markPrimary index) where
  places := recorded.places
  indices := by
    rw [Loader.markPrimary, Array.size_modify]
    exact recorded.indices
  units place position listed := by
    obtain ⟨unit, found, known, read⟩ := recorded.units place position listed
    rw [Loader.markPrimary, Array.getElem?_modify, found]
    split
    · exact ⟨_, rfl, known, read⟩
    · exact ⟨unit, rfl, known, read⟩

theorem register {place path : String} {included : Bool} {document : Declaration.Document}
    (known : view.canonicalize path = .ok place) (fresh : loader.loaded.lookup place = none)
    (read : view.document path = .ok document) :
    Recorded view (loader.register place { document, included, path }) where
  places := by
    refine List.nodup_cons.mpr ⟨fun listed => ?_, recorded.places⟩
    obtain ⟨⟨_, index⟩, among, rfl⟩ := List.mem_map.mp listed
    simpa using List.lookup_eq_none_iff.mp fresh _ among
  indices := by
    rw [Loader.register, Array.size_push, List.range_succ, List.reverse_append, List.map_cons,
      recorded.indices]
    rfl
  units other index listed := by
    rcases List.mem_cons.mp listed with same | before
    · cases same
      exact ⟨_, Array.getElem?_push_size, known, read⟩
    · obtain ⟨unit, found, rest⟩ := recorded.units other index before
      have inside : index < loader.units.size := (Array.getElem?_eq_some_iff.mp found).1
      rw [Loader.register, Array.getElem?_push, if_neg (Nat.ne_of_lt inside)]
      exact ⟨unit, found, rest⟩

end Recorded

theorem Runs.recorded {task : Task} {loader after : Loader} {result : Except LoadError Unit}
    (runs : Runs view directories task loader result after) (recorded : Recorded view loader) :
    Recorded view after := by
  induction runs with
  | lost | unread | done | missing => exact recorded
  | known =>
    split
    · exact recorded
    · exact recorded.markPrimary _
  | read known fresh read _ ih => exact ih (recorded.register known fresh read)
  | failed _ _ ih => exact ih recorded
  | next _ _ _ ih ihRest => exact ihRest (ih recorded)

/-- What is loaded stays loaded. -/
theorem Runs.loaded_suffix {task : Task} {loader after : Loader} {result : Except LoadError Unit}
    (runs : Runs view directories task loader result after) : loader.loaded <:+ after.loaded := by
  induction runs with
  | lost | unread | done | missing => exact List.suffix_refl _
  | known => split <;> exact List.suffix_refl _
  | read _ _ _ _ ih => exact (List.suffix_cons _ _).trans ih
  | failed _ _ ih => exact ih
  | next _ _ _ ih ihRest => exact ih.trans ihRest

end Recorded

section Execution

variable {σ : Type}

/-- What comes of an action with a loader and a disk. -/
def outcome {α : Type} (action : Loading (StateM σ) α) (loader : Loader) (disk : σ) :
    (Except LoadError α × Loader) × σ :=
  (action.run.run loader).run disk

theorem outcome_bind {α β : Type} (action : Loading (StateM σ) α) (next : α → Loading (StateM σ) β)
    (loader : Loader) (disk : σ) :
    outcome (action >>= next) loader disk =
      match outcome action loader disk with
      | ((.ok value, later), left) => outcome (next value) later left
      | ((.error error, later), left) => ((.error error, later), left) := by
  change (ExceptT.bindCont next (outcome action loader disk).1.1
    (outcome action loader disk).1.2) (outcome action loader disk).2 = _
  rcases outcome action loader disk with ⟨⟨_ | _, later⟩, left⟩ <;> rfl

private theorem outcome_get (loader : Loader) (disk : σ) :
    outcome (get : Loading (StateM σ) Loader) loader disk = ((.ok loader, loader), disk) :=
  rfl

theorem outcome_lift {α : Type} (operation : StateM σ α) (loader : Loader) (disk : σ) :
    outcome (liftM operation : Loading (StateM σ) α) loader disk =
      ((.ok (operation.run disk).1, loader), (operation.run disk).2) :=
  rfl

private theorem outcome_onDisk {α : Type} {disk : σ} (path : String)
    {operation : StateM σ (Except DiskError α)} {answer : Except DiskError α} (answered : operation.run disk = (answer, disk))
    (loader : Loader) :
    outcome (onDisk path operation) loader disk =
      ((answer.mapError (.unreadable path), loader), disk) := by
  rw [onDisk, outcome_bind, outcome_lift, answered]
  cases answer <;> rfl

variable [MonadDisk (StateM σ)] {view : DiskView} {disk : σ} {directories : List String}

private theorem firstPlace?_run (steady : Steady disk view) (candidates : List String) :
    (firstPlace? candidates : StateM σ (Option String)).run disk =
      (candidates.findSome? fun candidate => (view.canonicalize candidate).toOption, disk) := by
  induction candidates with
  | nil => rfl
  | cons candidate rest ih =>
    rw [firstPlace?, StateT.run_bind, steady.canonicalize, List.findSome?_cons]
    cases view.canonicalize candidate with
    | ok place => rfl
    | error _ => exact ih

private theorem outcome_importPlace (steady : Steady disk view) (base file : String) (loader : Loader) :
    outcome (importPlace directories base file) loader disk =
      ((match view.importPlace? directories base file with
        | some place => .ok place
        | none => .error (.importNotFound file base), loader), disk) := by
  rw [importPlace, outcome_bind, outcome_lift, firstPlace?_run steady, ← DiskView.importPlace?]
  cases view.importPlace? directories base file <;> rfl

/-- One level of loading. -/
theorem outcome_loadNested (steady : Steady disk view) (depth : Nat) (path : String) (included : Bool)
    (loader : Loader) :
    outcome (loadNested directories (depth + 1) path included) loader disk =
      match view.canonicalize path with
      | .error error => ((.error (.unreadable path error), loader), disk)
      | .ok place =>
        match loader.loaded.lookup place with
        | some index => ((.ok (), if included then loader else loader.markPrimary index), disk)
        | none =>
          match view.document path with
          | .error error => ((.error error, loader), disk)
          | .ok document =>
            outcome (document.imports.forM fun imported => do
                loadNested directories depth (← importPlace directories path imported.file) true)
              (loader.register place { document, included, path }) disk := by
  rw [loadNested, outcome_bind, outcome_onDisk path (steady.canonicalize path)]
  cases view.canonicalize path with
  | error error => rfl
  | ok place =>
    simp only [Except.mapError]
    rw [outcome_bind, outcome_get]
    dsimp only
    cases loader.loaded.lookup place with
    | some index => cases included <;> rfl
    | none =>
      dsimp only
      rw [outcome_bind, outcome_onDisk path (steady.readText path), DiskView.document]
      cases view.readText path with
      | error error => rfl
      | ok text =>
        simp only [Except.mapError]
        cases Declaration.Document.ofYamlText? text <;> rfl

/-- Imports come to an end if every load at this depth does. -/
theorem exists_runs_imports (steady : Steady disk view) {depth : Nat} {path : String}
    (each : ∀ (path : String) (loader : Loader), Recorded view loader →
      view.files.length < depth + loader.loaded.length →
      ∃ result after, outcome (loadNested directories depth path true) loader disk =
          ((result, after), disk) ∧ Runs view directories (.document path true) loader result after)
    (imports : List Declaration.Import) {loader : Loader} (recorded : Recorded view loader)
    (enough : view.files.length < depth + loader.loaded.length) :
    ∃ result after,
      outcome (imports.forM fun imported => do
          loadNested directories depth (← importPlace directories path imported.file) true)
        loader disk = ((result, after), disk) ∧
      Runs view directories (.imports path (imports.map (·.file))) loader result after := by
  induction imports generalizing loader with
  | nil => exact ⟨_, _, rfl, .done⟩
  | cons imported rest ih =>
    have step : ∀ (load : Declaration.Import → Loading (StateM σ) Unit),
        (imported :: rest).forM load = load imported >>= fun _ => rest.forM load := fun _ => rfl
    rw [step, outcome_bind, outcome_bind, outcome_importPlace steady]
    cases found : view.importPlace? directories path imported.file with
    | none => exact ⟨_, _, rfl, .missing found⟩
    | some place =>
      obtain ⟨result, between, went, runs⟩ := each place loader recorded enough
      dsimp only
      rw [went]
      cases result with
      | error error => exact ⟨_, _, rfl, .failed found runs⟩
      | ok _ =>
        have grown := runs.loaded_suffix.length_le
        obtain ⟨result, after, went, later⟩ := ih (runs.recorded recorded) (by omega)
        exact ⟨result, after, went, .next found runs later⟩

/-- With more depth than there are files left to load, loading comes to an end. -/
theorem exists_runs (steady : Steady disk view) {depth : Nat} {path : String} {included : Bool}
    {loader : Loader} (recorded : Recorded view loader)
    (enough : view.files.length < depth + loader.loaded.length) :
    ∃ result after, outcome (loadNested directories depth path included) loader disk =
        ((result, after), disk) ∧
      Runs view directories (.document path included) loader result after := by
  induction depth generalizing path included loader with
  | zero =>
    have few := recorded.length_le
    omega
  | succ depth ih =>
    rw [outcome_loadNested steady]
    cases known : view.canonicalize path with
    | error error => exact ⟨_, _, rfl, .lost known⟩
    | ok place =>
      dsimp only
      cases held : loader.loaded.lookup place with
      | some index => exact ⟨_, _, rfl, .known known held⟩
      | none =>
        dsimp only
        cases read : view.document path with
        | error error => exact ⟨_, _, rfl, .unread known held read⟩
        | ok document =>
          obtain ⟨result, after, went, runs⟩ := exists_runs_imports steady
            (fun _ _ recorded enough => ih recorded enough) document.imports
            (recorded.register known held read)
            (by rw [Loader.register, List.length_cons]; omega)
          exact ⟨result, after, went, .read known held read runs⟩

end Execution

end Loading

end RecordSchema
