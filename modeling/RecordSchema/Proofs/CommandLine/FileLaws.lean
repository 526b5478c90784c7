import RecordSchema.Disk.Directories
import RecordSchema.Disk.FileTree
import RecordSchema.Loader
import RecordSchema.Proofs.Outcome

/-!
# What changes files

Files are changed by writes that succeed, and by nothing else that a disk is asked for. Directories that
are made may open new paths; paths that lead to a file go on leading there.
-/

set_option autoImplicit false

namespace RecordSchema

/-- How the files of a disk are seen: what each holds, and the place of the file that a path leads to,
whether there is one yet or not. -/
structure FileView (σ : Type) where
  Place : Type
  held : σ → Place → Option ByteArray
  target : σ → String → Option Place

namespace FileView

variable {σ : Type} (view : FileView σ)

/-- What is in the file that a path leads to. -/
def fileAt (disk : σ) (path : String) : Option ByteArray :=
  (view.target disk path).bind (view.held disk)

/-- Paths go on leading where they led. -/
def Leading (before after : σ) : Prop :=
  ∀ path place, view.target before path = some place → view.target after path = some place

/-- No file is changed. -/
structure Unchanged (before after : σ) : Prop where
  held : ∀ place, view.held after place = view.held before place
  leading : view.Leading before after

/-- The file that a path leads to holds a text; no other is changed. -/
structure Wrote (path text : String) (place : view.Place) (before after : σ) : Prop where
  target : view.target after path = some place
  written : view.held after place = some text.toUTF8
  others : ∀ other, other ≠ place → view.held after other = view.held before other
  leading : view.Leading before after

/-- What the operations of a disk do to its files. A write that fails leaves its file as it was. -/
structure Lawful [MonadDisk (StateM σ)] : Prop where
  canonicalize : ∀ path disk, view.Unchanged disk
    ((MonadDisk.canonicalize path : StateM σ (Except DiskError String)).run disk).2
  readText : ∀ path disk, view.Unchanged disk
    ((MonadDisk.readText path : StateM σ (Except DiskError String)).run disk).2
  makeDirectory : ∀ path disk, view.Unchanged disk
    ((MonadDisk.makeDirectory path : StateM σ (Except DiskError Unit)).run disk).2
  isDirectory : ∀ path disk, view.Unchanged disk
    ((MonadDisk.isDirectory path : StateM σ Bool).run disk).2
  fileBound : ∀ disk, view.Unchanged disk ((MonadDisk.fileBound : StateM σ Nat).run disk).2
  unwritten : ∀ path text disk error after,
    (MonadDisk.writeText path text : StateM σ (Except DiskError Unit)).run disk =
      (.error error, after) → view.Unchanged disk after
  written : ∀ path text disk after,
    (MonadDisk.writeText path text : StateM σ (Except DiskError Unit)).run disk = (.ok (), after) →
      ∃ place, view.Wrote path text place disk after

variable {view} {first before after last : σ} {path text : String} {place : view.Place}

theorem Leading.trans (one : view.Leading first before) (other : view.Leading before after) :
    view.Leading first after :=
  fun path place leads => other path place (one path place leads)

theorem Unchanged.refl (disk : σ) : view.Unchanged disk disk where
  held _ := rfl
  leading _ _ leads := leads

theorem Unchanged.trans (one : view.Unchanged first before) (other : view.Unchanged before after) :
    view.Unchanged first after where
  held place := (other.held place).trans (one.held place)
  leading := one.leading.trans other.leading

theorem Wrote.after_unchanged (unchanged : view.Unchanged first before)
    (wrote : view.Wrote path text place before after) : view.Wrote path text place first after where
  target := wrote.target
  written := wrote.written
  others other different := (wrote.others other different).trans (unchanged.held other)
  leading := unchanged.leading.trans wrote.leading

theorem Wrote.then_unchanged (wrote : view.Wrote path text place first before)
    (unchanged : view.Unchanged before after) : view.Wrote path text place first after where
  target := unchanged.leading _ _ wrote.target
  written := (unchanged.held place).trans wrote.written
  others other different := (unchanged.held other).trans (wrote.others other different)
  leading := wrote.leading.trans unchanged.leading

end FileView

/-!
## Actions that change no file
-/

section Quiet

variable {ε τ σ α β : Type}

/-- What comes of an action: its result and its state, and the disk. -/
def effect (action : ExceptT ε (StateT τ (StateM σ)) α) (state : τ) (disk : σ) :
    (Except ε α × τ) × σ :=
  (action.run.run state).run disk

theorem effect_bind (action : ExceptT ε (StateT τ (StateM σ)) α)
    (next : α → ExceptT ε (StateT τ (StateM σ)) β) (state : τ) (disk : σ) :
    effect (action >>= next) state disk =
      match effect action state disk with
      | ((.ok value, later), left) => effect (next value) later left
      | ((.error error, later), left) => ((.error error, later), left) := by
  change (ExceptT.bindCont next (effect action state disk).1.1 (effect action state disk).1.2)
    (effect action state disk).2 = _
  rcases effect action state disk with ⟨⟨_ | _, later⟩, left⟩ <;> rfl

theorem effect_lift (operation : StateM σ α) (state : τ) (disk : σ) :
    effect (liftM operation : ExceptT ε (StateT τ (StateM σ)) α) state disk =
      ((.ok (operation.run disk).1, state), (operation.run disk).2) :=
  rfl

namespace FileView

variable (view : FileView σ)

/-- Whatever comes of an operation, no file is changed. -/
def Harmless (operation : StateM σ α) : Prop :=
  ∀ disk, view.Unchanged disk (operation.run disk).2

/-- Whatever comes of an action, no file is changed. -/
def Quiet (action : ExceptT ε (StateT τ (StateM σ)) α) : Prop :=
  ∀ state disk, view.Unchanged disk (effect action state disk).2

variable {view}

theorem Harmless.pure (value : α) : view.Harmless (Pure.pure value : StateM σ α) :=
  fun _ => .refl _

theorem Harmless.bind {operation : StateM σ α} {next : α → StateM σ β}
    (first : view.Harmless operation) (later : ∀ value, view.Harmless (next value)) :
    view.Harmless (operation >>= next) :=
  fun disk => (first disk).trans (later _ _)

namespace Quiet

theorem pure (value : α) : view.Quiet (Pure.pure value : ExceptT ε (StateT τ (StateM σ)) α) :=
  fun _ _ => .refl _

theorem throw (error : ε) :
    view.Quiet (MonadExcept.throw error : ExceptT ε (StateT τ (StateM σ)) α) :=
  fun _ _ => .refl _

theorem get : view.Quiet (MonadState.get : ExceptT ε (StateT τ (StateM σ)) τ) :=
  fun _ _ => .refl _

theorem change (change : τ → τ) :
    view.Quiet (modify change : ExceptT ε (StateT τ (StateM σ)) PUnit) :=
  fun _ _ => .refl _

theorem lift {operation : StateM σ α} (harmless : view.Harmless operation) :
    view.Quiet (liftM operation : ExceptT ε (StateT τ (StateM σ)) α) :=
  fun _ disk => harmless disk

theorem bind {action : ExceptT ε (StateT τ (StateM σ)) α}
    {next : α → ExceptT ε (StateT τ (StateM σ)) β} (first : view.Quiet action)
    (later : ∀ value, view.Quiet (next value)) : view.Quiet (action >>= next) := by
  intro state disk
  have begun := first state disk
  rw [effect_bind]
  revert begun
  rcases effect action state disk with ⟨⟨error | value, between⟩, left⟩
  · exact id
  · intro begun
    exact begun.trans (later value between left)

theorem forM {items : List α} {each : α → ExceptT ε (StateT τ (StateM σ)) PUnit}
    (quiet : ∀ item, view.Quiet (each item)) : view.Quiet (items.forM each) := by
  induction items with
  | nil => exact .pure _
  | cons first rest ih => exact .bind (quiet first) fun _ => ih

theorem foldlM {items : List α} {step : β → α → ExceptT ε (StateT τ (StateM σ)) β}
    (quiet : ∀ state item, view.Quiet (step state item)) (start : β) :
    view.Quiet (items.foldlM step start) := by
  induction items generalizing start with
  | nil => exact .pure _
  | cons first rest ih =>
    rw [List.foldlM_cons]
    exact .bind (quiet start first) ih

end Quiet

end FileView

end Quiet

/-!
## Directories and documents
-/

section Lawful

variable {σ : Type} [MonadDisk (StateM σ)] {view : FileView σ} (lawful : view.Lawful)

include lawful

namespace MonadDisk

private theorem ensureDirectory_harmless (path : String) :
    view.Harmless (ensureDirectory path : StateM σ (Except DiskError Unit)) := by
  refine .bind (lawful.makeDirectory path) fun made => ?_
  split
  · refine .bind (lawful.isDirectory path) fun there => ?_
    split <;> exact .pure _
  · exact .pure _

theorem ensureNested_harmless (paths : List String) :
    view.Harmless (ensureNested paths : StateM σ (Except DiskError Unit)) := by
  induction paths with
  | nil => exact .pure _
  | cons path outer ih =>
    refine .bind (ensureDirectory_harmless lawful path) fun made => ?_
    split
    · refine .bind ih fun made => ?_
      split
      · exact ensureDirectory_harmless lawful path
      · exact .pure _
    · exact .pure _

end MonadDisk

namespace Loading

omit [MonadDisk (StateM σ)] lawful in
theorem onDisk_quiet {α : Type} (path : String) {operation : StateM σ (Except DiskError α)}
    (harmless : view.Harmless operation) :
    view.Quiet (onDisk path operation : Loading (StateM σ) α) := by
  refine .bind (.lift harmless) fun answer => ?_
  split
  · exact .pure _
  · exact .throw _

private theorem firstPlace?_harmless (candidates : List String) :
    view.Harmless (firstPlace? candidates : StateM σ (Option String)) := by
  induction candidates with
  | nil => exact .pure _
  | cons candidate rest ih =>
    refine .bind (lawful.canonicalize candidate) fun answer => ?_
    split
    · exact .pure _
    · exact ih

private theorem importPlace_quiet (directories : List String) (base file : String) :
    view.Quiet (importPlace directories base file : Loading (StateM σ) String) := by
  refine .bind (.lift (firstPlace?_harmless lawful _)) fun found => ?_
  split
  · exact .pure _
  · exact .throw _

private theorem loadNested_quiet (directories : List String) (depth : Nat) (path : String)
    (included : Bool) :
    view.Quiet (loadNested directories depth path included : Loading (StateM σ) Unit) := by
  induction depth generalizing path included with
  | zero => exact .throw _
  | succ depth ih =>
    refine .bind (onDisk_quiet path (lawful.canonicalize path)) fun place =>
      .bind .get fun loader => ?_
    split
    · split
      · exact .change _
      · exact .pure _
    · refine .bind (onDisk_quiet path (lawful.readText path)) fun text => ?_
      split
      · exact .throw _
      · refine .bind (.change _) fun _ => .forM fun imported => ?_
        exact .bind (importPlace_quiet lawful directories path imported.file) fun found =>
          ih found true

theorem load_quiet (directories : List String) (path : String) :
    view.Quiet (load directories path : Loading (StateM σ) Unit) :=
  .bind (.lift lawful.fileBound) fun _ => loadNested_quiet lawful directories _ path _

end Loading

end Lawful

/-!
## File trees
-/

namespace FileTree

private theorem lookup_map_replace (entries : List (Location × DiskEntry)) (location other : Location)
    (entry : DiskEntry) :
    (entries.map fun old => if old.1 = location then (location, entry) else old).lookup other =
      if other = location then (entries.lookup other).map fun _ => entry
      else entries.lookup other := by
  induction entries with
  | nil => simp
  | cons first rest ih =>
    obtain ⟨name, held⟩ := first
    rw [List.map_cons, List.lookup_cons]
    by_cases here : name = location
    · subst here
      by_cases same : other = name
      · simp [same]
      · have apart : (other == name) = false := beq_eq_false_iff_ne.mpr same
        simp [List.lookup_cons, same, apart, ih]
    · rw [if_neg here, List.lookup_cons, ih]
      by_cases same : other = name
      · subst same
        simp [here]
      · have apart : (other == name) = false := beq_eq_false_iff_ne.mpr same
        simp [apart]

private theorem entry?_put (tree : FileTree) (location : Location) (entry : DiskEntry) (other : Location) :
    FileTree.entry? (tree.put location entry) other =
      if other = location ∧ location ≠ [] then some entry else tree.entry? other := by
  have looked : (tree.put location entry).entries.lookup other =
      if other = location then some entry else tree.entries.lookup other := by
    unfold put
    split
    · rename_i known
      rw [lookup_map_replace]
      split
      · rename_i same
        obtain ⟨held, found⟩ := Option.isSome_iff_exists.mp known
        rw [same, found]
        rfl
      · rfl
    · rename_i unknown
      rw [List.lookup_append, List.lookup_cons, List.lookup_nil]
      by_cases same : other = location
      · rw [same, Option.not_isSome_iff_eq_none.mp unknown]
        simp
      · have apart : (other == location) = false := beq_eq_false_iff_ne.mpr same
        simp [same, apart]
  rw [ entry?, entry?, looked]
  by_cases same : other = location
  · subst same
    cases other <;> simp
  · simp [same]

def content? : Option DiskEntry → Option ByteArray
  | some (.file content) => some content
  | _ => none

private theorem content?_put_of_ne {tree : FileTree} {location other : Location} (entry : DiskEntry)
    (different : other ≠ location) :
    content? (FileTree.entry? (tree.put location entry) other) = content? (tree.entry? other) := by
  rw [entry?_put, if_neg fun here => different here.1]

private theorem content?_put_directory {tree : FileTree} {location : Location}
    (free : tree.entry? location = none) (other : Location) :
    content? (FileTree.entry? (tree.put location .directory) other) = content? (tree.entry? other) := by
  rw [entry?_put]
  split
  · rename_i here
    rw [here.1, free]
    rfl
  · rfl

/-- The files of a tree are at their locations. -/
def fileView : FileView FileTree where
  Place := Location
  held tree location := content? (tree.entry? location)
  target tree path := (tree.locate path).toOption

/-- A place is found as long as the directories stay in which the names of its path are looked up. -/
theorem locate_of_directories {tree after : FileTree} (working : after.working = tree.working)
    (stay : ∀ location, tree.entry? location = some .directory →
      after.entry? location = some .directory) {path : String} {location : Location}
    (located : tree.locate path = .ok location) : after.locate path = .ok location := by
  have follows : ∀ (names : List String) (start : Location),
      names.foldlM tree.follow start = .ok location → names.foldlM after.follow start = .ok location := by
    intro names
    induction names with
    | nil => exact fun _ located => located
    | cons name rest ih =>
      intro start located
      rw [List.foldlM_cons] at located ⊢
      obtain ⟨next, followed, located⟩ := Outcome.bind_ok located
      have onward : after.follow start name = .ok next := by
        unfold follow at followed ⊢
        split at followed
        · cases followed
        · cases followed
        · rename_i directory
          rw [stay start directory]
          exact followed
      rw [onward]
      exact ih next located
  unfold locate at located ⊢
  split at located
  · cases located
  · split at located
    · cases located
    · split at located
      · cases located
      · rename_i present proper short
        rw [if_neg present, if_neg proper, if_neg short, working]
        exact follows _ _ located

private theorem leading_put {tree : FileTree} {location : Location} {entry : DiskEntry}
    (free : tree.entry? location ≠ some .directory) :
    fileView.Leading tree (tree.put location entry) := by
  intro path place leads
  have located : tree.locate path = .ok place := Outcome.toOption_eq_some.mp leads
  refine Outcome.toOption_eq_some.mpr (locate_of_directories ?_ (fun other directory => ?_) located)
  · unfold put
    split <;> rfl
  · rw [entry?_put, if_neg]
    · exact directory
    · rintro ⟨rfl, -⟩
      exact free directory

private theorem makeDirectory_unchanged {tree after : FileTree} {path : String}
    (made : tree.makeDirectory path = .ok after) : fileView.Unchanged tree after := by
  obtain ⟨location, -, made⟩ := Outcome.bind_ok made
  split at made
  · cases made
  · rename_i free
    cases made
    exact ⟨content?_put_directory free, leading_put (by rw [free]; exact nofun)⟩

private theorem writeText_wrote {tree after : FileTree} {path text : String}
    (written : tree.writeText path text = .ok after) :
    ∃ place, fileView.Wrote path text place tree after := by
  unfold writeText at written
  split at written
  · obtain ⟨_, -, failed⟩ := Outcome.bind_ok written
    cases failed
  · obtain ⟨location, located, written⟩ := Outcome.bind_ok written
    split at written
    · cases written
    · rename_i free
      cases written
      have below : location ≠ [] := by
        rintro rfl
        exact free rfl
      have leading : fileView.Leading tree (tree.put location (.file text.toUTF8)) :=
        leading_put free
      refine ⟨location, leading path location (Outcome.toOption_eq_some.mpr located), ?_,
        fun _ => content?_put_of_ne _, leading⟩
      change content? (FileTree.entry? (tree.put location _) location) = _
      rw [entry?_put, if_pos ⟨rfl, below⟩]
      rfl

private theorem run_change (operation : FileTree → Except DiskError FileTree) (tree : FileTree) :
    (change operation).run tree =
      match operation tree with
      | .ok after => (.ok (), after)
      | .error error => (.error error, tree) := by
  change (match operation tree with
    | .ok after => _
    | .error error => _ : StateM FileTree (Except DiskError Unit)).run tree = _
  cases operation tree <;> rfl

theorem fileView_lawful : fileView.Lawful where
  canonicalize _ _ := .refl _
  readText _ _ := .refl _
  isDirectory _ _ := .refl _
  fileBound _ := .refl _
  makeDirectory path tree := by
    change fileView.Unchanged tree ((change (makeDirectory · path)).run tree).2
    rw [run_change]
    cases made : tree.makeDirectory path with
    | error error => exact .refl _
    | ok after => exact makeDirectory_unchanged made
  unwritten path text tree error after failed := by
    change (change (writeText · path text)).run tree = _ at failed
    rw [run_change] at failed
    split at failed
    · cases failed
    · cases failed
      exact .refl _
  written path text tree after succeeded := by
    change (change (writeText · path text)).run tree = _ at succeeded
    rw [run_change] at succeeded
    split at succeeded
    · rename_i written
      cases succeeded
      exact writeText_wrote written
    · cases succeeded

end FileTree

end RecordSchema
