import RecordSchema.Proofs.Loading.Runs

/-!
# The units of a sequence of loads

Documents are loaded one after the other with one loader, and some loads may fail. Every load comes to
an end, and the bound on nested imports has no part in how. There is one unit for each document that was
read, and it is primary if and only if one of the loads is for that document, by whatever path, before or
after it was imported.
-/

set_option autoImplicit false

namespace RecordSchema.Loading

/-- What comes of loading one document after the other with one loader, failures included. -/
def outcomes {σ : Type} (load : String → Loading (StateM σ) Unit) (paths : List String)
    (loader : Loader) (disk : σ) : (List (Except LoadError Unit) × Loader) × σ :=
  ((paths.mapM fun path => (load path).run).run loader).run disk

/-- How loads go one after the other. -/
inductive Calls (view : DiskView) (directories : List String) :
    List String → Loader → List (Except LoadError Unit) → Loader → Prop where
  | nil {loader : Loader} : Calls view directories [] loader [] loader
  | cons {path : String} {paths : List String} {loader between after : Loader}
      {result : Except LoadError Unit} {results : List (Except LoadError Unit)} :
      Runs view directories (.document path false) loader result between →
      Calls view directories paths between results after →
      Calls view directories (path :: paths) loader (result :: results) after

section Runs

variable {view : DiskView} {directories : List String} {task : Task} {loader after : Loader}
  {result : Except LoadError Unit}

theorem Runs.unique {result' : Except LoadError Unit} {after' : Loader}
    (runs : Runs view directories task loader result after)
    (other : Runs view directories task loader result' after') : result = result' ∧ after = after' := by
  induction runs generalizing result' after' with
  | lost known => cases other <;> simp_all
  | known known held => cases other <;> simp_all
  | unread known fresh failed => cases other <;> simp_all [-List.lookup_eq_none_iff]
  | read known fresh read _ ih =>
    cases other with
    | read known' _ read' later =>
      obtain rfl := Except.ok.inj (known.symm.trans known')
      obtain rfl := Except.ok.inj (read.symm.trans read')
      exact ih later
    | lost | known | unread => simp_all [-List.lookup_eq_none_iff]
  | done =>
    cases other
    exact ⟨rfl, rfl⟩
  | missing lost => cases other <;> simp_all
  | failed found _ ih =>
    cases other with
    | missing => simp_all
    | failed found' failed' =>
      obtain rfl := Option.some.inj (found.symm.trans found')
      exact ih failed'
    | next found' first' =>
      obtain rfl := Option.some.inj (found.symm.trans found')
      cases (ih first').1
  | next found _ _ ih ihRest =>
    cases other with
    | missing => simp_all
    | failed found' failed' =>
      obtain rfl := Option.some.inj (found.symm.trans found')
      cases (ih failed').1
    | next found' first' rest' =>
      obtain rfl := Option.some.inj (found.symm.trans found')
      obtain ⟨_, rfl⟩ := ih first'
      exact ihRest rest'

private theorem document_ne_tooDeep {path other : String} {error : LoadError}
    (failed : view.document path = .error error) : error ≠ .tooDeep other := by
  unfold DiskView.document at failed
  split at failed
  · cases failed
    exact nofun
  · split at failed
    · cases failed
      exact nofun
    · cases failed

/-- The bound on nested imports is never met. -/
theorem Runs.ne_tooDeep (runs : Runs view directories task loader result after) (path : String) :
    result ≠ .error (.tooDeep path) := by
  induction runs with
  | lost | known | done | missing => exact nofun
  | unread _ _ failed => exact fun same => document_ne_tooDeep failed (Except.error.inj same)
  | read _ _ _ _ ih | failed _ _ ih | next _ _ _ _ ih => exact ih

end Runs

/-!
## Primary units
-/

/-- The paths for which documents are loaded directly, when a task is added. -/
def Task.directly (named : List String) : Task → List String
  | document path false => path :: named
  | _ => named

private theorem exists_directly {path : String} {included : Bool} {named : List String}
    {leads : String → Prop} :
    (∃ other ∈ (Task.document path included).directly named, leads other) ↔
      (included = false ∧ leads path) ∨ ∃ other ∈ named, leads other := by
  cases included <;> simp [Task.directly]

/-- Of the documents that are loaded, those are primary which have been named directly; any other that
was named could not be read. -/
structure Marked (view : DiskView) (named : List String) (loader : Loader) : Prop where
  primary : ∀ place index, (place, index) ∈ loader.loaded →
    ∀ unit, loader.units[index]? = some unit →
      (unit.included = false ↔ ∃ path ∈ named, view.canonicalize path = .ok place)
  loaded : ∀ path ∈ named, ∀ place, view.canonicalize path = .ok place →
    (loader.loaded.lookup place).isSome ∨ ∀ document, view.document path ≠ .ok document

namespace Marked

variable {view : DiskView} {directories named : List String} {loader : Loader}

theorem empty : Marked view [] {} where
  primary _ _ listed := absurd listed List.not_mem_nil
  loaded _ listed := absurd listed List.not_mem_nil

/-- A load that fails at once names no document that is loaded. -/
theorem name (marked : Marked view named loader) {path : String}
    (unread : ∀ place, view.canonicalize path = .ok place →
      loader.loaded.lookup place = none ∧ ∀ document, view.document path ≠ .ok document) :
    Marked view ((Task.document path false).directly named) loader where
  primary place index listed unit found := by
    rw [marked.primary place index listed unit found, exists_directly]
    refine (or_iff_right fun known => ?_).symm
    simpa using List.lookup_eq_none_iff.mp (unread place known.2).1 _ listed
  loaded other listed place known := by
    rcases List.mem_cons.mp listed with rfl | before
    · exact .inr (unread place known).2
    · exact marked.loaded other before place known

theorem markPrimary (recorded : Recorded view loader) (marked : Marked view named loader)
    {path place : String} {index : Nat} (known : view.canonicalize path = .ok place)
    (held : loader.loaded.lookup place = some index) :
    Marked view ((Task.document path false).directly named) (loader.markPrimary index) where
  primary other position listed unit found := by
    have listed : (other, position) ∈ loader.loaded := listed
    rw [Loader.markPrimary, Array.getElem?_modify] at found
    split at found
    · rename_i same
      subst same
      obtain rfl := recorded.place_unique listed (mem_of_lookup held)
      obtain ⟨before, _, rfl⟩ := Option.map_eq_some_iff.mp found
      exact iff_of_true rfl ⟨path, List.mem_cons_self, known⟩
    · rename_i different
      rw [marked.primary other position listed unit found, exists_directly]
      refine (or_iff_right fun same => different ?_).symm
      obtain rfl := Except.ok.inj (known.symm.trans same.2)
      exact recorded.index_unique (mem_of_lookup held) listed
  loaded other listed place' known' := by
    rcases List.mem_cons.mp listed with rfl | before
    · obtain rfl := Except.ok.inj (known.symm.trans known')
      exact .inl (held ▸ rfl)
    · exact marked.loaded other before place' known'

theorem register (recorded : Recorded view loader) (marked : Marked view named loader)
    {path place : String} {included : Bool} {document : Declaration.Document}
    (known : view.canonicalize path = .ok place) (fresh : loader.loaded.lookup place = none)
    (read : view.document path = .ok document) :
    Marked view ((Task.document path included).directly named)
      (loader.register place { document, included, path }) where
  primary other index listed unit found := by
    rw [exists_directly]
    rcases List.mem_cons.mp listed with same | before
    · cases same
      rw [Loader.register, Array.getElem?_push_size] at found
      cases found
      refine ⟨fun primary => .inl ⟨primary, known⟩, ?_⟩
      rintro (⟨primary, _⟩ | ⟨other, listed, same⟩)
      · exact primary
      · rcases marked.loaded other listed place same with held | unread
        · rw [fresh] at held
          cases held
        · exact absurd ((document_congr same known).mpr read) (unread document)
    · have inside := recorded.index_lt before
      rw [Loader.register, Array.getElem?_push, if_neg (Nat.ne_of_lt inside)] at found
      rw [marked.primary other index before unit found]
      refine (or_iff_right fun named => ?_).symm
      obtain rfl := Except.ok.inj (known.symm.trans named.2)
      simpa using List.lookup_eq_none_iff.mp fresh _ before
  loaded other listed place' known' := by
    rw [Loader.register, List.lookup_cons]
    split
    · exact .inl rfl
    · rename_i different
      have before : other ∈ named := by
        cases included with
        | true => exact listed
        | false =>
          rcases List.mem_cons.mp listed with rfl | before
          · simp [Except.ok.inj (known'.symm.trans known)] at different
          · exact before
      exact marked.loaded other before place' known'

end Marked

section Sequences

variable {view : DiskView} {directories named : List String} {loader after : Loader}

theorem Runs.marked {task : Task} {result : Except LoadError Unit}
    (runs : Runs view directories task loader result after) (recorded : Recorded view loader)
    (marked : Marked view named loader) : Marked view (task.directly named) after := by
  induction runs generalizing named with
  | @lost path included _ _ lost =>
    cases included with
    | true => exact marked
    | false => exact marked.name fun place known => by simp [lost] at known
  | @known _ included _ _ _ known held =>
    cases included with
    | true => exact marked
    | false => exact marked.markPrimary recorded known held
  | @unread _ included _ _ _ known fresh failed =>
    cases included with
    | true => exact marked
    | false =>
      refine marked.name fun place same => ?_
      obtain rfl := Except.ok.inj (known.symm.trans same)
      exact ⟨fresh, by simp [failed]⟩
  | read known fresh read _ ih =>
    exact ih (recorded.register known fresh read) (marked.register recorded known fresh read)
  | done | missing => exact marked
  | failed _ _ ih => exact ih recorded marked
  | next _ first _ ih ihRest => exact ihRest (first.recorded recorded) (ih recorded marked)

theorem Calls.recorded {paths : List String} {results : List (Except LoadError Unit)}
    (calls : Calls view directories paths loader results after) (recorded : Recorded view loader) :
    Recorded view after := by
  induction calls with
  | nil => exact recorded
  | cons runs _ ih => exact ih (runs.recorded recorded)

theorem Calls.marked {paths : List String} {results : List (Except LoadError Unit)}
    (calls : Calls view directories paths loader results after) (recorded : Recorded view loader)
    (marked : Marked view named loader) : Marked view (paths.reverse ++ named) after := by
  induction calls generalizing named with
  | nil => exact marked
  | cons runs _ ih =>
    rw [List.reverse_cons, List.append_assoc]
    exact ih (runs.recorded recorded) (runs.marked recorded marked)

theorem Calls.length_eq {paths : List String} {results : List (Except LoadError Unit)}
    (calls : Calls view directories paths loader results after) : results.length = paths.length := by
  induction calls with
  | nil => rfl
  | cons _ _ ih => rw [List.length_cons, List.length_cons, ih]

private theorem Calls.ne_tooDeep {paths : List String} {results : List (Except LoadError Unit)}
    (calls : Calls view directories paths loader results after) :
    ∀ result ∈ results, ∀ path, result ≠ .error (.tooDeep path) := by
  induction calls with
  | nil => exact fun _ none => absurd none List.not_mem_nil
  | cons runs _ ih => exact List.forall_mem_cons.mpr ⟨runs.ne_tooDeep, ih⟩

variable {σ : Type} {disk : σ}

private theorem outcomes_cons (load : String → Loading (StateM σ) Unit) (path : String) (rest : List String)
    (loader : Loader) (disk : σ) :
    outcomes load (path :: rest) loader disk =
      let ((result, between), left) := outcome (load path) loader disk
      let ((results, after), last) := outcomes load rest between left
      ((result :: results, after), last) := by
  rw [outcomes, List.mapM_cons]
  rfl

/-- Loads that each come to an end do so one after the other. -/
theorem exists_calls (directories : List String) (load : String → Loading (StateM σ) Unit)
    (each : ∀ path loader, Recorded view loader → ∃ result after,
      outcome (load path) loader disk = ((result, after), disk) ∧
        Runs view directories (.document path false) loader result after)
    (paths : List String) (recorded : Recorded view loader) :
    ∃ results after, outcomes load paths loader disk = ((results, after), disk) ∧
      Calls view directories paths loader results after := by
  induction paths generalizing loader with
  | nil => exact ⟨[], loader, rfl, .nil⟩
  | cons path rest ih =>
    obtain ⟨result, between, went, runs⟩ := each path loader recorded
    obtain ⟨results, after, others, calls⟩ := ih (runs.recorded recorded)
    refine ⟨result :: results, after, ?_, .cons runs calls⟩
    rw [outcomes_cons, went]
    dsimp only
    rw [others]

variable [MonadDisk (StateM σ)]

/-- A load that is bounded by the number of files is a load that is bounded by more. -/
theorem exists_runs_load (steady : Steady disk view) (directories : List String) (path : String)
    (recorded : Recorded view loader) :
    ∃ result after, outcome (load directories path) loader disk = ((result, after), disk) ∧
      Runs view directories (.document path false) loader result after := by
  obtain ⟨bound, answered, enough⟩ := steady.fileBound
  rw [load, outcome_bind, outcome_lift, answered]
  exact exists_runs steady recorded (by omega)

theorem Calls.unique {paths : List String} {results others : List (Except LoadError Unit)}
    {last : Loader} (calls : Calls view directories paths loader results after)
    (same : Calls view directories paths loader others last) : results = others ∧ after = last := by
  induction calls generalizing others with
  | nil =>
    cases same
    exact ⟨rfl, rfl⟩
  | cons runs _ ih =>
    cases same with
    | cons other rest =>
      obtain ⟨rfl, rfl⟩ := runs.unique other
      obtain ⟨rfl, rfl⟩ := ih rest
      exact ⟨rfl, rfl⟩

theorem runs_of_outcome (steady : Steady disk view) {path : String} {result : Except LoadError Unit}
    (recorded : Recorded view loader)
    (went : outcome (load directories path) loader disk = ((result, after), disk)) :
    Runs view directories (.document path false) loader result after := by
  obtain ⟨_, _, same, runs⟩ := exists_runs_load steady directories path recorded
  rw [went] at same
  cases same
  exact runs

theorem calls_of_outcomes (steady : Steady disk view) {paths : List String}
    {results : List (Except LoadError Unit)}
    (went : outcomes (load directories) paths {} disk = ((results, after), disk)) :
    Calls view directories paths {} results after ∧ Recorded view after := by
  obtain ⟨_, _, same, calls⟩ := exists_calls directories (load directories)
    (fun path loader recorded => exists_runs_load steady directories path recorded) paths .empty
  rw [went] at same
  cases same
  exact ⟨calls, calls.recorded .empty⟩

/-- However many loads there are, with failures among them: each of them ends, whatever the bound on
nested imports, and there is one unit for each document, which is primary if and only if one of the
loads is for it. -/
theorem outcomes_units (steady : Steady disk view) (directories paths : List String) :
    ∃ results after, outcomes (load directories) paths {} disk = ((results, after), disk) ∧
      (∀ depth, view.files.length < depth →
        outcomes (loadNested directories depth · false) paths {} disk = ((results, after), disk)) ∧
      results.length = paths.length ∧
      (∀ result ∈ results, ∀ path, result ≠ .error (.tooDeep path)) ∧
      Recorded view after ∧
      (∀ (one other : Nat) (unit unit' : LoadedUnit), after.units[one]? = some unit →
        after.units[other]? = some unit' →
          view.canonicalize unit.path = view.canonicalize unit'.path → one = other) ∧
      ∀ (index : Nat) (unit : LoadedUnit), after.units[index]? = some unit →
        (unit.included = false ↔
          ∃ path ∈ paths, view.canonicalize path = view.canonicalize unit.path) := by
  obtain ⟨results, after, went, calls⟩ := exists_calls directories (load directories)
    (fun path loader recorded => exists_runs_load steady directories path recorded) paths .empty
  have recorded := calls.recorded .empty
  have marked := calls.marked .empty .empty
  have listed := fun index unit (found : after.units[index]? = some unit) => recorded.listed found
  refine ⟨results, after, went, fun depth enough => ?_, calls.length_eq, calls.ne_tooDeep, recorded,
    fun one other unit unit' found found' same => ?_, fun index unit found => ?_⟩
  · obtain ⟨others, last, same, deeper⟩ := exists_calls directories
      (fun path => loadNested directories depth path false)
      (fun path loader recorded => exists_runs steady recorded (by omega)) paths .empty
    obtain ⟨rfl, rfl⟩ := calls.unique deeper
    exact same
  · obtain ⟨place, among, known⟩ := listed one unit found
    obtain ⟨place', among', known'⟩ := listed other unit' found'
    obtain rfl : place = place' := Except.ok.inj (known.symm.trans (same.trans known'))
    exact recorded.index_unique among among'
  · obtain ⟨place, among, known⟩ := listed index unit found
    rw [marked.primary place index among unit found, known]
    simp

end Sequences

/-- Two documents that import each other, one of them also itself. -/
def circularTree : FileTree :=
  (({ working := ["work"] } : FileTree).withFile ["work", "first.yaml"]
      "use:\n  - \x7b file: second.yaml \x7d\n".toUTF8).withFile ["work", "second.yaml"]
    "use:\n  - \x7b file: first.yaml \x7d\n  - \x7b file: second.yaml \x7d\n".toUTF8

theorem outcomes_units_sample : ∃ results after,
    Steady circularTree (circularTree.view (by decide)) ∧
    outcomes (load []) ["first.yaml", "third.yaml", "./second.yaml"] {} circularTree =
      ((results, after), circularTree) ∧
    results.length = 3 ∧
    after.units.toList.map (fun unit => (unit.path, unit.included)) =
      [("first.yaml", false), ("/work/second.yaml", false)] ∧
    ∀ (index : Nat) (unit : LoadedUnit), after.units[index]? = some unit →
      ∃ path ∈ ["first.yaml", "third.yaml", "./second.yaml"],
        circularTree.canonicalize path = circularTree.canonicalize unit.path := by
  have steady := circularTree.steady (by decide)
  have units : (outcomes (load []) ["first.yaml", "third.yaml", "./second.yaml"] {}
      circularTree).1.2.units.toList.map (fun unit => (unit.path, unit.included)) =
        [("first.yaml", false), ("/work/second.yaml", false)] := by decide +kernel
  obtain ⟨results, after, went, _, length, _, _, _, primary⟩ :=
    outcomes_units steady [] ["first.yaml", "third.yaml", "./second.yaml"]
  rw [went] at units
  refine ⟨results, after, steady, went, length, units, fun index unit found => ?_⟩
  have listed : (unit.path, unit.included) ∈
      after.units.toList.map fun unit => (unit.path, unit.included) :=
    List.mem_map_of_mem (Array.mem_toList_iff.mpr (Array.mem_of_getElem? found))
  rw [units] at listed
  refine (primary index unit found).mp ?_
  simp only [List.mem_cons, Prod.mk.injEq, List.not_mem_nil, or_false] at listed
  rcases listed with ⟨_, same⟩ | ⟨_, same⟩ <;> exact same

end RecordSchema.Loading
