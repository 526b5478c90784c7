import Mathlib.Logic.Relation
import RecordSchema.Proofs.Loading.Units

/-!
# What a load that succeeds has loaded

A document is registered before its imports are followed. So a load that fails leaves documents behind
whose imports it has not followed, and a later load finds them loaded and succeeds. What is missing then
is missing for a reason: some document that can be reached has an import that cannot be loaded, and it was
registered by a load that failed. Where no load fails, nothing is missing.
-/

set_option autoImplicit false

namespace RecordSchema.Loading

open Relation (ReflTransGen)

section Graph

variable (view : DiskView) (directories : List String) (loader : Loader)

/-- The document under a path is loaded as the given unit. -/
def Holds (path : String) (index : Nat) : Prop :=
  ∃ place, view.canonicalize path = .ok place ∧ loader.loaded.lookup place = some index

/-- An import is resolved, and what it leads to is loaded as the given unit. -/
def Imports (base file : String) (index : Nat) : Prop :=
  ∃ found, view.importPlace? directories base file = some found ∧ Holds view loader found index

/-- One unit imports another. -/
def Leads (one other : Nat) : Prop :=
  ∃ unit, loader.units[one]? = some unit ∧
    ∃ imported ∈ unit.document.imports, Imports view directories loader unit.path imported.file other

/-- All imports of a unit are resolved and loaded. -/
def Complete (index : Nat) : Prop :=
  ∀ unit, loader.units[index]? = some unit → ∀ imported ∈ unit.document.imports,
    ∃ other, Imports view directories loader unit.path imported.file other

/-- No document can be loaded by a path. -/
def Unfit (path : String) : Prop :=
  ∀ place, view.canonicalize path = .ok place → ∀ document, view.document path ≠ .ok document

/-- An import is not resolved, or leads to what cannot be loaded. -/
def BrokenImport (base file : String) : Prop :=
  ∀ found, view.importPlace? directories base file = some found → Unfit view found

/-- A unit has an import that cannot be loaded. -/
def Broken (index : Nat) : Prop :=
  ∃ unit, loader.units[index]? = some unit ∧
    ∃ imported ∈ unit.document.imports, BrokenImport view directories unit.path imported.file

/-- From a unit one comes to one that is broken. -/
def Doomed (index : Nat) : Prop :=
  ∃ other, ReflTransGen (Leads view directories loader) index other ∧
    Broken view directories loader other

end Graph

/-!
## Growing loaders
-/

/-- Documents stay loaded, each as the unit that it was. -/
structure Grown (before after : Loader) : Prop where
  lookup : ∀ place index, before.loaded.lookup place = some index →
    after.loaded.lookup place = some index
  units : ∀ (index : Nat) (unit : LoadedUnit), before.units[index]? = some unit →
    ∃ later, after.units[index]? = some later ∧ later.path = unit.path ∧
      later.document = unit.document

namespace Grown

variable {view : DiskView} {directories : List String} {before between after : Loader}

theorem refl (loader : Loader) : Grown loader loader where
  lookup _ _ held := held
  units _ unit found := ⟨unit, found, rfl, rfl⟩

theorem trans (first : Grown before between) (second : Grown between after) :
    Grown before after where
  lookup place index held := second.lookup place index (first.lookup place index held)
  units index unit found := by
    obtain ⟨later, found, path, document⟩ := first.units index unit found
    obtain ⟨last, found, samePath, sameDocument⟩ := second.units index later found
    exact ⟨last, found, samePath.trans path, sameDocument.trans document⟩

theorem markPrimary (loader : Loader) (index : Nat) : Grown loader (loader.markPrimary index) where
  lookup _ _ held := held
  units position unit found := by
    rw [Loader.markPrimary, Array.getElem?_modify, found]
    split
    · exact ⟨_, rfl, rfl, rfl⟩
    · exact ⟨unit, rfl, rfl, rfl⟩

theorem register {loader : Loader} {place : String} (fresh : loader.loaded.lookup place = none)
    (unit : LoadedUnit) : Grown loader (loader.register place unit) where
  lookup other index held := by
    rw [Loader.register, List.lookup_cons]
    split
    · rename_i same
      rw [beq_iff_eq.mp same, fresh] at held
      cases held
    · exact held
  units index known found := by
    have inside : index < loader.units.size := (Array.getElem?_eq_some_iff.mp found).1
    rw [Loader.register, Array.getElem?_push, if_neg (Nat.ne_of_lt inside)]
    exact ⟨known, found, rfl, rfl⟩

variable (grown : Grown before after)

include grown

private theorem unit_back {index : Nat} (inside : index < before.units.size) {unit : LoadedUnit}
    (found : after.units[index]? = some unit) : ∃ earlier, before.units[index]? = some earlier ∧
      unit.path = earlier.path ∧ unit.document = earlier.document := by
  have known : before.units[index]? = some before.units[index] := Array.getElem?_eq_getElem inside
  obtain ⟨later, held, path, document⟩ := grown.units index _ known
  obtain rfl := Option.some.inj (held.symm.trans found)
  exact ⟨_, known, path, document⟩

theorem imports {base file : String} {index : Nat}
    (imports : Imports view directories before base file index) :
    Imports view directories after base file index := by
  obtain ⟨found, resolved, place, known, held⟩ := imports
  exact ⟨found, resolved, place, known, grown.lookup place index held⟩

theorem leads {one other : Nat} (leads : Leads view directories before one other) :
    Leads view directories after one other := by
  obtain ⟨unit, found, imported, listed, imports⟩ := leads
  obtain ⟨later, held, path, document⟩ := grown.units one unit found
  exact ⟨later, held, imported, document ▸ listed, path ▸ grown.imports imports⟩

theorem complete {index : Nat} (inside : index < before.units.size)
    (complete : Complete view directories before index) :
    Complete view directories after index := by
  intro unit found imported listed
  obtain ⟨earlier, known, path, document⟩ := grown.unit_back inside found
  obtain ⟨other, imports⟩ := complete earlier known imported (document ▸ listed)
  exact ⟨other, path ▸ grown.imports imports⟩

private theorem doomed {index : Nat} (doomed : Doomed view directories before index) :
    Doomed view directories after index := by
  obtain ⟨other, reached, unit, found, imported, listed, broken⟩ := doomed
  obtain ⟨later, held, path, document⟩ := grown.units other unit found
  exact ⟨other, ReflTransGen.mono (fun _ _ => grown.leads) _ _ reached, later, held, imported, document ▸ listed,
    path ▸ broken⟩

end Grown

section Runs

variable {view : DiskView} {directories : List String} {task : Task} {loader after : Loader}
  {result : Except LoadError Unit}

theorem Runs.grown (runs : Runs view directories task loader result after) : Grown loader after := by
  induction runs with
  | lost | unread | done | missing => exact .refl _
  | known =>
    split
    · exact .refl _
    · exact .markPrimary _ _
  | read _ fresh _ _ ih => exact (Grown.register fresh _).trans ih
  | failed _ _ ih => exact ih
  | next _ _ _ ih ihRest => exact ih.trans ihRest

/-!
## What a task leaves
-/

/-- What a task was to load is loaded. -/
def Task.Done (view : DiskView) (directories : List String) (after : Loader) : Task → Prop
  | document path _ => ∃ index, Holds view after path index
  | imports base files => ∀ file ∈ files, ∃ index, Imports view directories after base file index

/-- What a task was to load cannot be loaded, or leads to what is broken. -/
def Task.Blocked (view : DiskView) (directories : List String) (after : Loader) : Task → Prop
  | document path _ =>
    Unfit view path ∨ ∃ index, Holds view after path index ∧ Doomed view directories after index
  | imports base files => ∃ file ∈ files, BrokenImport view directories base file ∨
      ∃ index, Imports view directories after base file index ∧ Doomed view directories after index

/-- A task that succeeds has loaded what it was to load, with all imports. One that fails does so for
something that is broken, to which all leads that it leaves incomplete. -/
structure Leaves (view : DiskView) (directories : List String) (task : Task) (loader : Loader)
    (result : Except LoadError Unit) (after : Loader) : Prop where
  done : result = .ok () → task.Done view directories after
  blocked : ∀ error, result = .error error → task.Blocked view directories after
  complete : result = .ok () → ∀ index, loader.units.size ≤ index →
    Complete view directories after index
  accounted : ∀ index, loader.units.size ≤ index →
    Complete view directories after index ∨ Doomed view directories after index

private theorem complete_of_size_le {index : Nat} (outside : loader.units.size ≤ index) :
    Complete view directories loader index := by
  intro unit found
  rw [Array.getElem?_eq_none outside] at found
  cases found

/-- A task that registers nothing leaves nothing. -/
theorem Leaves.of_size (size : after.units.size = loader.units.size)
    (done : result = .ok () → task.Done view directories after)
    (blocked : ∀ error, result = .error error → task.Blocked view directories after) :
    Leaves view directories task loader result after where
  done := done
  blocked := blocked
  complete _ _ outside := complete_of_size_le (size ▸ outside)
  accounted _ outside := .inl (complete_of_size_le (size ▸ outside))

theorem Leaves.read {path place : String} {included : Bool} {document : Declaration.Document}
    (known : view.canonicalize path = .ok place)
    (runs : Runs view directories (.imports path (document.imports.map (·.file)))
      (loader.register place { document, included, path }) result after)
    (leaves : Leaves view directories (.imports path (document.imports.map (·.file)))
      (loader.register place { document, included, path }) result after) :
    Leaves view directories (.document path included) loader result after := by
  have grown := runs.grown
  have holds : Holds view after path loader.units.size :=
    ⟨place, known, grown.lookup place _ (by simp [Loader.register])⟩
  have size : (loader.register place { document, included, path }).units.size =
      loader.units.size + 1 := Array.size_push _
  obtain ⟨unit, found, samePath, sameDocument⟩ :=
    grown.units loader.units.size _ Array.getElem?_push_size
  dsimp only at samePath sameDocument
  have own : result = .ok () → Complete view directories after loader.units.size := by
    intro succeeded other held imported listed
    obtain rfl := Option.some.inj (found.symm.trans held)
    rw [sameDocument] at listed
    rw [samePath]
    exact leaves.done succeeded imported.file (List.mem_map_of_mem listed)
  have doomed : ∀ error, result = .error error → Doomed view directories after loader.units.size := by
    intro error failed
    obtain ⟨_, among, reason⟩ := leaves.blocked error failed
    obtain ⟨imported, listed, rfl⟩ := List.mem_map.mp among
    rw [← sameDocument] at listed
    rw [← samePath] at reason
    rcases reason with broken | ⟨index, imports, other, reached, broken⟩
    · exact ⟨_, .refl, unit, found, imported, listed, broken⟩
    · exact ⟨other, .head ⟨unit, found, imported, listed, imports⟩ reached, broken⟩
  refine ⟨fun _ => ⟨_, holds⟩, fun error failed => .inr ⟨_, holds, doomed error failed⟩,
    fun succeeded index outside => ?_, fun index outside => ?_⟩
  · rcases Nat.eq_or_lt_of_le outside with rfl | later
    · exact own succeeded
    · exact leaves.complete succeeded index (size ▸ later)
  · rcases Nat.eq_or_lt_of_le outside with rfl | later
    · cases result with
      | ok _ => exact .inl (own rfl)
      | error error => exact .inr (doomed error rfl)
    · exact leaves.accounted index (size ▸ later)

theorem Leaves.next {base file found : String} {rest : List String} {between : Loader}
    (resolved : view.importPlace? directories base file = some found)
    (first : Leaves view directories (.document found true) loader (.ok ()) between)
    (runs : Runs view directories (.imports base rest) between result after)
    (others : Leaves view directories (.imports base rest) between result after) :
    Leaves view directories (.imports base (file :: rest)) loader result after := by
  have grown := runs.grown
  obtain ⟨index, holds⟩ := first.done rfl
  have imports : Imports view directories after base file index :=
    grown.imports ⟨found, resolved, holds⟩
  have earlier : ∀ index, loader.units.size ≤ index → index < between.units.size →
      Complete view directories after index := fun index outside inside =>
    grown.complete inside (first.complete rfl index outside)
  refine ⟨fun succeeded => List.forall_mem_cons.mpr ⟨⟨index, imports⟩, others.done succeeded⟩,
    fun error failed => ?_, fun succeeded index outside => ?_, fun index outside => ?_⟩
  · obtain ⟨other, listed, reason⟩ := others.blocked error failed
    exact ⟨other, List.mem_cons_of_mem _ listed, reason⟩
  · by_cases inside : index < between.units.size
    · exact earlier index outside inside
    · exact others.complete succeeded index (Nat.le_of_not_lt inside)
  · by_cases inside : index < between.units.size
    · exact .inl (earlier index outside inside)
    · exact others.accounted index (Nat.le_of_not_lt inside)

theorem Runs.leaves (runs : Runs view directories task loader result after) :
    Leaves view directories task loader result after := by
  induction runs with
  | lost lost =>
    exact .of_size rfl nofun fun _ _ => .inl fun place known => by simp [lost] at known
  | @known path included loader place index known held =>
    cases included with
    | true => exact .of_size rfl (fun _ => ⟨_, _, known, held⟩) nofun
    | false => exact .of_size (Array.size_modify ..) (fun _ => ⟨_, _, known, held⟩) nofun
  | unread known fresh failed =>
    exact .of_size rfl nofun fun _ _ => .inl fun _ _ document read => by simp [failed] at read
  | read known _ _ rest ih => exact .read known rest ih
  | done => exact .of_size rfl (fun _ _ none => absurd none List.not_mem_nil) nofun
  | @missing _ file _ _ lost =>
    exact .of_size rfl nofun fun _ _ =>
      ⟨file, List.mem_cons_self, .inl fun found resolved => by simp [lost] at resolved⟩
  | @failed _ file found _ _ _ error resolved _ ih =>
    refine ⟨nofun, fun _ _ => ⟨file, List.mem_cons_self, ?_⟩, nofun, ih.accounted⟩
    rcases ih.blocked error rfl with unfit | ⟨index, holds, doomed⟩
    · refine .inl fun other same => ?_
      obtain rfl := Option.some.inj (resolved.symm.trans same)
      exact unfit
    · exact .inr ⟨index, ⟨found, resolved, holds⟩, doomed⟩
  | next resolved _ rest ih ihRest => exact .next resolved ih rest ihRest

end Runs

section Sequences

variable {view : DiskView} {directories paths : List String} {loader after : Loader}
  {results : List (Except LoadError Unit)}

/-- Of a unit whose imports are all loaded, none is broken. -/
theorem Complete.not_broken (recorded : Recorded view loader) {index : Nat}
    (complete : Complete view directories loader index) : ¬ Broken view directories loader index := by
  rintro ⟨unit, found, imported, listed, broken⟩
  obtain ⟨other, place, resolved, one, known, held⟩ := complete unit found imported listed
  obtain ⟨same, _, leads, read⟩ := recorded.units one other (mem_of_lookup held)
  exact broken place resolved one known _ ((document_congr known leads).mpr read)

/-- Where imports of a unit are missing, it leads to one that is broken. -/
theorem Calls.accounted (calls : Calls view directories paths loader results after)
    (before : ∀ index, Complete view directories loader index ∨ Doomed view directories loader index) :
    ∀ index, Complete view directories after index ∨ Doomed view directories after index := by
  induction calls with
  | nil => exact before
  | @cons _ _ loader _ _ _ _ runs _ ih =>
    refine ih fun index => ?_
    by_cases inside : index < loader.units.size
    · exact (before index).imp (runs.grown.complete inside) runs.grown.doomed
    · exact runs.leaves.accounted index (Nat.le_of_not_lt inside)

/-- As long as loads succeed no imports are missing. -/
theorem Calls.complete (calls : Calls view directories paths loader results after)
    (before : ∀ index, Complete view directories loader index)
    (succeeded : ∀ result ∈ results, result = .ok ()) :
    ∀ index, Complete view directories after index := by
  induction calls with
  | nil => exact before
  | @cons _ _ loader _ _ _ _ runs _ ih =>
    obtain ⟨here, others⟩ := List.forall_mem_cons.mp succeeded
    refine ih (fun index => ?_) others
    by_cases inside : index < loader.units.size
    · exact runs.grown.complete inside (before index)
    · exact runs.leaves.complete here index (Nat.le_of_not_lt inside)

variable {σ : Type} [MonadDisk (StateM σ)] {disk : σ}

/-- When a load succeeds, its document is loaded. All that can be reached from it over imports is
resolved and loaded, unless one comes to a document with an import that cannot be loaded, which an
earlier load has left. If no earlier load failed, there is none. -/
theorem load_imports (steady : Steady disk view) {before : Loader}
    (earlier : outcomes (load directories) paths {} disk = ((results, before), disk)) {path : String}
    (loads : outcome (load directories path) before disk = ((.ok (), after), disk)) :
    ∃ index, Holds view after path index ∧
      ((∀ other, ReflTransGen (Leads view directories after) index other →
          Complete view directories after other) ↔
        ∀ other, other < before.units.size →
          ReflTransGen (Leads view directories after) index other →
            ¬ Broken view directories after other) ∧
      ((∀ result ∈ results, result = .ok ()) → ∀ other,
        ReflTransGen (Leads view directories after) index other →
          Complete view directories after other) := by
  obtain ⟨calls, recorded⟩ := calls_of_outcomes steady earlier
  have runs := runs_of_outcome steady recorded loads
  have recordedAfter := runs.recorded recorded
  have leaves := runs.leaves
  obtain ⟨index, holds⟩ := leaves.done rfl
  have all : Calls view directories [path] before [.ok ()] after := .cons runs .nil
  have fresh : ∀ index, Complete view directories {} index := fun _ =>
    complete_of_size_le (Nat.zero_le _)
  have accounted := all.accounted (calls.accounted fun index => .inl (fresh index))
  refine ⟨index, holds, ⟨fun complete other _ reached => ?_, fun sound other reached => ?_⟩,
    fun succeeded other _ => ?_⟩
  · exact (complete other reached).not_broken recordedAfter
  · rcases accounted other with complete | ⟨last, further, broken⟩
    · exact complete
    · by_cases inside : last < before.units.size
      · exact absurd broken (sound last inside (reached.trans further))
      · exact absurd broken
          ((leaves.complete rfl last (Nat.le_of_not_lt inside)).not_broken recordedAfter)
  · exact all.complete (calls.complete fresh succeeded) (by simp) other

end Sequences

theorem load_imports_sample : ∃ results before after,
    Steady circularTree (circularTree.view (by decide)) ∧
    outcomes (load []) ["third.yaml"] {} circularTree = ((results, before), circularTree) ∧
    outcome (load [] "first.yaml") before circularTree = ((.ok (), after), circularTree) ∧
    after.units.size = 2 ∧
    ∃ index, Holds (circularTree.view (by decide)) after "first.yaml" index ∧
      ∀ other, ReflTransGen (Leads (circularTree.view (by decide)) [] after) index other →
        Complete (circularTree.view (by decide)) [] after other := by
  have steady := circularTree.steady (by decide)
  let reached := (outcomes (load []) ["third.yaml"] {} circularTree).1.2
  have computed : reached.units.size = 0 ∧
      (outcome (load [] "first.yaml") reached circularTree).1.1.isOk ∧
      (outcome (load [] "first.yaml") reached circularTree).1.2.units.size = 2 := by decide +kernel
  obtain ⟨results, before, went, calls⟩ := exists_calls [] (load [])
    (fun path loader recorded => exists_runs_load steady [] path recorded) ["third.yaml"] .empty
  simp only [reached, went] at computed
  obtain ⟨none, succeeded, size⟩ := computed
  obtain ⟨result, after, loads, _⟩ :=
    exists_runs_load steady [] "first.yaml" (calls.recorded .empty)
  rw [loads] at succeeded size
  cases result with
  | error _ => cases succeeded
  | ok _ =>
    obtain ⟨index, holds, sound, _⟩ := load_imports steady went loads
    exact ⟨results, before, after, steady, went, loads, size, index, holds,
      sound.mpr fun other inside => by omega⟩

/-- A document that imports one that does not exist. -/
def danglingTree : FileTree :=
  ({ working := ["work"] } : FileTree).withFile ["work", "first.yaml"]
    "use:\n  - \x7b file: missing.yaml \x7d\n".toUTF8

/-- After a load that fails for an import, a second load of the same document succeeds, though what
it imports is still missing. -/
theorem load_not_imports : ∃ results before after,
    Steady danglingTree (danglingTree.view (by decide)) ∧
    outcomes (load []) ["first.yaml"] {} danglingTree = ((results, before), danglingTree) ∧
    outcome (load [] "first.yaml") before danglingTree = ((.ok (), after), danglingTree) ∧
    ¬ ∃ index, Holds (danglingTree.view (by decide)) after "first.yaml" index ∧
      ∀ other, ReflTransGen (Leads (danglingTree.view (by decide)) [] after) index other →
        Complete (danglingTree.view (by decide)) [] after other := by
  have steady := danglingTree.steady (by decide)
  let reached := (outcomes (load []) ["first.yaml"] {} danglingTree).1.2
  have computed : (outcome (load [] "first.yaml") reached danglingTree).1.1.isOk ∧
      (outcome (load [] "first.yaml") reached danglingTree).1.2.loaded = [("/work/first.yaml", 0)] ∧
      (outcome (load [] "first.yaml") reached danglingTree).1.2.units.toList.map
        (fun unit => (unit.path, unit.document.imports.map (·.file))) =
          [("first.yaml", ["missing.yaml"])] := by decide +kernel
  have unresolved : (danglingTree.view (by decide)).importPlace? [] "first.yaml" "missing.yaml" =
      none := by decide +kernel
  obtain ⟨results, before, went, calls⟩ := exists_calls [] (load [])
    (fun path loader recorded => exists_runs_load steady [] path recorded) ["first.yaml"] .empty
  simp only [reached, went] at computed
  obtain ⟨succeeded, loaded, units⟩ := computed
  obtain ⟨result, after, loads, _⟩ :=
    exists_runs_load steady [] "first.yaml" (calls.recorded .empty)
  rw [loads] at succeeded loaded units
  cases result with
  | error _ => cases succeeded
  | ok _ =>
    refine ⟨results, before, after, steady, went, loads, ?_⟩
    rintro ⟨index, ⟨place, _, held⟩, complete⟩
    have entry := mem_of_lookup held
    rw [loaded] at entry
    cases List.mem_singleton.mp entry
    obtain ⟨unit, alone, same⟩ := List.map_eq_singleton_iff.mp units
    obtain ⟨path, imports⟩ := Prod.mk.inj same
    obtain ⟨imported, among, file⟩ := List.map_eq_singleton_iff.mp imports
    have found : after.units[0]? = some unit := by
      rw [← Array.getElem?_toList, alone]
      rfl
    obtain ⟨_, _, resolved, _⟩ :=
      complete 0 .refl unit found imported (among ▸ List.mem_singleton_self _)
    rw [path, file, unresolved] at resolved
    cases resolved

end RecordSchema.Loading
