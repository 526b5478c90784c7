import RecordSchema.Proofs.Build
import RecordSchema.Proofs.Resolution.Acceptance

/-!
# What is included

A record type is included if its unit is, and a package is included if no primary unit opens it, be
it under its own name or on the way to a dotted or nested one. So a record type from a primary unit
has no included package around it, whatever units open the same packages again.
-/

set_option autoImplicit false

namespace RecordSchema

open Model

namespace Item

/-- The mark of the unit that an item comes from, where it tells. -/
def mark? : Item → Option Bool
  | package _ included => some included
  | declared _ (.record included _) => some included
  | _ => none

/-- Items that come from one unit, below a path: they have its mark, and the packages on the way from
the path to a record type are open. -/
structure Below (included : Bool) (outer : List String) (items : List Item) : Prop where
  marks : ∀ item ∈ items, ∀ mark ∈ item.mark?, mark = included
  opened : ∀ path mark declaration, declared (.package path) (.record mark declaration) ∈ items →
    outer <+: path ∧ ∀ front, outer <+: front → front <+: path → front ≠ outer →
      package front included ∈ items

private theorem opening_marks {included : Bool} {outer names : List String} :
    ∀ item ∈ opening included outer names, ∃ path, item = package path included := by
  induction names generalizing outer with
  | nil => simp [opening]
  | cons name rest ih =>
    rw [opening]
    exact List.forall_mem_cons.mpr ⟨⟨_, rfl⟩, ih⟩

private theorem mem_opening {included : Bool} {outer names front : List String} (starts : outer <+: front)
    (ends : front <+: outer ++ names) (different : front ≠ outer) :
    package front included ∈ opening included outer names := by
  induction names generalizing outer with
  | nil =>
    rw [List.append_nil] at ends
    exact absurd (ends.eq_of_length_le starts.length_le) different
  | cons name rest ih =>
    rw [opening]
    by_cases here : front = outer ++ [name]
    · simp [here]
    · refine List.mem_cons_of_mem _ (ih ?_ (by simpa using ends) here)
      obtain ⟨tail, rfl⟩ := starts
      cases tail with
      | nil => exact absurd (List.append_nil outer) different
      | cons first tail =>
        rw [List.prefix_append_right_inj] at ends
        obtain ⟨rfl, _⟩ := List.cons_prefix_cons.mp ends
        simp

namespace Below

variable {included : Bool} {outer : List String} {items more : List Item}

theorem append (first : Below included outer items) (second : Below included outer more) :
    Below included outer (items ++ more) where
  marks item member := by
    rcases List.mem_append.mp member with one | later
    · exact first.marks item one
    · exact second.marks item later
  opened path mark declaration member := by
    rcases List.mem_append.mp member with one | later
    · obtain ⟨starts, opened⟩ := first.opened path mark declaration one
      exact ⟨starts, fun front begins ends different =>
        List.mem_append_left _ (opened front begins ends different)⟩
    · obtain ⟨starts, opened⟩ := second.opened path mark declaration later
      exact ⟨starts, fun front begins ends different =>
        List.mem_append_right _ (opened front begins ends different)⟩

/-- Items without marks are below everything. -/
theorem of_unmarked (unmarked : ∀ item ∈ items, item.mark? = none) :
    Below included outer items where
  marks item member mark found := by
    rw [unmarked item member] at found
    cases found
  opened path mark declaration member := by
    cases unmarked _ member

theorem flatMap {α : Type} {declarations : List α} {brings : α → List Item}
    (each : ∀ declaration ∈ declarations, Below included outer (brings declaration)) :
    Below included outer (declarations.flatMap brings) := by
  induction declarations with
  | nil => exact of_unmarked fun item member => by cases member
  | cons first rest ih =>
    obtain ⟨one, others⟩ := List.forall_mem_cons.mp each
    exact one.append (ih others)

/-- What is below a dotted name is below the path where the name is opened. -/
theorem opening {names : List String} (below : Below included (outer ++ names) items) :
    Below included outer (opening included outer names ++ items) where
  marks item member := by
    rcases List.mem_append.mp member with one | later
    · obtain ⟨path, rfl⟩ := opening_marks item one
      intro mark found
      cases found
      rfl
    · exact below.marks item later
  opened path mark declaration member := by
    rcases List.mem_append.mp member with one | later
    · obtain ⟨_, same⟩ := opening_marks _ one
      cases same
    · obtain ⟨around, opened⟩ := below.opened path mark declaration later
      refine ⟨(List.prefix_append ..).trans around, fun front starts ends different => ?_⟩
      rcases List.prefix_or_prefix_of_prefix ends around with short | long
      · exact List.mem_append_left _ (mem_opening starts short different)
      · by_cases same : front = outer ++ names
        · exact List.mem_append_left _ (mem_opening starts (same ▸ List.prefix_refl _) different)
        · exact List.mem_append_right _ (opened front long ends same)

end Below

private theorem ofRecord_below (included : Bool) (path : List String) (declaration : Declaration.Record) :
    Below included path (ofRecord included path declaration) := by
  rw [ofRecord, ← List.singleton_append]
  refine .append ?_ (.of_unmarked ?_)
  · constructor
    · intro item member mark found
      cases List.mem_singleton.mp member
      cases found
      rfl
    · intro other mark same member
      cases List.mem_singleton.mp member
      exact ⟨List.prefix_refl _, fun front starts ends different =>
        absurd (ends.eq_of_length_le starts.length_le) different⟩
  · intro item member
    rcases List.mem_append.mp member with constant | enumeration
    · obtain ⟨_, _, rfl⟩ := List.mem_map.mp constant
      rfl
    · obtain ⟨_, _, rfl⟩ := List.mem_map.mp enumeration
      rfl

mutual

private theorem ofPackage_below (included : Bool) (outer : List String) :
    (declaration : Declaration.Package) →
      Below included outer (ofPackage included outer declaration)
  | .mk name _ _ constants enumerations packages records => by
    rw [ofPackage]
    split
    · exact .of_unmarked (by simp [mark?])
    · refine .opening (.append (.of_unmarked ?_) (.append (.of_unmarked ?_) (.append ?_ ?_)))
      · simp [ofConstant, mark?]
      · simp [ofEnumeration, mark?]
      · exact ofPackages_below included _ packages
      · exact .flatMap fun declaration _ => ofRecord_below included _ declaration

private theorem ofPackages_below (included : Bool) (outer : List String) :
    (declarations : List Declaration.Package) →
      Below included outer (ofPackages included outer declarations)
  | [] => by
    rw [ofPackages]
    exact .of_unmarked fun item member => by cases member
  | declaration :: rest => by
    rw [ofPackages]
    exact (ofPackage_below included outer declaration).append (ofPackages_below included outer rest)

end

end Item

/-- A unit opens a package: it, or a package in it, is mentioned there. -/
def SourceUnit.Opens (source : SourceUnit) (path : List String) : Prop :=
  .package path source.included ∈ Item.ofUnit source

/-- A unit declares a record type of a name in a package. -/
def SourceUnit.Declares (source : SourceUnit) (path : List String) (name : String) : Prop :=
  ∃ declaration : Declaration.Record, declaration.name = name ∧
    .declared (.package path) (.record source.included declaration) ∈ Item.ofUnit source

/-- A unit opens all packages around what it declares. -/
theorem SourceUnit.Declares.opens {source : SourceUnit} {path front : List String} {name : String}
    (declares : source.Declares path name) (around : front <+: path) (nonempty : front ≠ []) :
    source.Opens front := by
  obtain ⟨declaration, _, member⟩ := declares
  obtain ⟨_, opened⟩ :=
    (Item.ofPackages_below source.included [] source.document.packages).opened path _ _ member
  exact opened front (List.nil_prefix) around nonempty

/-- Marks stand for what primary units say. -/
structure Model.Inclusion (units : List SourceUnit) (model : Model) : Prop where
  package : ∀ id : PackageId, id.index < model.packages.size →
    ((model.package id).included = false ↔
      ∃ source ∈ units, source.included = false ∧ source.Opens (model.packageNames id))
  record : ∀ id : RecordId, id.index < model.records.size →
    ((model.record id).included = false ↔
      ∃ source ∈ units, source.included = false ∧
        source.Declares (model.packageNames (model.record id).package) (model.record id).name)

/-- No package around a record type from a primary unit is included. -/
theorem Model.Inclusion.enclosing {units : List SourceUnit} {model : Model}
    (inclusion : model.Inclusion units) (closed : model.Closed) {id : RecordId}
    (inside : id.index < model.records.size) (primary : (model.record id).included = false) :
    ∀ outer ∈ model.enclosing (model.record id).package, (model.package outer).included = false := by
  intro outer around
  obtain ⟨source, member, mark, declares⟩ := (inclusion.record id inside).mp primary
  have bound : outer.index < model.packages.size :=
    closed.enclosing (closed.record inside).package outer around
  exact (inclusion.package outer bound).mpr ⟨source, member, mark,
    declares.opens (prefix_of_enclosing around) (packageNames_ne_nil outer)⟩

/-- A draft has the marks of the units that it represents. -/
theorem Draft.Represents.inclusion {units : List SourceUnit} {draft : Draft}
    (represents : draft.Represents (Item.ofUnits units)) : draft.model.Inclusion units := by
  have primary : ∀ item : Item, item.mark? = some false →
      (item ∈ Item.ofUnits units ↔
        ∃ source ∈ units, source.included = false ∧ item ∈ Item.ofUnit source) := by
    intro item mark
    rw [Item.ofUnits, List.mem_flatMap]
    refine exists_congr fun source => and_congr_right fun _ => ⟨fun held => ⟨?_, held⟩, And.right⟩
    have below := Item.ofPackages_below source.included [] source.document.packages
    exact (below.marks item held false mark).symm
  constructor
  case package =>
    intro id inside
    rw [represents.primary id inside, primary _ rfl]
    refine exists_congr fun source => and_congr_right fun _ => and_congr_right fun mark => ?_
    rw [SourceUnit.Opens, mark]
  case record =>
    intro id inside
    have declared : (draft.model.record id).included = false ↔
        ∃ declaration : Declaration.Record, declaration.name = (draft.model.record id).name ∧
          .declared (.package (draft.model.packageNames (draft.model.record id).package))
            (.record false declaration) ∈ Item.ofUnits units := by
      rw [represents.record_iff]
      constructor
      · exact fun mark => ⟨id, inside, rfl, rfl, mark⟩
      · rintro ⟨other, bound, path, name, mark⟩
        have closed := represents.wellNamed.closed
        have package := represents.wellNamed.packageNames_injective (closed.record bound).package
          (closed.record inside).package path
        have same : Member.record other = .record id := represents.wellNamed.member_eq bound inside
          (by rw [home, home, package]) name
        rw [← Member.record.inj same, mark]
    rw [declared]
    constructor
    · rintro ⟨declaration, name, held⟩
      obtain ⟨source, member, mark, said⟩ := (primary _ rfl).mp held
      exact ⟨source, member, mark, declaration, name, mark ▸ said⟩
    · rintro ⟨source, member, mark, declaration, name, said⟩
      rw [mark] at said
      exact ⟨declaration, name, (primary _ rfl).mpr ⟨source, member, mark, said⟩⟩

/-- Names and places decide which packages there are around one, and what its path is. -/
theorem Model.Retains.enclosing {view : Record → Record} {before after : Model}
    (same : Retains view before after) (id : PackageId) :
    after.enclosing id = before.enclosing id := by
  have package : ∀ id, after.package id = before.package id := fun id => by
    rw [Model.package, same.packages, Model.package]
  fun_induction before.enclosing id with
  | case1 id root => rw [Model.enclosing, package, root]
  | case2 id parent found before ih =>
    rw [Model.enclosing, package, found]
    simp [before, ih]
  | case3 id parent found after =>
    rw [Model.enclosing, package, found]
    simp [after]

theorem Model.Retains.packageNames {view : Record → Record} {before after : Model}
    (same : Retains view before after) (id : PackageId) :
    after.packageNames id = before.packageNames id := by
  have package : ∀ id, after.package id = before.package id := fun id => by
    rw [Model.package, same.packages, Model.package]
  simp only [Model.packageNames, packageChain, same.enclosing, package]

section Retains

variable {before after : Model} (kept : Retains Record.named before after)

include kept

theorem Model.Retains.home (member : Member) : after.home member = before.home member := by
  cases member with
  | package id => rw [Model.home, Model.package, kept.packages]; rfl
  | record id => rw [Model.home, kept.field Record.package fun _ => rfl]; rfl
  | enumeration id => rw [Model.home, (kept.enumeration id).2]; rfl
  | constant id => rw [Model.home, (kept.constant id).2]; rfl

theorem Model.Retains.memberName (member : Member) :
    after.memberName member = before.memberName member := by
  cases member with
  | package id => rw [Model.memberName, Model.package, kept.packages]; rfl
  | record id => rw [Model.memberName, kept.field Record.name fun _ => rfl]; rfl
  | enumeration id => rw [Model.memberName, (kept.enumeration id).1]; rfl
  | constant id => rw [Model.memberName, (kept.constant id).1]; rfl

theorem Model.Retains.inRange (member : Member) :
    member.reference.InRange after.census ↔ member.reference.InRange before.census := by
  cases member with
  | package id => exact iff_of_eq (congrArg (fun items => id.index < Array.size items) kept.packages)
  | record id => exact iff_of_eq (congrArg (id.index < ·) kept.records)
  | enumeration id => exact iff_of_eq (congrArg (id.index < ·) kept.enumerations)
  | constant id => exact iff_of_eq (congrArg (id.index < ·) kept.constants)

end Retains

theorem Stages.represents {units : List SourceUnit} {built : Built} (stages : Stages units built) :
    stages.draft.Represents (Item.ofUnits units) := by
  have settled := Draft.ofUnits_settles units
  rw [stages.named] at settled
  exact settled

/-- The model that is built has the marks of its units. -/
theorem Stages.inclusion {units : List SourceUnit} {built : Built} (stages : Stages units built) :
    built.model.Inclusion units := by
  have inclusion := stages.represents.inclusion
  have same := stages.retained
  have package : ∀ id, built.model.package id = stages.draft.model.package id := fun id => by
    rw [Model.package, same.packages, Model.package]
  constructor
  case package =>
    intro id inside
    rw [same.packages] at inside
    rw [package, same.packageNames]
    exact inclusion.package id inside
  case record =>
    intro id inside
    rw [same.records] at inside
    rw [same.field Record.included fun _ => rfl, same.field Record.package fun _ => rfl,
      same.field Record.name fun _ => rfl, same.packageNames]
    exact inclusion.record id inside

end RecordSchema
