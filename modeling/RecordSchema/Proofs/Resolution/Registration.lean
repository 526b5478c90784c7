import RecordSchema.Proofs.Resolution.Acceptance

/-!
# The order in which record types are registered

Record types get their identifiers in the order in which units declare them: one unit after the other, and
of a package its packages first. Each is registered at the path of its package and with the mark of its
unit, whatever has opened the package before.
-/

set_option autoImplicit false

namespace RecordSchema

open Model Outcome

/-- A record type as a unit declares it. -/
structure Registration where
  path : List String
  included : Bool
  declaration : Declaration.Record

namespace Item

def registration? : Item → Option Registration
  | declared (.package path) (.record included declaration) => some ⟨path, included, declaration⟩
  | _ => none

private theorem registrations_opening (included : Bool) (outer names : List String) :
    (opening included outer names).filterMap registration? = [] := by
  induction names generalizing outer with
  | nil => rfl
  | cons name rest ih =>
    rw [opening, List.filterMap_cons_none rfl]
    exact ih _

private theorem registrations_ofConstant (site : Site) (declarations : List Declaration.Constant) :
    (declarations.map (ofConstant site)).filterMap registration? = [] := by
  refine List.filterMap_eq_nil_iff.mpr fun item listed => ?_
  obtain ⟨_, _, rfl⟩ := List.mem_map.mp listed
  cases site <;> rfl

private theorem registrations_ofEnumeration (site : Site) (declarations : List Declaration.Enumeration) :
    (declarations.map (ofEnumeration site)).filterMap registration? = [] := by
  refine List.filterMap_eq_nil_iff.mpr fun item listed => ?_
  obtain ⟨_, _, rfl⟩ := List.mem_map.mp listed
  cases site <;> rfl

private theorem registrations_ofRecord (included : Bool) (path : List String)
    (declarations : List Declaration.Record) :
    (declarations.flatMap (ofRecord included path)).filterMap registration? =
      declarations.map (⟨path, included, ·⟩) := by
  induction declarations with
  | nil => rfl
  | cons first rest ih =>
    have here : registration? (declared (.package path) (.record included first)) =
        some ⟨path, included, first⟩ := rfl
    rw [List.flatMap_cons, List.filterMap_append, ih, ofRecord, List.filterMap_cons_some here,
      List.filterMap_append, registrations_ofConstant, registrations_ofEnumeration]
    rfl

private theorem registrations_ofPackage {included : Bool} {outer : List String} {name : String}
    (present : (Draft.segments name).isEmpty = false) (comment : Option String) (tags : List String)
    (constants : List Declaration.Constant) (enumerations : List Declaration.Enumeration)
    (packages : List Declaration.Package) (records : List Declaration.Record) :
    (ofPackage included outer (.mk name comment tags constants enumerations packages records)).filterMap
        registration? =
      (ofPackages included (outer ++ Draft.segments name) packages).filterMap registration? ++
        records.map (⟨outer ++ Draft.segments name, included, ·⟩) := by
  rw [ofPackage, if_neg (Bool.not_eq_true _ ▸ present)]
  simp only [List.filterMap_append, registrations_opening, registrations_ofConstant,
    registrations_ofEnumeration, registrations_ofRecord, List.nil_append]

end Item

/-- The record types that units declare, in order. -/
def registrations (units : List SourceUnit) : List Registration :=
  (Item.ofUnits units).filterMap Item.registration?

namespace Draft

private theorem Settles.of_ok {α : Type} {outcome : Except SchemaError α} {items : List Item}
    {holds : α → Prop} {result : α} (settles : Settles outcome items holds)
    (accepted : outcome = .ok result) : holds result := by
  rw [accepted] at settles
  exact settles

/-- How a record type is registered in a model. -/
def registration (model : Model) (pending : Pending RecordId Declaration.Record) : Registration where
  path := model.packageNames (model.record pending.id).package
  included := (model.record pending.id).included
  declaration := pending.declaration

/-- What is registered so far, in the order of identifiers. -/
def registered (draft : Draft) : List Registration :=
  draft.records.toList.map (registration draft.model)

private theorem registration_keeps {before after : Model} (wellScoped : before.WellScoped)
    (keeps : Keeps before after) {pending : Pending RecordId Declaration.Record}
    (inside : pending.id.index < before.records.size) :
    registration after pending = registration before pending := by
  have home : some (Scope.package (after.record pending.id).package) =
      some (.package (before.record pending.id).package) := keeps.home (.record pending.id) inside
  have package := Scope.package.inj (Option.some.inj home)
  have bound := (wellScoped.closed.record inside).package
  rw [registration, registration, package, keeps.packageNames wellScoped bound,
    (keeps.record pending.id inside).1]

private theorem registered_keeps {before after : Draft} (consistent : before.Consistent)
    (keeps : Keeps before.model after.model) (same : after.records = before.records) :
    after.registered = before.registered := by
  rw [registered, registered, same]
  refine List.map_congr_left fun pending waits => ?_
  exact registration_keeps consistent.wellScoped keeps
    (consistent.records pending (Array.mem_toList_iff.mp waits))

private theorem addRecord_registered {package : PackageId} {included : Bool} {draft after : Draft}
    {declaration : Declaration.Record} (consistent : draft.Consistent)
    (inside : package.index < draft.model.packages.size)
    (accepted : addRecord package included draft declaration = .ok after) :
    after.registered =
      draft.registered ++ [⟨draft.model.packageNames package, included, declaration⟩] := by
  have whole := addRecord_grows consistent inside accepted
  obtain ⟨named, complete, one, later, same, rfl⟩ := addRecord_ok consistent inside accepted
  obtain ⟨first, bound, -⟩ := nameRecord_grows consistent inside one
  have earlier : draft.records.toList.map (registration complete.model) = draft.registered :=
    List.map_congr_left fun pending waits => registration_keeps consistent.wellScoped whole.keeps
      (consistent.records pending (Array.mem_toList_iff.mp waits))
  have last : registration complete.model ⟨⟨draft.model.records.size⟩, declaration,
      draft.model.packagePath package ++ "." ++ declaration.name⟩ =
        ⟨draft.model.packageNames package, included, declaration⟩ := by
    rw [registration_keeps first.consistent.wellScoped later.keeps bound]
    obtain ⟨record, name, rfl, mark, _, _, _, _, _, rfl⟩ := nameRecord_ok one
    have view : (listIn (draft.model.pushRecord record) (.package record.package) declaration.name
        (.record ⟨draft.model.records.size⟩) id).record ⟨draft.model.records.size⟩ = record := by
      change (draft.model.pushRecord record).record ⟨draft.model.records.size⟩ = record
      simp
    rw [registration, view, mark, first.keeps.packageNames consistent.wellScoped inside]
  have records : named.records = draft.records := by
    obtain ⟨_, _, _, _, _, _, _, _, _, rfl⟩ := nameRecord_ok one
    rfl
  change (complete.records.push _).toList.map (registration complete.model) = _
  rw [Array.toList_push, List.map_append, same, records, earlier, List.map_singleton, last]

private theorem addRecords_registered {package : PackageId} {included : Bool}
    {declarations : List Declaration.Record} {draft after : Draft} (consistent : draft.Consistent)
    (inside : package.index < draft.model.packages.size)
    (accepted : declarations.foldlM (addRecord package included) draft = .ok after) :
    after.registered =
      draft.registered ++ declarations.map (⟨draft.model.packageNames package, included, ·⟩) := by
  induction declarations generalizing draft with
  | nil =>
    cases accepted
    exact (List.append_nil _).symm
  | cons first rest ih =>
    rw [List.foldlM_cons] at accepted
    obtain ⟨between, one, others⟩ := bind_ok accepted
    have grows := addRecord_grows consistent inside one
    have bound := Nat.lt_of_lt_of_le inside grows.census.packages
    rw [ih grows.consistent bound others, addRecord_registered consistent inside one,
      grows.keeps.packageNames consistent.wellScoped inside, List.append_assoc]
    rfl

private theorem addValues_follows {draft between after : Draft} {items : List Item}
    (represents : Represents draft items) {id : PackageId}
    (inside : id.index < draft.model.packages.size) {path : String}
    {constants : List Declaration.Constant} {enumerations : List Declaration.Enumeration}
    (constantsNamed : constants.foldlM (addConstant (.package id) path) draft = .ok between)
    (enumerationsNamed : enumerations.foldlM (addEnumeration (.package id) path) between = .ok after) :
    ∃ named, Follows draft named after ∧ after.records = draft.records := by
  have scope : (Scope.package id).reference.InRange draft.model.census := inside
  have one := (addConstants_settles represents scope path constants).of_ok constantsNamed
  have there := (one.scope represents.wellNamed scope).1
  have two := (addEnumerations_settles one.represents there path enumerations).of_ok enumerationsNamed
  exact ⟨_, one.trans two,
    (addEnumerations_records enumerationsNamed).trans (addConstants_records constantsNamed)⟩

mutual

private theorem addPackageDeclaration_registered {included : Bool} {parent : Option PackageId}
    {draft after : Draft} {items : List Item} (represents : Represents draft items)
    (inside : ∀ outer ∈ parent, outer.index < draft.model.packages.size) :
    (declaration : Declaration.Package) →
      addPackageDeclaration included parent draft declaration = .ok after →
      after.registered = draft.registered ++
        (Item.ofPackage included (draft.model.pathTo parent) declaration).filterMap Item.registration?
  | .mk name comment tags constants enumerations packages records, accepted => by
    rw [addPackageDeclaration] at accepted
    obtain ⟨⟨opened, innermost⟩, segmentsOpened, accepted⟩ := bind_ok accepted
    have first := (openSegments_settles represents inside included (segments name)).of_ok segmentsOpened
    cases innermost with
    | none => cases accepted
    | some id =>
      simp only [bind, Except.bind] at accepted
      split at accepted
      · cases accepted
      · rename_i present
        obtain ⟨withConstants, constantsNamed, accepted⟩ := bind_ok accepted
        obtain ⟨withEnumerations, enumerationsNamed, accepted⟩ := bind_ok accepted
        obtain ⟨withPackages, packagesNamed, recordsNamed⟩ := bind_ok accepted
        have opens := first.follows
        have annotates := annotatePackage_follows opens.represents id comment tags
        have there := (annotates.package opens.represents.wellNamed (first.inside id rfl)).1
        obtain ⟨named, follows, same⟩ :=
          addValues_follows annotates.represents there constantsNamed enumerationsNamed
        have values := (opens.trans annotates).trans follows
        have before := registered_keeps represents.consistent values.keeps same
        have within := (annotates.trans follows).package opens.represents.wellNamed (first.inside id rfl)
        have path : withEnumerations.model.packageNames id = draft.model.pathTo parent ++ segments name :=
          within.2.trans first.path
        have bound : ∀ outer ∈ some id, outer.index < withEnumerations.model.packages.size := by
          rintro _ ⟨⟩
          exact within.1
        have nested := addPackageDeclarations_registered values.represents bound packages packagesNamed
        have three := (addPackageDeclarations_settles values.represents bound packages).of_ok packagesNamed
        obtain ⟨last, names⟩ := three.package values.represents.wellNamed within.1
        rw [addRecords_registered three.represents.consistent last recordsNamed, nested, before, names,
          pathTo, path, Item.registrations_ofPackage (Bool.eq_false_iff.mpr present), List.append_assoc]

private theorem addPackageDeclarations_registered {included : Bool} {parent : Option PackageId}
    {draft after : Draft} {items : List Item} (represents : Represents draft items)
    (inside : ∀ outer ∈ parent, outer.index < draft.model.packages.size) :
    (declarations : List Declaration.Package) →
      addPackageDeclarations included parent draft declarations = .ok after →
      after.registered = draft.registered ++
        (Item.ofPackages included (draft.model.pathTo parent) declarations).filterMap Item.registration?
  | [], accepted => by
    rw [addPackageDeclarations] at accepted
    cases accepted
    rw [Item.ofPackages]
    exact (List.append_nil _).symm
  | declaration :: rest, accepted => by
    rw [addPackageDeclarations] at accepted
    obtain ⟨extended, one, others⟩ := bind_ok accepted
    have follows := (addPackageDeclaration_settles represents inside declaration).of_ok one
    have outside : ∀ outer ∈ parent, outer.index < extended.model.packages.size :=
      fun outer member => (follows.package represents.wellNamed (inside outer member)).1
    have same : extended.model.pathTo parent = draft.model.pathTo parent := by
      cases parent with
      | none => rfl
      | some outer => exact (follows.package represents.wellNamed (inside outer rfl)).2
    rw [Item.ofPackages, List.filterMap_append, ← List.append_assoc,
      ← addPackageDeclaration_registered represents inside declaration one, ← same]
    exact addPackageDeclarations_registered follows.represents outside rest others

end

private theorem addUnit_registered {draft after : Draft} {items : List Item}
    (represents : Represents draft items)
    {source : SourceUnit} (accepted : addUnit draft source = .ok after) :
    after.registered = draft.registered ++ (Item.ofUnit source).filterMap Item.registration? := by
  simp only [addUnit] at accepted
  obtain ⟨extended, declared, accepted⟩ := bind_ok accepted
  have registered : extended.registered =
      draft.registered ++ (Item.ofUnit source).filterMap Item.registration? :=
    addPackageDeclarations_registered represents (fun outer member => by cases member) _ declared
  split at accepted
  · cases accepted
    exact registered
  · cases accepted
    have follows := (addPackageDeclarations_settles represents (fun outer member => by cases member)
      source.document.packages).of_ok declared
    have grows := addHeaders_grows follows.represents.consistent
      (source.document.imports.flatMap (·.headers))
    rw [← registered]
    exact registered_keeps follows.represents.consistent grows.keeps rfl

/-- Record types are registered in the order in which they are declared. -/
theorem ofUnits_registered {units : List SourceUnit} {draft : Draft}
    (accepted : ofUnits units = .ok draft) : draft.registered = registrations units := by
  have loop := foldlM_invariant accepted
    (fun seen state => Represents state (Item.ofUnits seen) ∧ state.registered = registrations seen)
    ⟨represents_empty, rfl⟩ <| by
      rintro seen source rest state after - ⟨represents, registered⟩ taken
      have follows := (addUnit_settles represents source).of_ok taken
      have items : Item.ofUnits (seen ++ [source]) = Item.ofUnits seen ++ Item.ofUnit source := by
        simp [Item.ofUnits]
      refine ⟨items ▸ follows.represents, ?_⟩
      rw [registrations, items, List.filterMap_append, addUnit_registered represents taken, registered]
      rfl
  exact loop.2

end Draft

end RecordSchema
