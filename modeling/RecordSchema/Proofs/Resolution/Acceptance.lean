import RecordSchema.Proofs.Resolution.Representation

/-!
# Which units are accepted

The pass over names takes one operation after the other. Each goes through if and only if its items
fit to those before, so units are accepted if and only if all of their items fit together, and the
draft that is left represents them.
-/

set_option autoImplicit false

namespace RecordSchema.Draft

open Model Outcome

/-- An outcome that decides whether items fit: a result has what it should have, and a refusal means
that they do not. -/
def Settles {α : Type} (outcome : Except SchemaError α) (items : List Item) (holds : α → Prop) :
    Prop :=
  match outcome with
  | .ok result => holds result
  | .error _ => ¬ Fits items

/-- A later draft that represents the items. -/
structure Follows (start : Draft) (items : List Item) (after : Draft) : Prop where
  represents : Represents after items
  keeps : Keeps start.model after.model

theorem Follows.trans {first middle last : Draft} {items more : List Item}
    (before : Follows first items middle) (after : Follows middle more last) :
    Follows first more last :=
  ⟨after.represents, before.keeps.trans after.keeps⟩

namespace Settles

variable {α β : Type} {items more : List Item}

/-- An operation that is accepted on a condition that the items meet if they fit. -/
theorem of_accepts {outcome : Except SchemaError α} {holds : α → Prop} {condition : Prop}
    (accepts : (∃ result, outcome = .ok result) ↔ condition) (fits : Fits items → condition)
    (accepted : ∀ result, outcome = .ok result → condition → holds result) :
    Settles outcome items holds := by
  cases same : outcome with
  | ok result => exact accepted result same (accepts.mp ⟨result, same⟩)
  | error error =>
    intro fit
    obtain ⟨result, other⟩ := accepts.mpr (fits fit)
    rw [same] at other
    cases other

private theorem bind_self {computation : Except SchemaError α} {next : α → Except SchemaError β}
    {holds : α → Prop} {ends : β → Prop} (first : Settles computation items holds)
    (later : ∀ result, holds result → Settles (next result) items ends) :
    Settles (computation >>= next) items ends := by
  cases computation with
  | ok result => exact later result first
  | error error => exact first

theorem of_append {outcome : Except SchemaError α} {holds : α → Prop}
    (settles : Settles outcome items holds) : Settles outcome (items ++ more) holds := by
  cases outcome with
  | ok result => exact settles
  | error error => exact fun fits => settles fits.of_append

theorem bind {computation : Except SchemaError α} {next : α → Except SchemaError β}
    {holds : α → Prop} {ends : β → Prop} (first : Settles computation items holds)
    (later : ∀ result, holds result → Settles (next result) (items ++ more) ends) :
    Settles (computation >>= next) (items ++ more) ends :=
  first.of_append.bind_self later

theorem imp {outcome : Except SchemaError α} {holds ends : α → Prop}
    (settles : Settles outcome items holds) (later : ∀ result, holds result → ends result) :
    Settles outcome items ends := by
  cases outcome with
  | ok result => exact later result settles
  | error error => exact settles

theorem map {outcome : Except SchemaError α} {change : α → β} {holds : β → Prop}
    (settles : Settles outcome items fun result => holds (change result)) :
    Settles (outcome.map change) items holds := by
  cases outcome with
  | ok result => exact settles
  | error error => exact settles

/-- A fold of operations with the items that each of them brings. -/
theorem foldlM {declarations : List α} {step : Draft → α → Except SchemaError Draft}
    (brings : α → List Item) {start : Draft} (represents : Represents start items)
    (steps : ∀ declaration ∈ declarations, ∀ state seen, Follows start seen state →
      Settles (step state declaration) (seen ++ brings declaration)
        (Follows state (seen ++ brings declaration))) :
    Settles (declarations.foldlM step start) (items ++ declarations.flatMap brings)
      (Follows start (items ++ declarations.flatMap brings)) := by
  have loop : ∀ (remaining : List α) (state : Draft) (seen : List Item),
      (∀ declaration ∈ remaining, declaration ∈ declarations) → Follows start seen state →
        Settles (remaining.foldlM step state) (seen ++ remaining.flatMap brings)
          (Follows start (seen ++ remaining.flatMap brings)) := by
    intro remaining
    induction remaining with
    | nil =>
      intro state seen _ follows
      rw [List.flatMap_nil, List.append_nil]
      exact follows
    | cons declaration rest ih =>
      intro state seen among follows
      rw [List.foldlM_cons, List.flatMap_cons, ← List.append_assoc]
      refine bind (steps declaration (among _ List.mem_cons_self) state seen follows) ?_
      intro after one
      exact ih after _ (fun other member => among other (List.mem_cons_of_mem _ member))
        (follows.trans one)
  exact loop declarations start items (fun _ member => member) ⟨represents, .refl _⟩

end Settles

/-!
## Packages
-/

theorem lookup_map_snd {α β : Type} (change : α → β) (entries : List (String × α)) (name : String) :
    (entries.map fun entry => (entry.1, change entry.2)).lookup name =
      (entries.lookup name).map change := by
  induction entries with
  | nil => rfl
  | cons entry rest ih =>
    rw [List.map_cons, List.lookup_cons, List.lookup_cons, ih]
    split <;> rfl

/-- What stands under the name of a package that is opened. -/
theorem packageNamed_cases (model : Model) (parent : Option PackageId) (name : String) :
    (packageNamed model parent name = .ok none ∧
      (model.entries (parent.map .package)).lookup name = none) ∨
    (∃ id, packageNamed model parent name = .ok (some id) ∧
      (model.entries (parent.map .package)).lookup name = some (.package id)) ∨
    ∃ member error, packageNamed model parent name = .error error ∧
      (model.entries (parent.map .package)).lookup name = some member ∧
        ∀ id, member ≠ .package id := by
  cases parent with
  | none =>
    simp only [packageNamed, Option.map_none, entries, lookup_map_snd]
    cases model.roots.lookup name with
    | none => exact .inl ⟨rfl, rfl⟩
    | some id => exact .inr (.inl ⟨id, rfl, rfl⟩)
  | some outer =>
    simp only [packageNamed, Option.map_some, entries]
    cases (model.package outer).members.lookup name with
    | none => exact .inl ⟨rfl, rfl⟩
    | some member =>
      cases member with
      | package id => exact .inr (.inl ⟨id, rfl, rfl⟩)
      | record id | enumeration id | constant id =>
        exact .inr (.inr ⟨_, _, rfl, rfl, fun id same => by cases same⟩)

private theorem addPackage_included (model : Model) {parent : Option PackageId}
    (outside : ∀ outer ∈ parent, outer.index < model.packages.size) (name : String)
    (included : Bool) :
    ((addPackage model parent name included).1.package ⟨model.packages.size⟩).included =
      included := by
  cases parent with
  | none =>
    rw [addPackage_none]
    change ((model.pushPackage { name, included }).package ⟨model.packages.size⟩).included = included
    rw [package_pushPackage, if_pos rfl]
  | some outer =>
    have different : outer ≠ ⟨model.packages.size⟩ := by
      rintro rfl
      exact Nat.lt_irrefl _ (outside _ rfl)
    rw [addPackage_some, package_modifyPackage, if_neg (fun same => different same.1),
      package_pushPackage, if_pos rfl]

private theorem addPackage_id (model : Model) (parent : Option PackageId) (name : String)
    (included : Bool) :
    (addPackage model parent name included).2 = ⟨model.packages.size⟩ := by
  cases parent <;> rfl

/-- What opening a package leaves: it is there, at its path. -/
structure Opened (start : Draft) (items : List Item) (path : List String) (model : Model)
    (id : PackageId) : Prop where
  follows : Follows start items { start with model }
  inside : id.index < model.packages.size
  path : model.packageNames id = path

private theorem addPackage_opened {draft : Draft} {items : List Item} (represents : Represents draft items)
    {parent : Option PackageId} (inside : ∀ outer ∈ parent, outer.index < draft.model.packages.size)
    {name : String} {included : Bool}
    (free : (draft.model.entries (parent.map .package)).lookup name = none) :
    Opened draft (items ++ [.package (draft.model.pathTo parent ++ [name]) included])
      (draft.model.pathTo parent ++ [name]) (addPackage draft.model parent name included).1
      (addPackage draft.model parent name included).2 := by
  rw [addPackage_id]
  have step := addPackage_names draft.model inside name included
  have grows := addPackage_grows represents.consistent inside name included
  have wellNamed := represents.wellNamed.naming step grows.consistent.wellScoped.closed free
  have bound := addPackage_inside draft.model parent name included
  rw [addPackage_id] at bound
  have outer : (addPackage draft.model parent name included).1.pathTo parent =
      draft.model.pathTo parent := by
    cases parent with
    | none => rfl
    | some id => exact step.keeps.packageNames represents.wellNamed.toWellScoped (inside id rfl)
  have path : (addPackage draft.model parent name included).1.packageNames
      ⟨draft.model.packages.size⟩ = draft.model.pathTo parent ++ [name] := by
    have home : ((addPackage draft.model parent name included).1.package
        ⟨draft.model.packages.size⟩).parent = parent := by
      have same := step.home
      rw [Model.home] at same
      exact Option.map_injective (fun _ _ => Scope.package.inj) same
    rw [wellNamed.packageNames_eq bound, home, outer]
    exact congrArg (fun last => _ ++ [last]) step.named
  have unopened : ∀ flag, .package (draft.model.pathTo parent ++ [name]) flag ∉ items := by
    intro flag opened
    obtain ⟨id, old, same⟩ := (represents.packages _).mp ⟨flag, opened⟩
    rw [← step.keeps.packageNames represents.wellNamed.toWellScoped old, ← path] at same
    have equal := wellNamed.packageNames_injective
      (Nat.lt_of_lt_of_le old step.keeps.census.packages) bound same
    rw [equal] at old
    exact Nat.lt_irrefl _ old
  refine ⟨⟨represents.opened step.keeps grows.consistent wellNamed ?_ ?_ ?_ ?_ bound path ?_ ?_,
    step.keeps⟩, bound, path⟩
  · refine (represents.fits_opened inside).mpr fun member found => ?_
    rw [free] at found
    cases found
  · cases parent <;> rfl
  · cases parent <;> rfl
  · cases parent <;> rfl
  · intro other present different
    rcases step.items (.package other) present with old | new
    · exact ⟨old, step.included other old⟩
    · exact absurd (Member.package.inj new) different
  · rw [addPackage_included draft.model inside]
    simp [unopened]

/-- Where the package is there, opening it changes its mark at most. -/
theorem openPackage_present {draft : Draft} {items : List Item} (represents : Represents draft items)
    {parent : Option PackageId} (inside : ∀ outer ∈ parent, outer.index < draft.model.packages.size)
    {name : String} {found : PackageId}
    (named : packageNamed draft.model parent name = .ok (some found))
    (held : (draft.model.entries (parent.map .package)).lookup name = some (.package found))
    (included : Bool) : ∃ model, openPackage draft.model parent name included = .ok (model, found) ∧
      Opened draft (items ++ [.package (draft.model.pathTo parent ++ [name]) included])
        (draft.model.pathTo parent ++ [name]) model found := by
  obtain ⟨old, home, same⟩ := represents.wellNamed.lookup_eq_some_iff.mp held
  have path : draft.model.packageNames found = draft.model.pathTo parent ++ [name] := by
    have nested : (draft.model.package found).parent = parent :=
      Option.map_injective (fun _ _ => Scope.package.inj) home
    rw [represents.wellNamed.packageNames_eq old, nested]
    exact congrArg (fun last => _ ++ [last]) same
  have fit : Fits (items ++ [.package (draft.model.pathTo parent ++ [name]) included]) := by
    refine (represents.fits_opened inside).mpr fun member other => ?_
    rw [held] at other
    exact ⟨found, (Option.some.inj other).symm⟩
  have outcome : openPackage draft.model parent name included =
      if included then .ok (draft.model, found)
      else .ok (draft.model.modifyPackage found fun current =>
        { current with included := false }, found) := by
    rw [openPackage, named]
    rfl
  cases included with
  | true =>
    refine ⟨_, outcome, ⟨represents.opened (.refl _) represents.consistent represents.wellNamed fit
      rfl rfl rfl old path (fun other bound _ => ⟨bound, rfl⟩) ?_, .refl _⟩, old, path⟩
    rw [represents.primary found old, path]
    simp
  | false =>
    obtain ⟨grows, bound⟩ := openPackage_grows represents.consistent inside (outcome.trans rfl)
    have links : SameLinks draft.model
        (draft.model.modifyPackage found fun current => { current with included := false }) :=
      .modifyPackage _ found (fun _ => rfl) fun _ => rfl
    have wellNamed := represents.wellNamed.of_sameLists links.toSameLists
      grows.consistent.wellScoped.closed grows.keeps.memberName
    have here := (grows.keeps.packageNames represents.wellNamed.toWellScoped old).trans path
    refine ⟨_, outcome, ⟨represents.opened grows.keeps grows.consistent wellNamed fit rfl rfl rfl
      bound here ?_ ?_, grows.keeps⟩, bound, here⟩
    · intro other present different
      refine ⟨by simpa [modifyPackage] using present, ?_⟩
      rw [package_modifyPackage, if_neg fun same => different same.1.symm]
    · rw [package_modifyPackage, if_pos ⟨rfl, old⟩]
      simp

private theorem openPackage_settles {draft : Draft} {items : List Item}
    (represents : Represents draft items)
    {parent : Option PackageId} (inside : ∀ outer ∈ parent, outer.index < draft.model.packages.size)
    (name : String) (included : Bool) :
    Settles (openPackage draft.model parent name included)
      (items ++ [.package (draft.model.pathTo parent ++ [name]) included])
      fun (model, id) =>
        Opened draft (items ++ [.package (draft.model.pathTo parent ++ [name]) included])
          (draft.model.pathTo parent ++ [name]) model id := by
  rcases packageNamed_cases draft.model parent name with ⟨named, free⟩ | ⟨found, named, held⟩ |
    ⟨member, error, named, held, other⟩
  · have outcome : openPackage draft.model parent name included =
        .ok (addPackage draft.model parent name included) := by
      rw [openPackage, named]
      rfl
    rw [outcome]
    exact addPackage_opened represents inside free
  · obtain ⟨model, outcome, opened⟩ := openPackage_present represents inside named held included
    rw [outcome]
    exact opened
  · have outcome : openPackage draft.model parent name included = .error error := by
      rw [openPackage, named]
      rfl
    rw [outcome]
    intro fit
    obtain ⟨id, same⟩ := (represents.fits_opened inside).mp fit member held
    exact other id same

/-- What opening packages one inside the other leaves; the innermost is at the whole path. -/
structure OpenedAll (start : Draft) (items : List Item) (path : List String) (model : Model)
    (innermost : Option PackageId) : Prop where
  follows : Follows start items { start with model }
  inside : ∀ id ∈ innermost, id.index < model.packages.size
  path : model.pathTo innermost = path

theorem openSegments_settles {draft : Draft} {items : List Item}
    (represents : Represents draft items) {parent : Option PackageId}
    (inside : ∀ outer ∈ parent, outer.index < draft.model.packages.size) (included : Bool)
    (names : List String) :
    Settles (openSegments included draft.model parent names)
      (items ++ Item.opening included (draft.model.pathTo parent) names)
      fun (model, innermost) =>
        OpenedAll draft (items ++ Item.opening included (draft.model.pathTo parent) names)
          (draft.model.pathTo parent ++ names) model innermost := by
  induction names generalizing draft items parent with
  | nil =>
    rw [Item.opening, List.append_nil, List.append_nil]
    exact ⟨⟨represents, .refl _⟩, inside, rfl⟩
  | cons name rest ih =>
    have split : items ++ Item.opening included (draft.model.pathTo parent) (name :: rest) =
        (items ++ [.package (draft.model.pathTo parent ++ [name]) included]) ++
          Item.opening included (draft.model.pathTo parent ++ [name]) rest := by
      rw [Item.opening, List.append_assoc, List.singleton_append]
    rw [split, openSegments]
    refine (openPackage_settles represents inside name included).bind ?_
    rintro ⟨model, id⟩ opened
    have outside : ∀ outer ∈ some id, outer.index < model.packages.size := by
      intro outer member
      cases member
      exact opened.inside
    have later := ih opened.follows.represents outside
    have here : model.pathTo (some id) = draft.model.pathTo parent ++ [name] := opened.path
    rw [here] at later
    refine later.imp ?_
    rintro ⟨last, innermost⟩ whole
    refine ⟨opened.follows.trans whole.follows, whole.inside, ?_⟩
    rw [whole.path, List.append_assoc, List.singleton_append]

/-!
## Constants, enumerations and record types
-/

private theorem insertMember_accepts (model : Model) (package : PackageId) (name : String)
    (member : Member) :
    (∃ named, insertMember model package name member = .ok named) ↔
      (model.entries (some (.package package))).lookup name = none := by
  unfold insertMember
  rw [entries]
  split <;> simp [*]

private theorem checkFree_accepts {model : Model} {record : RecordId} {name : String} :
    checkFree model record name = .ok () ↔
      (model.entries (some (.record record))).lookup name = none := by
  have lists : (model.entries (some (.record record))).lookup name =
      (((model.record record).constants.lookup name).map Member.constant).or
        (((model.record record).enumerations.lookup name).map Member.enumeration) := by
    rw [entries, List.lookup_append, lookup_map_snd, lookup_map_snd]
  rw [lists, checkFree]
  generalize (model.record record).constants.lookup name = constant
  generalize (model.record record).enumerations.lookup name = enumeration
  cases constant <;> cases enumeration <;> simp

private theorem addConstant_accepts {scope : Scope} {path : String} {draft : Draft}
    {declaration : Declaration.Constant} :
    (∃ after, addConstant scope path draft declaration = .ok after) ↔
      Text.allBlank declaration.name = false ∧
        (draft.model.entries (some scope)).lookup declaration.name = none := by
  cases blank : Text.allBlank declaration.name with
  | true => simp [addConstant, blank, bind, Except.bind]
  | false =>
    cases scope with
    | package package =>
      rw [← insertMember_accepts draft.model package declaration.name
        (.constant ⟨draft.model.constants.size⟩)]
      simp only [addConstant, blank, bind, Except.bind]
      cases insertMember draft.model package declaration.name
        (.constant ⟨draft.model.constants.size⟩) <;> simp
    | record record =>
      rw [← checkFree_accepts]
      simp only [addConstant, blank, bind, Except.bind]
      cases checkFree draft.model record declaration.name <;> simp

private theorem addEnumeration_accepts {scope : Scope} {path : String} {draft : Draft}
    {declaration : Declaration.Enumeration} :
    (∃ after, addEnumeration scope path draft declaration = .ok after) ↔
      Text.allBlank (declaration.name.getD "") = false ∧
        (draft.model.entries (some scope)).lookup (declaration.name.getD "") = none := by
  cases blank : Text.allBlank (declaration.name.getD "") with
  | true => simp [addEnumeration, blank, bind, Except.bind]
  | false =>
    cases scope with
    | package package =>
      rw [← insertMember_accepts draft.model package (declaration.name.getD "")
        (.enumeration ⟨draft.model.enumerations.size⟩)]
      simp only [addEnumeration, blank, bind, Except.bind]
      cases insertMember draft.model package (declaration.name.getD "")
        (.enumeration ⟨draft.model.enumerations.size⟩) <;> simp
    | record record =>
      rw [← checkFree_accepts]
      simp only [addEnumeration, blank, bind, Except.bind]
      cases checkFree draft.model record (declaration.name.getD "") <;> simp

private theorem nameRecord_accepts {package : PackageId} {included : Bool} {draft : Draft}
    {declaration : Declaration.Record} :
    (∃ after, nameRecord package included draft declaration = .ok after) ↔
      Text.allBlank declaration.name = false ∧
        (draft.model.entries (some (.package package))).lookup declaration.name = none := by
  cases blank : Text.allBlank declaration.name with
  | true => simp [nameRecord, blank, bind, Except.bind]
  | false =>
    rw [← insertMember_accepts draft.model package declaration.name
      (.record ⟨draft.model.records.size⟩)]
    simp only [nameRecord, blank, bind, Except.bind]
    cases insertMember draft.model package declaration.name
      (.record ⟨draft.model.records.size⟩) <;> simp

private theorem addConstant_settles {draft : Draft} {items : List Item}
    (represents : Represents draft items)
    {scope : Scope} (inside : scope.reference.InRange draft.model.census) (path : String)
    (declaration : Declaration.Constant) :
    Settles (addConstant scope path draft declaration)
      (items ++ [.ofConstant (draft.model.site (some scope)) declaration])
      (Follows draft (items ++ [.ofConstant (draft.model.site (some scope)) declaration])) := by
  refine .of_accepts addConstant_accepts (represents.fits_declared inside).mp ?_
  rintro after accepted ⟨named, free⟩
  have grows := addConstant_grows scope represents.consistent inside accepted
  obtain ⟨constant, name, rfl, _, rfl⟩ := addConstant_ok accepted
  have step := addConstant_names inside
  rw [name] at step
  exact ⟨represents.declareConstant step (by simp) grows.consistent named free, grows.keeps⟩

private theorem addEnumeration_settles {draft : Draft} {items : List Item}
    (represents : Represents draft items) {scope : Scope}
    (inside : scope.reference.InRange draft.model.census) (path : String)
    (declaration : Declaration.Enumeration) :
    Settles (addEnumeration scope path draft declaration)
      (items ++ [.ofEnumeration (draft.model.site (some scope)) declaration])
      (Follows draft (items ++ [.ofEnumeration (draft.model.site (some scope)) declaration])) := by
  refine .of_accepts addEnumeration_accepts (represents.fits_declared inside).mp ?_
  rintro after accepted ⟨named, free⟩
  have grows := addEnumeration_grows scope represents.consistent inside accepted
  obtain ⟨enumeration, name, rfl, _, rfl⟩ := addEnumeration_ok accepted
  have step := addEnumeration_names inside
  rw [name] at step
  exact ⟨represents.declareEnumeration step (by simp) grows.consistent named free, grows.keeps⟩

/-- A scope that is there stays there, at its site. -/
theorem Follows.scope {start after : Draft} {items : List Item} (follows : Follows start items after)
    (wellNamed : start.model.WellNamed) {scope : Scope}
    (inside : scope.reference.InRange start.model.census) :
    scope.reference.InRange after.model.census ∧
      after.model.site (some scope) = start.model.site (some scope) := by
  refine ⟨inside.mono follows.keeps.census, follows.keeps.site wellNamed.toWellScoped ?_⟩
  intro other member
  cases member
  exact inside

theorem Follows.package {start after : Draft} {items : List Item}
    (follows : Follows start items after) (wellNamed : start.model.WellNamed) {id : PackageId}
    (inside : id.index < start.model.packages.size) :
    id.index < after.model.packages.size ∧
      after.model.packageNames id = start.model.packageNames id :=
  ⟨Nat.lt_of_lt_of_le inside follows.keeps.census.packages,
    follows.keeps.packageNames wellNamed.toWellScoped inside⟩

theorem addConstants_settles {draft : Draft} {items : List Item}
    (represents : Represents draft items) {scope : Scope}
    (inside : scope.reference.InRange draft.model.census) (path : String)
    (declarations : List Declaration.Constant) :
    Settles (declarations.foldlM (addConstant scope path) draft)
      (items ++ declarations.map (.ofConstant (draft.model.site (some scope))))
      (Follows draft (items ++ declarations.map (.ofConstant (draft.model.site (some scope))))) := by
  rw [List.map_eq_flatMap]
  refine Settles.foldlM
    (fun declaration => [Item.ofConstant (draft.model.site (some scope)) declaration]) represents ?_
  intro declaration _ state seen follows
  obtain ⟨present, same⟩ := follows.scope represents.wellNamed inside
  rw [← same]
  exact addConstant_settles follows.represents present path declaration

theorem addEnumerations_settles {draft : Draft} {items : List Item}
    (represents : Represents draft items) {scope : Scope}
    (inside : scope.reference.InRange draft.model.census) (path : String)
    (declarations : List Declaration.Enumeration) :
    Settles (declarations.foldlM (addEnumeration scope path) draft)
      (items ++ declarations.map (.ofEnumeration (draft.model.site (some scope))))
      (Follows draft
        (items ++ declarations.map (.ofEnumeration (draft.model.site (some scope))))) := by
  rw [List.map_eq_flatMap]
  refine Settles.foldlM
    (fun declaration => [Item.ofEnumeration (draft.model.site (some scope)) declaration]) represents ?_
  intro declaration _ state seen follows
  obtain ⟨present, same⟩ := follows.scope represents.wellNamed inside
  rw [← same]
  exact addEnumeration_settles follows.represents present path declaration

/-- A record type waits to be resolved. -/
def await (draft : Draft) (pending : Pending RecordId Declaration.Record) : Draft :=
  { draft with records := draft.records.push pending }

private theorem foldlM_map {α : Type} {declarations : List α} {step : Draft → α → Except SchemaError Draft}
    {change : Draft → Draft}
    (commutes : ∀ draft declaration,
      step (change draft) declaration = (step draft declaration).map change) (draft : Draft) :
    declarations.foldlM step (change draft) = (declarations.foldlM step draft).map change := by
  induction declarations generalizing draft with
  | nil => rfl
  | cons declaration rest ih =>
    rw [List.foldlM_cons, List.foldlM_cons, commutes]
    cases step draft declaration with
    | error error => rfl
    | ok after => exact ih after

private theorem addConstant_await (scope : Scope) (path : String)
    (pending : Pending RecordId Declaration.Record) (draft : Draft)
    (declaration : Declaration.Constant) :
    addConstant scope path (draft.await pending) declaration =
      (addConstant scope path draft declaration).map (await · pending) := by
  simp only [addConstant, await, bind, Except.bind]
  split
  · rfl
  · cases scope with
    | package package =>
      dsimp only
      cases insertMember draft.model package declaration.name
        (.constant ⟨draft.model.constants.size⟩) <;> rfl
    | record record =>
      dsimp only
      cases checkFree draft.model record declaration.name <;> rfl

private theorem addEnumeration_await (scope : Scope) (path : String)
    (pending : Pending RecordId Declaration.Record) (draft : Draft)
    (declaration : Declaration.Enumeration) :
    addEnumeration scope path (draft.await pending) declaration =
      (addEnumeration scope path draft declaration).map (await · pending) := by
  simp only [addEnumeration, await, bind, Except.bind]
  split
  · rfl
  · cases scope with
    | package package =>
      dsimp only
      cases insertMember draft.model package (declaration.name.getD "")
        (.enumeration ⟨draft.model.enumerations.size⟩) <;> rfl
    | record record =>
      dsimp only
      cases checkFree draft.model record (declaration.name.getD "") <;> rfl

/-- It makes no difference whether a record type waits before or after what is declared in it. -/
theorem addRecord_eq (package : PackageId) (included : Bool) (draft : Draft)
    (declaration : Declaration.Record) :
    addRecord package included draft declaration =
      (nameRecord package included draft declaration).map (await · ⟨⟨draft.model.records.size⟩,
          declaration, draft.model.packagePath package ++ "." ++ declaration.name⟩) >>= fun named =>
        declaration.constants.foldlM (addConstant (.record ⟨draft.model.records.size⟩)
            (draft.model.packagePath package ++ "." ++ declaration.name)) named >>=
          declaration.enumerations.foldlM (addEnumeration (.record ⟨draft.model.records.size⟩)
            (draft.model.packagePath package ++ "." ++ declaration.name)) := by
  simp only [addRecord]
  cases nameRecord package included draft declaration with
  | error error => rfl
  | ok named =>
    simp only [Except.map, bind, Except.bind]
    rw [foldlM_map fun state declaration => addConstant_await _ _ _ state declaration]
    cases declaration.constants.foldlM (addConstant (.record ⟨draft.model.records.size⟩)
        (draft.model.packagePath package ++ "." ++ declaration.name)) named with
    | error error => rfl
    | ok withConstants =>
      simp only [Except.map]
      rw [foldlM_map fun state declaration => addEnumeration_await _ _ _ state declaration]
      rfl

/-- What naming a record type leaves: it waits, and it is there at its site. -/
structure Named (start : Draft) (items : List Item) (site : Site) (after : Draft) (id : RecordId) :
    Prop where
  follows : Follows start items after
  inside : id.index < after.model.records.size
  site : after.model.site (some (.record id)) = site

private theorem nameRecord_settles {draft : Draft} {items : List Item} (represents : Represents draft items)
    {package : PackageId} (inside : package.index < draft.model.packages.size) (included : Bool)
    (declaration : Declaration.Record) (path : String) :
    Settles
      ((nameRecord package included draft declaration).map
        (await · ⟨⟨draft.model.records.size⟩, declaration, path⟩))
      (items ++ [.declared (.package (draft.model.packageNames package))
        (.record included declaration)])
      fun after => Named draft
        (items ++ [.declared (.package (draft.model.packageNames package))
          (.record included declaration)])
        (.record (draft.model.packageNames package) declaration.name) after
        ⟨draft.model.records.size⟩ := by
  have present : (Scope.package package).reference.InRange draft.model.census := inside
  have fits : Fits (items ++ [.declared (draft.model.site (some (.package package)))
      (.record included declaration)]) ↔ _ := represents.fits_declared present
  refine Settles.map (.of_accepts nameRecord_accepts fits.mp ?_)
  rintro after accepted ⟨named, free⟩
  obtain ⟨grows, bound, pack⟩ := nameRecord_grows represents.consistent inside accepted
  obtain ⟨record, name, rfl, mark, _, _, noConstants, noEnumerations, _, rfl⟩ := nameRecord_ok accepted
  have step := nameRecord_names noConstants noEnumerations inside
  rw [name] at step
  have view : (listIn (draft.model.pushRecord record) (.package record.package) declaration.name
      (.record ⟨draft.model.records.size⟩) id).record ⟨draft.model.records.size⟩ = record := by
    change (draft.model.pushRecord record).record ⟨draft.model.records.size⟩ = record
    simp
  refine ⟨⟨represents.declareRecord step (by simp) ((congrArg Record.included view).trans mark)
    { grows.consistent with records := ?_, packs := ?_ } named free, grows.keeps⟩, bound, ?_⟩
  · intro pending waits
    rcases Array.mem_push.mp waits with old | rfl
    · exact grows.consistent.records pending old
    · exact bound
  · intro pending waits
    rcases Array.mem_push.mp waits with old | rfl
    · exact grows.consistent.packs pending old
    · exact pack
  · change Site.record _ _ = _
    rw [await, view, name, grows.keeps.packageNames represents.wellNamed.toWellScoped inside]

private theorem addRecord_settles {draft : Draft} {items : List Item} (represents : Represents draft items)
    {package : PackageId} (inside : package.index < draft.model.packages.size) (included : Bool)
    (declaration : Declaration.Record) :
    Settles (addRecord package included draft declaration)
      (items ++ Item.ofRecord included (draft.model.packageNames package) declaration)
      (Follows draft
        (items ++ Item.ofRecord included (draft.model.packageNames package) declaration)) := by
  have split : items ++ Item.ofRecord included (draft.model.packageNames package) declaration =
      (items ++ [.declared (.package (draft.model.packageNames package))
          (.record included declaration)]) ++
        (declaration.constants.map
            (Item.ofConstant (.record (draft.model.packageNames package) declaration.name)) ++
          declaration.enumerations.map
            (Item.ofEnumeration (.record (draft.model.packageNames package) declaration.name))) := by
    rw [Item.ofRecord, List.append_assoc, List.singleton_append]
  rw [split, addRecord_eq]
  refine (nameRecord_settles represents inside included declaration _).bind fun named one => ?_
  have there : (Scope.record ⟨draft.model.records.size⟩).reference.InRange named.model.census :=
    one.inside
  have constants := addConstants_settles one.follows.represents there
    (draft.model.packagePath package ++ "." ++ declaration.name) declaration.constants
  rw [one.site] at constants
  rw [← List.append_assoc]
  refine constants.bind fun withConstants two => ?_
  obtain ⟨present, same⟩ := two.scope one.follows.represents.wellNamed there
  have enumerations := addEnumerations_settles two.represents present
    (draft.model.packagePath package ++ "." ++ declaration.name) declaration.enumerations
  rw [same, one.site] at enumerations
  exact enumerations.imp fun last three => (one.follows.trans two).trans three

/-!
## Package declarations and units
-/

theorem annotatePackage_follows {draft : Draft} {items : List Item}
    (represents : Represents draft items) (id : PackageId) (comment : Option String)
    (tags : List String) :
    Follows draft items { draft with
      model := draft.model.modifyPackage id (annotatePackage comment tags) } := by
  have links := annotatePackage_links comment tags
  have grows := annotatePackage_grows represents.consistent id comment tags
  have same : SameLinks draft.model (draft.model.modifyPackage id (annotatePackage comment tags)) :=
    .modifyPackage _ id (fun item => (links item).1) fun item => (links item).2.1
  refine ⟨represents.relinked grows.keeps same.toSameLists grows.consistent fun other => ?_,
    grows.keeps⟩
  rw [package_modifyPackage]
  split
  · exact (links _).2.2.2
  · rfl

/-- What a package declaration says once its package is open; of the packages in it, what is known
already is given. -/
theorem contents_settles {start : Draft} {items : List Item} (represents : Represents start items)
    {id : PackageId} (inside : id.index < start.model.packages.size) {included : Bool} {path : String}
    {constants : List Declaration.Constant} {enumerations : List Declaration.Enumeration}
    {packages : List Declaration.Package} {records : List Declaration.Record}
    (nested : ∀ state seen, Follows start seen state →
      Settles (addPackageDeclarations included (some id) state packages)
        (seen ++ Item.ofPackages included (start.model.packageNames id) packages)
        (Follows state (seen ++ Item.ofPackages included (start.model.packageNames id) packages))) :
    let site := start.model.site (some (.package id))
    let all := items ++ (constants.map (Item.ofConstant site) ++
      (enumerations.map (Item.ofEnumeration site) ++
        (Item.ofPackages included (start.model.packageNames id) packages ++
          records.flatMap (Item.ofRecord included (start.model.packageNames id)))))
    Settles
      (constants.foldlM (addConstant (.package id) path) start >>= fun withConstants =>
        enumerations.foldlM (addEnumeration (.package id) path) withConstants >>=
          fun withEnumerations =>
            addPackageDeclarations included (some id) withEnumerations packages >>=
              fun withPackages => records.foldlM (addRecord id included) withPackages)
      all (Follows start all) := by
  intro site all
  have there : (Scope.package id).reference.InRange start.model.census := inside
  unfold all site
  rw [← List.append_assoc]
  refine (addConstants_settles represents there path constants).bind fun withConstants first => ?_
  obtain ⟨present, same⟩ := first.scope represents.wellNamed there
  have second := addEnumerations_settles first.represents present path enumerations
  rw [same] at second
  rw [← List.append_assoc]
  refine second.bind fun withEnumerations second => ?_
  have second := first.trans second
  rw [← List.append_assoc]
  refine (nested withEnumerations _ second).bind fun withPackages third => ?_
  have third := second.trans third
  refine (Settles.foldlM (Item.ofRecord included (start.model.packageNames id)) third.represents
    fun declaration _ state seen follows => ?_).imp fun after last => third.trans last
  obtain ⟨bound, names⟩ := (third.trans follows).package represents.wellNamed inside
  rw [← names]
  exact addRecord_settles follows.represents bound included declaration

mutual

theorem addPackageDeclaration_settles {included : Bool} {parent : Option PackageId} {draft : Draft}
    {items : List Item} (represents : Represents draft items)
    (inside : ∀ outer ∈ parent, outer.index < draft.model.packages.size) :
    (declaration : Declaration.Package) →
      Settles (addPackageDeclaration included parent draft declaration)
        (items ++ Item.ofPackage included (draft.model.pathTo parent) declaration)
        (Follows draft (items ++ Item.ofPackage included (draft.model.pathTo parent) declaration))
  | .mk name comment tags constants enumerations packages records => by
    rw [addPackageDeclaration, Item.ofPackage]
    by_cases empty : segments name = []
    · have unfit : ¬ Fits (items ++ [.unnamed]) := fun fits =>
        Bool.false_ne_true (fits.named .unnamed (by simp))
      rw [empty]
      cases parent <;> exact unfit
    · rw [if_neg (by simpa using empty), ← List.append_assoc]
      refine (openSegments_settles represents inside included (segments name)).bind ?_
      rintro ⟨opened, innermost⟩ first
      cases innermost with
      | none =>
        have path := first.path
        exact absurd (List.append_eq_nil_iff.mp path.symm).2 empty
      | some id =>
        simp only [List.isEmpty_iff, empty, ↓reduceIte]
        have second := annotatePackage_follows first.follows.represents id comment tags
        obtain ⟨present, names⟩ :=
          second.package first.follows.represents.wellNamed (first.inside id rfl)
        rw [← first.path, pathTo, ← names]
        refine (contents_settles second.represents present fun state seen follows => ?_).imp
          fun after last => (first.follows.trans second).trans last
        obtain ⟨bound, same⟩ := follows.package second.represents.wellNamed present
        rw [← same]
        exact addPackageDeclarations_settles follows.represents
          (fun outer member => by cases member; exact bound) packages

theorem addPackageDeclarations_settles {included : Bool} {parent : Option PackageId} {draft : Draft}
    {items : List Item} (represents : Represents draft items)
    (inside : ∀ outer ∈ parent, outer.index < draft.model.packages.size) :
    (declarations : List Declaration.Package) →
      Settles (addPackageDeclarations included parent draft declarations)
        (items ++ Item.ofPackages included (draft.model.pathTo parent) declarations)
        (Follows draft (items ++ Item.ofPackages included (draft.model.pathTo parent) declarations))
  | [] => by
    rw [addPackageDeclarations, Item.ofPackages, List.append_nil]
    exact ⟨represents, .refl _⟩
  | declaration :: rest => by
    rw [addPackageDeclarations, Item.ofPackages, ← List.append_assoc]
    refine (addPackageDeclaration_settles represents inside declaration).bind fun extended one => ?_
    have outside : ∀ outer ∈ parent, outer.index < extended.model.packages.size :=
      fun outer member => (one.package represents.wellNamed (inside outer member)).1
    have same : extended.model.pathTo parent = draft.model.pathTo parent := by
      cases parent with
      | none => rfl
      | some outer => exact (one.package represents.wellNamed (inside outer rfl)).2
    have others : Settles (addPackageDeclarations included parent extended rest) _ _ :=
      addPackageDeclarations_settles one.represents outside rest
    rw [same] at others
    exact others.imp fun after later => one.trans later

end

theorem addUnit_settles {draft : Draft} {items : List Item} (represents : Represents draft items)
    (source : SourceUnit) :
    Settles (addUnit draft source) (items ++ Item.ofUnit source)
      (Follows draft (items ++ Item.ofUnit source)) := by
  have declared : Settles
      (addPackageDeclarations source.included none draft source.document.packages)
      (items ++ Item.ofUnit source) (Follows draft (items ++ Item.ofUnit source)) :=
    addPackageDeclarations_settles represents (fun outer member => by cases member) _
  refine declared.bind_self fun extended first => ?_
  split
  · exact first
  · obtain ⟨useHeaders, same⟩ :=
      foldl_addHeader (source.document.imports.flatMap (·.headers)) extended.model
    have grows := addHeaders_grows first.represents.consistent
      (source.document.imports.flatMap (·.headers))
    refine ⟨first.represents.relinked grows.keeps ?_ grows.consistent fun id => ?_,
      first.keeps.trans grows.keeps⟩
    · rw [same]
      exact { SameLists.refl extended.model with }
    · rw [same]
      rfl

theorem represents_empty : Represents {} [] where
  consistent := consistent_empty
  wellNamed :=
    { consistent_empty.wellScoped with
      names := by rintro (_ | id | id) entry listed <;> cases listed
      distinct := by rintro (_ | id | id) <;> exact List.nodup_nil }
  fits := .nil
  packages path := by simp
  primary id inside := by cases inside
  declared := .refl _
  names entry waits := by cases waits
  recordIds := rfl
  constantIds := rfl
  enumerationIds := rfl

/-- Units are accepted if and only if what they say fits together, and then the draft represents
it. -/
theorem ofUnits_settles (units : List SourceUnit) :
    Settles (ofUnits units) (Item.ofUnits units)
      fun draft => Represents draft (Item.ofUnits units) :=
  (Settles.foldlM Item.ofUnit represents_empty fun source _ _ _ follows =>
    addUnit_settles follows.represents source).imp fun _ follows => follows.represents

end RecordSchema.Draft
