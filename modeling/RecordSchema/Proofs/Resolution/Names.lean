import RecordSchema.Proofs.Model.Naming
import RecordSchema.Proofs.Model.Members
import RecordSchema.Proofs.Outcome
import RecordSchema.Resolution.Names

/-!
# The pass over names

A draft grows by one declaration at a time. Every step keeps it consistent: the names it has form
scopes without gaps, nothing within its record types is resolved yet, and the declarations that wait
for the next pass have their identifiers.
-/

set_option autoImplicit false

namespace RecordSchema.Draft

open Model Outcome

/-- A draft fit for the passes that follow. -/
structure Consistent (draft : Draft) : Prop where
  wellScoped : draft.model.WellScoped
  noAttributes : draft.model.attributes = #[]
  noBitfields : draft.model.bitfields = #[]
  noMethods : draft.model.methods = #[]
  fresh : ∀ id, (draft.model.record id).named = draft.model.record id
  records : ∀ pending ∈ draft.records, pending.id.index < draft.model.records.size
  packs : ∀ pending ∈ draft.records,
    (draft.model.record pending.id).pack = pending.declaration.pack
  constants : ∀ pending ∈ draft.constants, pending.id.index < draft.model.constants.size
  enumerations : ∀ pending ∈ draft.enumerations, pending.id.index < draft.model.enumerations.size

/-- A later draft that is consistent and has lost no declaration. -/
structure Grows (before after : Draft) : Prop where
  consistent : after.Consistent
  keeps : Keeps before.model after.model

theorem Grows.census {before after : Draft} (grows : Grows before after) :
    before.model.census ≤ after.model.census :=
  grows.keeps.census

theorem Grows.refl {draft : Draft} (consistent : draft.Consistent) : Grows draft draft :=
  ⟨consistent, .refl _⟩

theorem Grows.trans {first middle last : Draft} (before : Grows first middle)
    (after : Grows middle last) : Grows first last :=
  ⟨after.consistent, before.keeps.trans after.keeps⟩

/-- A fold of steps that let a draft grow, each from a draft that has grown already. -/
theorem Grows.foldlM {α : Type} {items : List α} {step : Draft → α → Except SchemaError Draft}
    {start final : Draft} (accepted : items.foldlM step start = .ok final)
    (consistent : start.Consistent)
    (grows : ∀ item ∈ items, ∀ state after, Grows start state → step state item = .ok after →
      Grows state after) : Grows start final :=
  foldlM_preserves accepted (Grows start) (.refl consistent) fun item member state after grown taken =>
    grown.trans (grows item member state after grown taken)

/-- The step that gives the model a new declaration and leaves the members of its record types
out. -/
private theorem Consistent.named {draft : Draft} (consistent : draft.Consistent) {model : Model}
    {place : Option Scope} {name : String} {added : Member}
    (names : Names place name added draft.model model)
    (closed : model.Closed) (attributes : model.attributes = draft.model.attributes)
    (bitfields : model.bitfields = draft.model.bitfields)
    (methods : model.methods = draft.model.methods)
    (fresh : ∀ id, (model.record id).named = model.record id) :
    Grows draft { draft with model } where
  consistent :=
    { wellScoped := consistent.wellScoped.names names closed
      noAttributes := attributes.trans consistent.noAttributes
      noBitfields := bitfields.trans consistent.noBitfields
      noMethods := methods.trans consistent.noMethods
      fresh := fresh
      records := fun pending waits =>
        Nat.lt_of_lt_of_le (consistent.records pending waits) names.keeps.census.records
      packs := fun pending waits =>
        (names.keeps.record _ (consistent.records pending waits)).2.trans
          (consistent.packs pending waits)
      constants := fun pending waits =>
        Nat.lt_of_lt_of_le (consistent.constants pending waits) names.keeps.census.constants
      enumerations := fun pending waits =>
        Nat.lt_of_lt_of_le (consistent.enumerations pending waits) names.keeps.census.enumerations }
  keeps := names.keeps

/-- The step that leaves all links alone. -/
private theorem Consistent.relinked {draft : Draft} (consistent : draft.Consistent) {model : Model}
    (same : SameLinks draft.model model) (keeps : Keeps draft.model model) (closed : model.Closed)
    (attributes : model.attributes = draft.model.attributes)
    (bitfields : model.bitfields = draft.model.bitfields)
    (methods : model.methods = draft.model.methods)
    (fresh : ∀ id, (model.record id).named = model.record id) :
    Grows draft { draft with model } where
  consistent :=
    { wellScoped := consistent.wellScoped.of_sameLists same.toSameLists closed
      noAttributes := attributes.trans consistent.noAttributes
      noBitfields := bitfields.trans consistent.noBitfields
      noMethods := methods.trans consistent.noMethods
      fresh := fresh
      records := fun pending waits => by
        have size : model.records.size = draft.model.records.size :=
          congrArg Census.records same.census
        exact size ▸ consistent.records pending waits
      packs := fun pending waits =>
        (keeps.record _ (consistent.records pending waits)).2.trans (consistent.packs pending waits)
      constants := fun pending waits => by
        have size : model.constants.size = draft.model.constants.size :=
          congrArg Census.constants same.census
        exact size ▸ consistent.constants pending waits
      enumerations := fun pending waits => by
        have size : model.enumerations.size = draft.model.enumerations.size :=
          congrArg Census.enumerations same.census
        exact size ▸ consistent.enumerations pending waits }
  keeps := keeps

/-!
## Packages
-/

private theorem Package.inRange_member {census : Census} {package : Package} (name : String)
    {member : Member} (inRange : InRange census package.references)
    (named : member.reference.InRange census) :
    InRange census
      { package with members := package.members ++ [(name, member)] }.references := by
  have closed := Package.closed_iff.mpr inRange
  refine Package.closed_iff.mp { closed with members := ?_ }
  intro entry member
  rcases List.mem_append.mp member with old | new
  · exact closed.members entry old
  · cases List.mem_singleton.mp new
    exact named

theorem addPackage_none (model : Model) (name : String) (included : Bool) :
    (addPackage model none name included).1 =
      { model.pushPackage { name, included } with
        roots := model.roots ++ [(name, ⟨model.packages.size⟩)] } := rfl

theorem addPackage_some (model : Model) (outer : PackageId) (name : String) (included : Bool) :
    (addPackage model (some outer) name included).1 =
      (model.pushPackage { name, parent := some outer, included }).modifyPackage outer
        fun current =>
          { current with members := current.members ++ [(name, .package ⟨model.packages.size⟩)] } :=
  rfl

theorem addPackage_names (model : Model) {parent : Option PackageId}
    (outside : ∀ outer ∈ parent, outer.index < model.packages.size) (name : String)
    (included : Bool) :
    Names (parent.map .package) name (.package ⟨model.packages.size⟩) model
      (addPackage model parent name included).1 := by
  have adds := model.adds_package { name, parent, included } rfl
  cases parent with
  | none =>
    rw [addPackage_none]
    refine adds.names (lists_root _ name _) fun scope member => ?_
    cases member
  | some outer =>
    have inside := outside outer rfl
    rw [addPackage_some]
    refine adds.names (lists_member _ ?_ name _) fun scope member => ?_
    · simpa [pushPackage] using Nat.lt_succ_of_lt inside
    · cases member
      exact inside

theorem addPackage_grows {draft : Draft} (consistent : draft.Consistent) {parent : Option PackageId}
    (outside : ∀ outer ∈ parent, outer.index < draft.model.packages.size) (name : String)
    (included : Bool) :
    Grows draft { draft with model := (addPackage draft.model parent name included).1 } := by
  have grown := draft.model.census_le_pushPackage { name, parent, included }
  have closed := consistent.wellScoped.closed.mono grown
  have last : Reference.InRange (draft.model.pushPackage { name, parent, included }).census
      (.package ⟨draft.model.packages.size⟩) := by
    simp [Reference.InRange]
  have names := addPackage_names draft.model outside name included
  cases parent with
  | none =>
    refine consistent.named names ?_ rfl rfl rfl consistent.fresh
    rw [addPackage_none]
    have pushed := closed.pushPackage { name, parent := none, included } (by
      simp [Package.references])
    refine { pushed with roots := ?_ }
    intro entry member
    rcases List.mem_append.mp member with old | new
    · exact pushed.roots entry old
    · cases List.mem_singleton.mp new
      exact last
  | some outer =>
    refine consistent.named names ?_ rfl rfl rfl consistent.fresh
    have inside := outside outer rfl
    have pushed := closed.pushPackage { name, parent := some outer, included } (by
      simpa [Package.references, Reference.InRange] using Nat.lt_succ_of_lt inside)
    rw [addPackage_some, Closed, census_modifyPackage]
    exact pushed.modifyPackage outer fun item inRange => Package.inRange_member name inRange last

theorem addPackage_inside (model : Model) (parent : Option PackageId) (name : String)
    (included : Bool) :
    (addPackage model parent name included).2.index <
      (addPackage model parent name included).1.packages.size := by
  cases parent <;> simp [addPackage, modifyPackage]

private theorem packageNamed_inside {model : Model} (closed : model.Closed) {parent : Option PackageId}
    {name : String} {found : PackageId} (named : packageNamed model parent name = .ok (some found)) :
    found.index < model.packages.size := by
  cases parent with
  | none =>
    cases root : model.roots.lookup name with
    | none => simp [packageNamed, root] at named
    | some id =>
      simp only [packageNamed, root, Except.ok.injEq, Option.some.injEq] at named
      subst named
      exact closed.roots _ (mem_of_lookup root)
  | some outer =>
    simp only [packageNamed] at named
    split at named
    · cases named
    · rename_i member
      cases named
      exact closed.contents (some (.package outer)) (.package found)
        (List.mem_map.mpr ⟨_, mem_of_lookup member, rfl⟩)
    · cases named

theorem openPackage_grows {draft : Draft} (consistent : draft.Consistent)
    {parent : Option PackageId} (inside : ∀ outer ∈ parent, outer.index < draft.model.packages.size)
    {name : String} {included : Bool} {opened : Model} {id : PackageId}
    (accepted : openPackage draft.model parent name included = .ok (opened, id)) :
    Grows draft { draft with model := opened } ∧ id.index < opened.packages.size := by
  obtain ⟨existing, named, accepted⟩ := bind_ok accepted
  cases existing with
  | some found =>
    have old := packageNamed_inside consistent.wellScoped.closed named
    dsimp only at accepted
    split at accepted
    · cases accepted
      exact ⟨.refl consistent, old⟩
    · cases accepted
      have closed : (draft.model.modifyPackage id fun current =>
          { current with included := false }).ClosedFor draft.model.census :=
        consistent.wellScoped.closed.modifyPackage id fun _ inRange => inRange
      refine ⟨consistent.relinked (.modifyPackage _ id (fun _ => rfl) fun _ => rfl)
        (.modifyPackage _ id (fun _ => rfl) fun _ => rfl) ?_ rfl rfl rfl consistent.fresh,
        by simpa [modifyPackage] using old⟩
      rw [Closed, census_modifyPackage]
      exact closed
  | none =>
    have added : addPackage draft.model parent name included = (opened, id) :=
      Except.ok.inj accepted
    have grows := addPackage_grows consistent inside name included
    have bound := addPackage_inside draft.model parent name included
    rw [added] at grows bound
    exact ⟨grows, bound⟩

/-- Packages opened one inside the other are all there, the innermost included. -/
theorem openSegments_grows {names : List String} {draft : Draft} (consistent : draft.Consistent)
    {parent : Option PackageId} (inside : ∀ outer ∈ parent, outer.index < draft.model.packages.size)
    {included : Bool} {opened : Model} {innermost : Option PackageId}
    (accepted : openSegments included draft.model parent names = .ok (opened, innermost)) :
    Grows draft { draft with model := opened } ∧
      ∀ id ∈ innermost, id.index < opened.packages.size := by
  induction names generalizing draft parent with
  | nil =>
    cases accepted
    exact ⟨.refl consistent, inside⟩
  | cons name rest ih =>
    obtain ⟨⟨first, id⟩, one, accepted⟩ := bind_ok accepted
    obtain ⟨grown, bound⟩ := openPackage_grows consistent inside one
    obtain ⟨further, last⟩ :=
      ih grown.consistent (fun outer member => by cases member; exact bound) accepted
    exact ⟨grown.trans further, last⟩

/-!
## Constants, enumerations and record types
-/

private theorem insertMember_ok {model named : Model} {package : PackageId} {name : String}
    {member : Member} (accepted : insertMember model package name member = .ok named) :
    named = model.modifyPackage package fun current =>
      { current with members := current.members ++ [(name, member)] } := by
  unfold insertMember at accepted
  split at accepted
  · cases accepted
  · exact (Except.ok.inj accepted).symm

/-- A scope lists one more member: a package among all its members, a record type by a change of its
own. -/
def listIn (model : Model) (scope : Scope) (name : String) (member : Member)
    (change : Record → Record) : Model :=
  match scope with
  | .package package =>
    model.modifyPackage package fun current =>
      { current with members := current.members ++ [(name, member)] }
  | .record record => model.modifyRecord record change

theorem addConstant_ok {scope : Scope} {path : String} {draft after : Draft}
    {declaration : Declaration.Constant}
    (accepted : addConstant scope path draft declaration = .ok after) :
    ∃ constant : Constant, constant.name = declaration.name ∧ constant.scope = scope ∧
      constant.value = default ∧
      after = { draft with
        model := listIn (draft.model.pushConstant constant) scope declaration.name
          (.constant ⟨draft.model.constants.size⟩) fun current =>
            { current with
              constants := current.constants ++
                [(declaration.name, ⟨draft.model.constants.size⟩)] }
        constants := draft.constants.push
          ⟨⟨draft.model.constants.size⟩, declaration, path ++ "." ++ declaration.name⟩ } := by
  simp only [addConstant, bind, Except.bind] at accepted
  split at accepted
  · cases accepted
  · cases scope with
    | package package =>
      dsimp only at accepted
      split at accepted
      · cases accepted
      · rename_i named inserted
        cases insertMember_ok inserted
        cases accepted
        exact ⟨_, rfl, rfl, rfl, rfl⟩
    | record record =>
      dsimp only at accepted
      split at accepted
      · cases accepted
      · cases accepted
        exact ⟨_, rfl, rfl, rfl, rfl⟩

theorem addEnumeration_ok {scope : Scope} {path : String} {draft after : Draft}
    {declaration : Declaration.Enumeration}
    (accepted : addEnumeration scope path draft declaration = .ok after) :
    ∃ enumeration : Enumeration, enumeration.name = declaration.name.getD "" ∧
      enumeration.scope = scope ∧ enumeration.constants = [] ∧
      after = { draft with
        model := listIn (draft.model.pushEnumeration enumeration) scope (declaration.name.getD "")
          (.enumeration ⟨draft.model.enumerations.size⟩) fun current =>
            { current with
              enumerations := current.enumerations ++
                [(declaration.name.getD "", ⟨draft.model.enumerations.size⟩)] }
        enumerations := draft.enumerations.push
          ⟨⟨draft.model.enumerations.size⟩, declaration,
            path ++ "." ++ declaration.name.getD ""⟩ } := by
  simp only [addEnumeration, bind, Except.bind] at accepted
  split at accepted
  · cases accepted
  · cases scope with
    | package package =>
      dsimp only at accepted
      split at accepted
      · cases accepted
      · rename_i named inserted
        cases insertMember_ok inserted
        cases accepted
        exact ⟨_, rfl, rfl, rfl, rfl⟩
    | record record =>
      dsimp only at accepted
      split at accepted
      · cases accepted
      · cases accepted
        exact ⟨_, rfl, rfl, rfl, rfl⟩

@[simp] theorem census_listIn (model : Model) (scope : Scope) (name : String) (member : Member)
    (change : Record → Record) : (listIn model scope name member change).census = model.census := by
  cases scope with
  | package package => exact census_modifyPackage model package _
  | record record => exact census_modifyRecord model record _

section ListIn

variable {model middle : Model} {scope : Scope} {name : String} {added : Member}
  {change : Record → Record}

/-- A declaration that has been added is named once its scope lists it. -/
theorem names_listIn (adds : Adds (some scope) name added model middle)
    (inside : scope.reference.InRange model.census)
    (lists : ∀ id : RecordId, id.index < middle.records.size →
      Lists (some (.record id)) name added middle (middle.modifyRecord id change)) :
    Names (some scope) name added model (listIn middle scope name added change) := by
  have bound := inside.mono adds.keeps.census
  have held : ∀ outer ∈ some scope, outer.reference.InRange model.census := by
    intro outer member
    cases member
    exact inside
  cases scope with
  | package package => exact adds.names (lists_member middle bound name added) held
  | record record => exact adds.names (lists record bound) held

private theorem Consistent.listedIn {draft : Draft} (consistent : draft.Consistent)
    (names : Names (some scope) name added draft.model (listIn middle scope name added change))
    (closed : middle.ClosedFor middle.census) (last : added.reference.InRange middle.census)
    (attributes : middle.attributes = draft.model.attributes)
    (bitfields : middle.bitfields = draft.model.bitfields)
    (methods : middle.methods = draft.model.methods)
    (fresh : ∀ id, (middle.record id).named = middle.record id)
    (kept : ∀ record : Record, InRange middle.census record.references →
      InRange middle.census (change record).references)
    (named : ∀ record, (change record).named = change record.named) :
    Grows draft { draft with model := listIn middle scope name added change } := by
  cases scope with
  | package package =>
    refine consistent.named names ?_ attributes bitfields methods fresh
    rw [Closed, listIn, census_modifyPackage]
    exact closed.modifyPackage package fun item inRange =>
      Package.inRange_member name inRange last
  | record record =>
    refine consistent.named names ?_ attributes bitfields methods fun id => ?_
    · rw [Closed, listIn, census_modifyRecord]
      exact closed.modifyRecord record kept
    · rw [listIn, record_modifyRecord]
      split
      · rw [named, fresh]
      · exact fresh id

end ListIn

private theorem Record.inRange_constant {census : Census} {record : Record} (name : String)
    {id : ConstantId}
    (inRange : InRange census record.references) (named : Reference.InRange census (.constant id)) :
    InRange census
      { record with constants := record.constants ++ [(name, id)] }.references := by
  have closed := Record.closed_iff.mpr inRange
  refine Record.closed_iff.mp { closed with constants := ?_ }
  intro entry member
  rcases List.mem_append.mp member with old | new
  · exact closed.constants entry old
  · cases List.mem_singleton.mp new
    exact named

private theorem Record.inRange_enumeration {census : Census} {record : Record} (name : String) {id : EnumId}
    (inRange : InRange census record.references)
    (named : Reference.InRange census (.enumeration id)) :
    InRange census
      { record with enumerations := record.enumerations ++ [(name, id)] }.references := by
  have closed := Record.closed_iff.mpr inRange
  refine Record.closed_iff.mp { closed with enumerations := ?_ }
  intro entry member
  rcases List.mem_append.mp member with old | new
  · exact closed.enumerations entry old
  · cases List.mem_singleton.mp new
    exact named

theorem addConstant_names {model : Model} {constant : Constant}
    (inside : constant.scope.reference.InRange model.census) :
    Names (some constant.scope) constant.name (.constant ⟨model.constants.size⟩) model
      (listIn (model.pushConstant constant) constant.scope constant.name
        (.constant ⟨model.constants.size⟩) fun current =>
          { current with
            constants := current.constants ++ [(constant.name, ⟨model.constants.size⟩)] }) :=
  names_listIn (model.adds_constant constant) inside fun _ bound => lists_constant _ bound _ _

theorem addConstant_grows (scope : Scope) {path : String} {draft after : Draft}
    {declaration : Declaration.Constant} (consistent : draft.Consistent)
    (inside : scope.reference.InRange draft.model.census)
    (accepted : addConstant scope path draft declaration = .ok after) : Grows draft after := by
  obtain ⟨constant, name, rfl, value, rfl⟩ := addConstant_ok accepted
  have grown := draft.model.census_le_pushConstant constant
  have last : Reference.InRange (draft.model.pushConstant constant).census
      (.constant ⟨draft.model.constants.size⟩) := by
    simp [Reference.InRange]
  have closed := (consistent.wellScoped.closed.mono grown).pushConstant constant (by
    rw [Constant.references, value]
    exact inRange_cons.mpr ⟨inside.mono grown, inRange_nil⟩)
  have names := addConstant_names inside
  rw [name] at names
  have named := consistent.listedIn names closed last rfl rfl rfl consistent.fresh
    (fun _ inRange => Record.inRange_constant declaration.name inRange last) fun _ => rfl
  refine ⟨{ named.consistent with constants := ?_ }, named.keeps⟩
  intro pending waits
  rcases Array.mem_push.mp waits with old | rfl
  · exact named.consistent.constants pending old
  · exact Nat.lt_of_lt_of_eq last (congrArg Census.constants (census_listIn ..).symm)

theorem addEnumeration_names {model : Model} {enumeration : Enumeration}
    (inside : enumeration.scope.reference.InRange model.census) :
    Names (some enumeration.scope) enumeration.name (.enumeration ⟨model.enumerations.size⟩) model
      (listIn (model.pushEnumeration enumeration) enumeration.scope enumeration.name
        (.enumeration ⟨model.enumerations.size⟩) fun current =>
          { current with
            enumerations := current.enumerations ++
              [(enumeration.name, ⟨model.enumerations.size⟩)] }) :=
  names_listIn (model.adds_enumeration enumeration) inside fun _ bound =>
    lists_enumeration _ bound _ _

theorem addEnumeration_grows (scope : Scope) {path : String} {draft after : Draft}
    {declaration : Declaration.Enumeration} (consistent : draft.Consistent)
    (inside : scope.reference.InRange draft.model.census)
    (accepted : addEnumeration scope path draft declaration = .ok after) : Grows draft after := by
  obtain ⟨enumeration, name, rfl, empty, rfl⟩ := addEnumeration_ok accepted
  have grown := draft.model.census_le_pushEnumeration enumeration
  have last : Reference.InRange (draft.model.pushEnumeration enumeration).census
      (.enumeration ⟨draft.model.enumerations.size⟩) := by
    simp [Reference.InRange]
  have closed := (consistent.wellScoped.closed.mono grown).pushEnumeration enumeration (by
    rw [Enumeration.references, empty]
    exact inRange_cons.mpr ⟨inside.mono grown, inRange_nil⟩)
  have names := addEnumeration_names inside
  rw [name] at names
  have named := consistent.listedIn names closed last rfl rfl rfl consistent.fresh
    (fun _ inRange => Record.inRange_enumeration (declaration.name.getD "") inRange last) fun _ => rfl
  refine ⟨{ named.consistent with enumerations := ?_ }, named.keeps⟩
  intro pending waits
  rcases Array.mem_push.mp waits with old | rfl
  · exact named.consistent.enumerations pending old
  · exact Nat.lt_of_lt_of_eq last (congrArg Census.enumerations (census_listIn ..).symm)

theorem addConstants_records {scope : Scope} {path : String} {draft after : Draft}
    {declarations : List Declaration.Constant}
    (accepted : declarations.foldlM (addConstant scope path) draft = .ok after) :
    after.records = draft.records :=
  foldlM_preserves accepted (·.records = draft.records) rfl fun _ _ _ _ same taken => by
    obtain ⟨_, _, _, _, rfl⟩ := addConstant_ok taken
    exact same

theorem addEnumerations_records {scope : Scope} {path : String} {draft after : Draft}
    {declarations : List Declaration.Enumeration}
    (accepted : declarations.foldlM (addEnumeration scope path) draft = .ok after) :
    after.records = draft.records :=
  foldlM_preserves accepted (·.records = draft.records) rfl fun _ _ _ _ same taken => by
    obtain ⟨_, _, _, _, rfl⟩ := addEnumeration_ok taken
    exact same

theorem nameRecord_ok {package : PackageId} {included : Bool} {draft after : Draft}
    {declaration : Declaration.Record}
    (accepted : nameRecord package included draft declaration = .ok after) :
    ∃ record : Record, record.name = declaration.name ∧ record.package = package ∧
      record.included = included ∧ record.pack = declaration.pack ∧
      record.references = [.package package] ∧ record.constants = [] ∧ record.enumerations = [] ∧
      record.named = record ∧ after = { draft with
        model := listIn (draft.model.pushRecord record) (.package package) declaration.name
          (.record ⟨draft.model.records.size⟩) id } := by
  simp only [nameRecord, bind, Except.bind] at accepted
  split at accepted
  · cases accepted
  · split at accepted
    · cases accepted
    · rename_i named inserted
      cases insertMember_ok inserted
      cases accepted
      exact ⟨_, rfl, rfl, rfl, rfl, rfl, rfl, rfl, rfl, rfl⟩

theorem nameRecord_names {model : Model} {record : Record} (noConstants : record.constants = [])
    (noEnumerations : record.enumerations = [])
    (inside : record.package.index < model.packages.size) :
    Names (some (.package record.package)) record.name (.record ⟨model.records.size⟩) model
      (listIn (model.pushRecord record) (.package record.package) record.name
        (.record ⟨model.records.size⟩) id) :=
  (model.adds_record record noConstants noEnumerations).names
    (lists_member (model.pushRecord record) inside record.name _) fun scope member => by
      cases member
      exact inside

theorem nameRecord_grows {package : PackageId} {included : Bool} {draft after : Draft}
    {declaration : Declaration.Record} (consistent : draft.Consistent)
    (inside : package.index < draft.model.packages.size)
    (accepted : nameRecord package included draft declaration = .ok after) :
    Grows draft after ∧ draft.model.records.size < after.model.records.size ∧
      (after.model.record ⟨draft.model.records.size⟩).pack = declaration.pack := by
  obtain ⟨record, name, rfl, _, pack, references, noConstants, noEnumerations, fresh, rfl⟩ :=
    nameRecord_ok accepted
  have grown := draft.model.census_le_pushRecord record
  have last : Reference.InRange (draft.model.pushRecord record).census
      (.record ⟨draft.model.records.size⟩) := by
    simp [Reference.InRange]
  have closed := (consistent.wellScoped.closed.mono grown).pushRecord record (by
    rw [references]
    exact inRange_cons.mpr ⟨Reference.InRange.mono grown inside, inRange_nil⟩)
  have names := nameRecord_names noConstants noEnumerations inside
  rw [name] at names
  refine ⟨consistent.listedIn names closed last rfl rfl rfl (fun id => ?_) (fun _ inRange => inRange)
    fun _ => rfl, ?_, ?_⟩
  · rw [record_pushRecord]
    split
    · exact fresh
    · exact consistent.fresh id
  · exact Nat.lt_of_lt_of_eq (Nat.lt_succ_self _) (Array.size_push ..).symm
  · change ((draft.model.pushRecord record).record ⟨draft.model.records.size⟩).pack = _
    rw [record_pushRecord, if_pos rfl, pack]

/-- A record type waits once it is named, and what is declared in it. -/
theorem addRecord_ok {package : PackageId} {included : Bool} {draft after : Draft}
    {declaration : Declaration.Record} (consistent : draft.Consistent)
    (inside : package.index < draft.model.packages.size)
    (accepted : addRecord package included draft declaration = .ok after) :
    ∃ named complete : Draft, nameRecord package included draft declaration = .ok named ∧
      Grows named complete ∧ complete.records = named.records ∧
      after = { complete with
        records := complete.records.push ⟨⟨draft.model.records.size⟩, declaration,
          draft.model.packagePath package ++ "." ++ declaration.name⟩ } := by
  simp only [addRecord] at accepted
  obtain ⟨named, one, accepted⟩ := bind_ok accepted
  obtain ⟨withConstants, constants, accepted⟩ := bind_ok accepted
  obtain ⟨complete, enumerations, accepted⟩ := bind_ok accepted
  cases accepted
  obtain ⟨first, bound, -⟩ := nameRecord_grows consistent inside one
  have second : Grows named withConstants :=
    .foldlM constants first.consistent fun _ _ _ _ grown taken =>
      addConstant_grows (.record _) grown.consistent
        (Nat.lt_of_lt_of_le bound grown.census.records) taken
  have third : Grows withConstants complete :=
    .foldlM enumerations second.consistent fun _ _ _ _ grown taken =>
      addEnumeration_grows (.record _) grown.consistent
        (Nat.lt_of_lt_of_le bound (second.trans grown).census.records) taken
  exact ⟨named, complete, one, second.trans third,
    (addEnumerations_records enumerations).trans (addConstants_records constants), rfl⟩

theorem addRecord_grows {package : PackageId} {included : Bool} {draft after : Draft}
    {declaration : Declaration.Record} (consistent : draft.Consistent)
    (inside : package.index < draft.model.packages.size)
    (accepted : addRecord package included draft declaration = .ok after) : Grows draft after := by
  obtain ⟨named, complete, one, later, -, rfl⟩ := addRecord_ok consistent inside accepted
  obtain ⟨first, bound, pack⟩ := nameRecord_grows consistent inside one
  have whole := first.trans later
  refine ⟨{ whole.consistent with records := ?_, packs := ?_ }, whole.keeps⟩
  · intro pending waits
    rcases Array.mem_push.mp waits with old | rfl
    · exact whole.consistent.records pending old
    · exact Nat.lt_of_lt_of_le bound later.census.records
  · intro pending waits
    rcases Array.mem_push.mp waits with old | rfl
    · exact whole.consistent.packs pending old
    · exact (later.keeps.record _ bound).2.trans pack

/-!
## Package declarations and units
-/

/-- What a declaration says about its package leaves the links alone. -/
theorem annotatePackage_links (comment : Option String) (tags : List String) (package : Package) :
    (annotatePackage comment tags package).parent = package.parent ∧
      (annotatePackage comment tags package).members = package.members ∧
      (annotatePackage comment tags package).name = package.name ∧
      (annotatePackage comment tags package).included = package.included := by
  unfold annotatePackage
  generalize Tag.parseAll tags = parsed
  refine List.foldlRecOn (motive := fun current : Package =>
    current.parent = package.parent ∧ current.members = package.members ∧
      current.name = package.name ∧ current.included = package.included) parsed applyPackageTag
      ⟨rfl, rfl, rfl, rfl⟩ ?_
  intro current kept tag _
  unfold applyPackageTag
  split <;> exact kept

theorem annotatePackage_grows {draft : Draft} (consistent : draft.Consistent) (id : PackageId)
    (comment : Option String) (tags : List String) :
    Grows draft { draft with
      model := draft.model.modifyPackage id (annotatePackage comment tags) } := by
  have same := annotatePackage_links comment tags
  refine consistent.relinked
    (.modifyPackage _ id (fun item => (same item).1) fun item => (same item).2.1)
    (.modifyPackage _ id (fun item => (same item).1) fun item => (same item).2.2.1) ?_ rfl rfl rfl
    consistent.fresh
  rw [Closed, census_modifyPackage]
  refine consistent.wellScoped.closed.modifyPackage id fun item inRange => ?_
  rwa [Package.references, (same item).1, (same item).2.1]

mutual

private theorem addPackageDeclaration_grows {included : Bool} {parent : Option PackageId}
    {draft after : Draft} (consistent : draft.Consistent)
    (inside : ∀ outer ∈ parent, outer.index < draft.model.packages.size) :
    (declaration : Declaration.Package) →
      addPackageDeclaration included parent draft declaration = .ok after → Grows draft after
  | .mk name comment tags constants enumerations packages records, accepted => by
    rw [addPackageDeclaration] at accepted
    obtain ⟨⟨opened, innermost⟩, segmentsOpened, accepted⟩ := bind_ok accepted
    obtain ⟨first, bound⟩ := openSegments_grows consistent inside segmentsOpened
    cases innermost with
    | none => cases accepted
    | some id =>
      simp only [bind, Except.bind] at accepted
      split at accepted
      · cases accepted
      · obtain ⟨withConstants, constantsNamed, accepted⟩ := bind_ok accepted
        obtain ⟨withEnumerations, enumerationsNamed, accepted⟩ := bind_ok accepted
        obtain ⟨withPackages, packagesNamed, recordsNamed⟩ := bind_ok accepted
        have second := annotatePackage_grows first.consistent id comment tags
        have present : ∀ {state : Draft}, Grows _ state → id.index < state.model.packages.size :=
          fun grown => Nat.lt_of_lt_of_le (bound id rfl) (second.trans grown).census.packages
        have third : Grows _ withConstants :=
          .foldlM constantsNamed second.consistent fun _ _ _ _ grown taken =>
            addConstant_grows (.package id) grown.consistent (present grown) taken
        have fourth : Grows _ withEnumerations :=
          third.trans (.foldlM enumerationsNamed third.consistent fun _ _ _ _ grown taken =>
            addEnumeration_grows (.package id) grown.consistent
              (present (third.trans grown)) taken)
        have fifth : Grows _ withPackages :=
          fourth.trans (addPackageDeclarations_grows fourth.consistent
            (fun outer member => by cases member; exact present fourth) packages packagesNamed)
        have sixth : Grows _ after :=
          fifth.trans (.foldlM recordsNamed fifth.consistent fun _ _ _ _ grown taken =>
            addRecord_grows grown.consistent (present (fifth.trans grown)) taken)
        exact first.trans (second.trans sixth)

private theorem addPackageDeclarations_grows {included : Bool} {parent : Option PackageId}
    {draft after : Draft} (consistent : draft.Consistent)
    (inside : ∀ outer ∈ parent, outer.index < draft.model.packages.size) :
    (declarations : List Declaration.Package) →
      addPackageDeclarations included parent draft declarations = .ok after → Grows draft after
  | [], accepted => by
    rw [addPackageDeclarations] at accepted
    cases accepted
    exact .refl consistent
  | declaration :: rest, accepted => by
    rw [addPackageDeclarations] at accepted
    obtain ⟨extended, one, others⟩ := bind_ok accepted
    have first := addPackageDeclaration_grows consistent inside declaration one
    have outside : ∀ outer ∈ parent, outer.index < extended.model.packages.size :=
      fun outer member => Nat.lt_of_lt_of_le (inside outer member) first.census.packages
    exact first.trans (addPackageDeclarations_grows first.consistent outside rest others)

end

theorem foldl_addHeader (headers : List String) (model : Model) :
    ∃ useHeaders, headers.foldl addHeader model = { model with useHeaders } := by
  refine List.foldlRecOn (motive := fun later : Model =>
    ∃ useHeaders, later = { model with useHeaders }) headers addHeader ⟨_, rfl⟩ ?_
  rintro later ⟨useHeaders, rfl⟩ header _
  unfold addHeader
  split <;> exact ⟨_, rfl⟩

theorem addHeaders_grows {draft : Draft} (consistent : draft.Consistent) (headers : List String) :
    Grows draft { draft with model := headers.foldl addHeader draft.model } := by
  obtain ⟨useHeaders, same⟩ := foldl_addHeader headers draft.model
  rw [same]
  exact consistent.relinked { SameLinks.refl draft.model with } { Keeps.refl draft.model with }
    { consistent.wellScoped.closed with } rfl rfl rfl consistent.fresh

private theorem addUnit_grows {draft after : Draft} (consistent : draft.Consistent) {source : SourceUnit}
    (accepted : addUnit draft source = .ok after) : Grows draft after := by
  simp only [addUnit] at accepted
  obtain ⟨extended, declared, accepted⟩ := bind_ok accepted
  have first := addPackageDeclarations_grows consistent (fun outer member => by cases member)
    source.document.packages declared
  split at accepted
  · cases accepted
    exact first
  · cases accepted
    exact first.trans (addHeaders_grows first.consistent _)

theorem consistent_empty : Draft.Consistent {} where
  wellScoped :=
    { closed := Model.closedFor_iff.mpr (by simp [Model.references])
      named := by
        rintro (id | id | id | id) inside <;> exact absurd inside (Nat.not_lt_zero _)
      parentBefore := fun id inside => absurd inside (Nat.not_lt_zero _) }
  noAttributes := rfl
  noBitfields := rfl
  noMethods := rfl
  fresh := fun _ => rfl
  records := fun _ waits => by simp at waits
  packs := fun _ waits => by simp at waits
  constants := fun _ waits => by simp at waits
  enumerations := fun _ waits => by simp at waits

/-- The names of any accepted units form scopes without gaps. -/
theorem ofUnits_consistent {units : List SourceUnit} {draft : Draft}
    (accepted : ofUnits units = .ok draft) : draft.Consistent :=
  (Grows.foldlM accepted consistent_empty fun _ _ _ _ grown taken =>
    addUnit_grows grown.consistent taken).consistent

end RecordSchema.Draft
