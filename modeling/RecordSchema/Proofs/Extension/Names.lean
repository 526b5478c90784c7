import RecordSchema.Proofs.Extension.Within
import RecordSchema.Proofs.Resolution.Names

/-!
# Names of units that are added

Units whose outermost packages have new names declare everything in packages of their own. What is there
before stays as it is, keeps its identifiers, and is the first that waits to be resolved.
-/

set_option autoImplicit false

namespace RecordSchema

open Model Outcome

theorem Model.outermost?_eq_none {model : Model} {name : String} :
    model.outermost? name = none ↔ model.roots.lookup name = none ∧ Builtin.ofName? name = none := by
  unfold Model.outermost?
  cases model.roots.lookup name <;> simp

/-- The name of the outermost package that a declaration opens. -/
def Declaration.Package.outermost? : Declaration.Package → Option String
  | .mk name _ _ _ _ _ _ => (Draft.segments name).head?

/-- A model goes beyond a base by packages of new names, and by what is in them. -/
structure Model.Beyond (base model : Model) : Prop extends Within id base model where
  roots : ∀ name root, base.roots.lookup name = none → model.roots.lookup name = some root →
    base.packages.size ≤ root.index
  nested : ∀ id : PackageId, base.packages.size ≤ id.index →
    ∀ entry ∈ (model.package id).members, ∀ inner, entry.2 = .package inner →
      base.packages.size ≤ inner.index

/-- A place that is no part of the base. -/
def Model.Outside (base : Model) : Scope → Prop
  | .package id => base.packages.size ≤ id.index
  | .record id => base.records.size ≤ id.index

namespace Model.Beyond

variable {base model : Model} (beyond : Beyond base model)

include beyond

private theorem lookup_nested {outer : PackageId} (outside : base.packages.size ≤ outer.index)
    {name : String}
    {inner : PackageId} (found : (model.package outer).members.lookup name = some (.package inner)) :
    base.packages.size ≤ inner.index :=
  beyond.nested outer outside _ (mem_of_lookup found) inner rfl

theorem modifyPackage {id : PackageId} (outside : base.packages.size ≤ id.index)
    {change : Package → Package}
    (listed : ∀ package : Package, ∀ entry ∈ (change package).members, entry ∈ package.members ∨
      ∀ inner, entry.2 = .package inner → base.packages.size ≤ inner.index) :
    Beyond base (model.modifyPackage id change) :=
  { beyond.toWithin.modifyPackage outside change with
    roots := beyond.roots
    nested := fun other outside entry member inner named => by
      rw [package_modifyPackage] at member
      split at member
      · rcases listed _ entry member with old | new
        · exact beyond.nested other outside entry old inner named
        · exact new inner named
      · exact beyond.nested other outside entry member inner named }

theorem listIn {scope : Scope} (outside : base.Outside scope) (name : String) {member : Member}
    (new : ∀ inner, member = .package inner → base.packages.size ≤ inner.index)
    (change : Record → Record) : Beyond base (Draft.listIn model scope name member change) := by
  cases scope with
  | package package =>
    refine beyond.modifyPackage outside fun item entry listed => ?_
    rcases List.mem_append.mp listed with old | last
    · exact .inl old
    · cases List.mem_singleton.mp last
      exact .inr new
  | record record =>
    exact
      { beyond.toWithin.modifyRecord outside change with
        roots := beyond.roots
        nested := beyond.nested }

theorem pushRecord (added : Record) : Beyond base (model.pushRecord added) :=
  { beyond.toWithin.pushRecord added with
    roots := beyond.roots
    nested := beyond.nested }

theorem pushConstant (added : Constant) : Beyond base (model.pushConstant added) :=
  { beyond.toWithin.pushConstant added with
    roots := beyond.roots
    nested := beyond.nested }

theorem pushEnumeration (added : Enumeration) : Beyond base (model.pushEnumeration added) :=
  { beyond.toWithin.pushEnumeration added with
    roots := beyond.roots
    nested := beyond.nested }

theorem pushPackage {added : Package} (empty : added.members = []) :
    Beyond base (model.pushPackage added) :=
  { beyond.toWithin.pushPackage added with
    roots := beyond.roots
    nested := fun other outside entry member inner named => by
      rw [package_pushPackage] at member
      split at member
      · rw [empty] at member
        cases member
      · exact beyond.nested other outside entry member inner named }

/-- One more outermost package, which hides no built-in type. -/
theorem addRoot {name : String} {root : PackageId} (outside : base.packages.size ≤ root.index)
    (plain : Builtin.ofName? name = none) :
    Beyond base { model with roots := model.roots ++ [(name, root)] } :=
  { beyond with
    roots := fun other id unknown found => by
      rw [List.lookup_append, Option.or_eq_some_iff] at found
      rcases found with old | ⟨_, last⟩
      · exact beyond.roots other id unknown old
      · obtain ⟨rfl, rfl⟩ : other = name ∧ id = root := by simpa using mem_of_lookup last
        exact outside
    outermost := fun other meaning found => by
      have known := beyond.outermost other meaning found
      unfold Model.outermost? at known ⊢
      rw [List.lookup_append]
      cases listed : model.roots.lookup other with
      | some first =>
        rw [listed] at known
        exact known
      | none =>
        rw [listed] at known
        have different : (other == name) = false := by
          refine beq_eq_false_iff_ne.mpr fun same => ?_
          rw [same, plain] at known
          cases known
        rw [Option.none_or, List.lookup_cons, different]
        exact known }

end Model.Beyond

namespace Draft

/-- A draft that goes beyond another one; what waited there waits here first. -/
structure Beyond (base draft : Draft) : Prop where
  model : base.model.Beyond draft.model
  records : ∃ more, draft.records.toList = base.records.toList ++ more ∧
    ∀ pending ∈ more, base.model.records.size ≤ pending.id.index
  constants : ∃ more, draft.constants.toList = base.constants.toList ++ more ∧
    ∀ pending ∈ more, base.model.constants.size ≤ pending.id.index
  enumerations : ∃ more, draft.enumerations.toList = base.enumerations.toList ++ more ∧
    ∀ pending ∈ more, base.model.enumerations.size ≤ pending.id.index

theorem Beyond.refl (base : Draft) : Beyond base base where
  model :=
    { census := Census.le_refl _
      package := fun _ _ => rfl
      record := fun _ _ => (Record.renumber_id _).symm
      attr := fun _ _ => by simp [Attribute.renumber]
      bitfield := fun _ _ => by simp [Bitfield.renumber]
      method := fun _ inside => ⟨inside, rfl⟩
      enumeration := fun _ _ => rfl
      constant := fun _ _ => rfl
      outermost := fun _ _ found => found
      roots := fun name root none found => by rw [none] at found; cases found
      nested := fun id outside entry member => by
        rw [base.model.package_eq_default (Nat.not_lt_of_le outside)] at member
        cases member }
  records := ⟨[], (List.append_nil _).symm, fun _ none => nomatch none⟩
  constants := ⟨[], (List.append_nil _).symm, fun _ none => nomatch none⟩
  enumerations := ⟨[], (List.append_nil _).symm, fun _ none => nomatch none⟩

/-- What comes after a list of declarations that wait. -/
theorem push_waits {ι δ : Type} {index : ι → Nat} {bound : Nat} {base items : Array (Pending ι δ)}
    (waits : ∃ more, items.toList = base.toList ++ more ∧ ∀ pending ∈ more, bound ≤ index pending.id)
    {added : Pending ι δ} (outside : bound ≤ index added.id) :
    ∃ more, (items.push added).toList = base.toList ++ more ∧
      ∀ pending ∈ more, bound ≤ index pending.id := by
  obtain ⟨more, split, apart⟩ := waits
  refine ⟨more ++ [added], by rw [Array.toList_push, split, List.append_assoc], ?_⟩
  intro pending listed
  rcases List.mem_append.mp listed with old | last
  · exact apart pending old
  · cases List.mem_singleton.mp last
    exact outside

/-- Where the packages of a declaration are opened: under a new name, or in a package that is new. -/
def Opens (base : Draft) (names : List String) : Option PackageId → Prop
  | none => ∀ name ∈ names.head?, base.model.outermost? name = none
  | some outer => base.model.packages.size ≤ outer.index

section Beyond

variable {base draft : Draft} (beyond : Beyond base draft)

include beyond

private theorem openPackage_beyond {parent : Option PackageId} {name : String} {rest : List String}
    (opens : base.Opens (name :: rest) parent) {included : Bool} {opened : Model} {id : PackageId}
    (accepted : openPackage draft.model parent name included = .ok (opened, id)) :
    base.model.Beyond opened ∧ base.model.packages.size ≤ id.index := by
  obtain ⟨existing, named, accepted⟩ := bind_ok accepted
  cases existing with
  | some found =>
    have outside : base.model.packages.size ≤ found.index := by
      cases parent with
      | none =>
        obtain ⟨unknown, _⟩ := Model.outermost?_eq_none.mp (opens name rfl)
        exact beyond.model.roots name found unknown (Except.ok.inj named)
      | some outer =>
        simp only [packageNamed] at named
        split at named
        · cases named
        · rename_i known
          cases named
          exact beyond.model.lookup_nested opens known
        · cases named
    dsimp only at accepted
    split at accepted
    · cases accepted
      exact ⟨beyond.model, outside⟩
    · cases accepted
      exact ⟨beyond.model.modifyPackage outside fun _ _ listed => .inl listed, outside⟩
  | none =>
    have last : base.model.packages.size ≤ (⟨draft.model.packages.size⟩ : PackageId).index :=
      beyond.model.census.packages
    cases parent with
    | none =>
      cases accepted
      obtain ⟨_, plain⟩ := Model.outermost?_eq_none.mp (opens name rfl)
      exact ⟨(beyond.model.pushPackage rfl).addRoot last plain, last⟩
    | some outer =>
      cases accepted
      refine ⟨(beyond.model.pushPackage rfl).modifyPackage opens fun item entry listed => ?_, last⟩
      rcases List.mem_append.mp listed with old | new
      · exact .inl old
      · cases List.mem_singleton.mp new
        refine .inr fun inner named => ?_
        cases named
        exact last

omit beyond in
private theorem Beyond.withModel (beyond : Beyond base draft) {model : Model}
    (further : base.model.Beyond model) : Beyond base { draft with model } :=
  { beyond with model := further }

omit beyond in
private theorem openSegments_beyond {draft : Draft} (beyond : Beyond base draft) {names : List String}
    {parent : Option PackageId} (opens : base.Opens names parent) {included : Bool} {opened : Model}
    {innermost : Option PackageId}
    (accepted : openSegments included draft.model parent names = .ok (opened, innermost)) :
    base.model.Beyond opened ∧ ∀ id ∈ innermost, base.model.packages.size ≤ id.index := by
  induction names generalizing draft parent with
  | nil =>
    cases accepted
    refine ⟨beyond.model, fun id same => ?_⟩
    cases same
    exact opens
  | cons name rest ih =>
    obtain ⟨⟨first, id⟩, one, accepted⟩ := bind_ok accepted
    obtain ⟨further, outside⟩ := openPackage_beyond beyond opens one
    have inner : base.Opens rest (some id) := outside
    exact ih (beyond.withModel further) inner accepted

private theorem addConstant_beyond {scope : Scope} (outside : base.model.Outside scope) {path : String}
    {declaration : Declaration.Constant} {after : Draft}
    (accepted : addConstant scope path draft declaration = .ok after) : Beyond base after := by
  obtain ⟨constant, _, _, _, rfl⟩ := addConstant_ok accepted
  exact
    { beyond with
      model := (beyond.model.pushConstant constant).listIn outside _ (by intro _ other; cases other) _
      constants := push_waits beyond.constants beyond.model.census.constants }

private theorem addEnumeration_beyond {scope : Scope} (outside : base.model.Outside scope) {path : String}
    {declaration : Declaration.Enumeration} {after : Draft}
    (accepted : addEnumeration scope path draft declaration = .ok after) : Beyond base after := by
  obtain ⟨enumeration, _, _, _, rfl⟩ := addEnumeration_ok accepted
  exact
    { beyond with
      model := (beyond.model.pushEnumeration enumeration).listIn outside _ (by intro _ other; cases other) _
      enumerations := push_waits beyond.enumerations beyond.model.census.enumerations }

private theorem addRecord_beyond {package : PackageId}
    (outside : base.model.packages.size ≤ package.index) {included : Bool}
    {declaration : Declaration.Record} {after : Draft}
    (accepted : addRecord package included draft declaration = .ok after) : Beyond base after := by
  have new : base.model.Outside (.package package) := outside
  have last : base.model.Outside (.record ⟨draft.model.records.size⟩) :=
    beyond.model.census.records
  simp only [addRecord] at accepted
  obtain ⟨extended, named, accepted⟩ := bind_ok accepted
  obtain ⟨withConstants, constants, accepted⟩ := bind_ok accepted
  obtain ⟨complete, enumerations, accepted⟩ := bind_ok accepted
  cases accepted
  obtain ⟨record, _, _, _, _, _, _, _, _, rfl⟩ := nameRecord_ok named
  have listed : base.model.Beyond (listIn (draft.model.pushRecord record) (.package package)
      declaration.name (.record ⟨draft.model.records.size⟩) id) :=
    (beyond.model.pushRecord record).listIn new _ (by intro _ other; cases other) _
  have second := foldlM_preserves constants (Beyond base) (beyond.withModel listed)
    fun _ _ _ _ reached taken => addConstant_beyond reached last taken
  have third := foldlM_preserves enumerations (Beyond base) second
    fun _ _ _ _ reached taken => addEnumeration_beyond reached last taken
  exact { third with records := push_waits third.records last }

end Beyond

mutual

private theorem addPackageDeclaration_beyond {base draft after : Draft} (beyond : Beyond base draft)
    {included : Bool} {parent : Option PackageId} :
    (declaration : Declaration.Package) → base.Opens declaration.outermost?.toList parent →
      addPackageDeclaration included parent draft declaration = .ok after → Beyond base after
  | .mk name comment tags constants enumerations packages records, opens, accepted => by
    rw [addPackageDeclaration] at accepted
    obtain ⟨⟨opened, innermost⟩, segmentsOpened, accepted⟩ := bind_ok accepted
    have opening : base.Opens (segments name) parent := by
      cases parent with
      | none =>
        intro first head
        exact opens first (by simp [Declaration.Package.outermost?, Option.mem_def.mp head])
      | some outer => exact opens
    obtain ⟨first, outside⟩ := openSegments_beyond beyond opening segmentsOpened
    cases innermost with
    | none => cases accepted
    | some id =>
      have new : base.model.Outside (.package id) := outside id rfl
      simp only [bind, Except.bind] at accepted
      split at accepted
      · cases accepted
      · obtain ⟨withConstants, constantsNamed, accepted⟩ := bind_ok accepted
        obtain ⟨withEnumerations, enumerationsNamed, accepted⟩ := bind_ok accepted
        obtain ⟨withPackages, packagesNamed, recordsNamed⟩ := bind_ok accepted
        have annotated : base.model.Beyond (opened.modifyPackage id (annotatePackage comment tags)) :=
          first.modifyPackage new fun package entry listed =>
            .inl ((annotatePackage_links comment tags package).2.1 ▸ listed)
        have third := foldlM_preserves constantsNamed (Beyond base) (beyond.withModel annotated)
          fun _ _ _ _ reached taken => addConstant_beyond reached new taken
        have fourth := foldlM_preserves enumerationsNamed (Beyond base) third
          fun _ _ _ _ reached taken => addEnumeration_beyond reached new taken
        have inner : ∀ declaration ∈ packages,
            base.Opens declaration.outermost?.toList (some id) := fun _ _ => new
        have fifth := addPackageDeclarations_beyond fourth packages inner packagesNamed
        exact foldlM_preserves recordsNamed (Beyond base) fifth
          fun _ _ _ _ reached taken => addRecord_beyond reached new taken

private theorem addPackageDeclarations_beyond {base draft after : Draft} (beyond : Beyond base draft)
    {included : Bool} {parent : Option PackageId} :
    (declarations : List Declaration.Package) →
      (∀ declaration ∈ declarations, base.Opens declaration.outermost?.toList parent) →
        addPackageDeclarations included parent draft declarations = .ok after → Beyond base after
  | [], _, accepted => by
    rw [addPackageDeclarations] at accepted
    cases accepted
    exact beyond
  | declaration :: rest, opens, accepted => by
    rw [addPackageDeclarations] at accepted
    obtain ⟨extended, one, others⟩ := bind_ok accepted
    obtain ⟨here, later⟩ := List.forall_mem_cons.mp opens
    exact addPackageDeclarations_beyond (addPackageDeclaration_beyond beyond declaration here one) rest
      later others

end

private theorem addUnit_beyond {base draft after : Draft} (beyond : Beyond base draft) {source : SourceUnit}
    (apart : ∀ declaration ∈ source.document.packages, ∀ name ∈ declaration.outermost?,
      base.model.outermost? name = none)
    (accepted : addUnit draft source = .ok after) : Beyond base after := by
  simp only [addUnit] at accepted
  obtain ⟨extended, declared, accepted⟩ := bind_ok accepted
  have opens : ∀ declaration ∈ source.document.packages,
      base.Opens declaration.outermost?.toList none :=
    fun declaration listed name head => apart declaration listed name (by simpa using head)
  have first := addPackageDeclarations_beyond beyond source.document.packages opens declared
  split at accepted
  · cases accepted
    exact first
  · cases accepted
    obtain ⟨useHeaders, same⟩ := foldl_addHeader (source.document.imports.flatMap (·.headers))
      extended.model
    rw [same]
    exact first.withModel { first.model with }

/-- Units whose outermost packages have new names go beyond the units before them. -/
theorem ofUnits_beyond {units added : List SourceUnit} {base draft : Draft}
    (accepted : ofUnits units = .ok base) (accepted' : ofUnits (units ++ added) = .ok draft)
    (apart : ∀ source ∈ added, ∀ declaration ∈ source.document.packages,
      ∀ name ∈ declaration.outermost?, base.model.outermost? name = none) : Beyond base draft := by
  rw [ofUnits, List.foldlM_append] at accepted'
  obtain ⟨middle, first, second⟩ := bind_ok accepted'
  cases accepted.symm.trans first
  exact foldlM_preserves second (Beyond base) (.refl base)
    fun source listed _ _ reached taken => addUnit_beyond reached (apart source listed) taken

end Draft

end RecordSchema
