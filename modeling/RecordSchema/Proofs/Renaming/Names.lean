import Mathlib.Data.List.Nodup
import Mathlib.Tactic.Choose
import RecordSchema.Proofs.Renaming.Basic
import RecordSchema.Proofs.Resolution.Acceptance
import RecordSchema.Proofs.Resolution.Items

/-!
# The same names in two models

Units say the same if they have the same documents, in whatever order and with whatever marks. Two drafts
that represent the same items but for marks and order have the same names: a renaming takes every
declaration of the one to the declaration of the other that stands at the same site under the same name.
It takes what a name stands for in a place to what it stands for there.
-/

set_option autoImplicit false

namespace RecordSchema

open Model

/-- A declaration as a primary unit would say it. -/
def Declared.unmarked : Declared → Declared
  | record _ declaration => record false declaration
  | declaration => declaration

/-- An item as a primary unit would say it. -/
def Item.unmarked : Item → Item
  | package path _ => package path false
  | declared site declaration => declared site declaration.unmarked
  | unnamed => unnamed

/-- Two lists have the same items but for marks. -/
def SameItems (items items' : List Item) : Prop :=
  (items.map Item.unmarked).Perm (items'.map Item.unmarked)

namespace SameItems

variable {items items' : List Item}

theorem symm (same : SameItems items items') : SameItems items' items :=
  List.Perm.symm same

theorem opened (same : SameItems items items') {path : List String} {mark : Bool}
    (member : .package path mark ∈ items) : ∃ mark, .package path mark ∈ items' := by
  have listed := same.mem_iff.mp (List.mem_map_of_mem member)
  obtain ⟨item, held, equal⟩ := List.mem_map.mp listed
  cases item with
  | package path mark =>
    cases equal
    exact ⟨mark, held⟩
  | declared _ _ | unnamed => cases equal

theorem declared (same : SameItems items items') {site : Site} {declaration : Declared}
    (member : .declared site declaration ∈ items) :
    ∃ other : Declared, other.unmarked = declaration.unmarked ∧ .declared site other ∈ items' := by
  have listed := same.mem_iff.mp (List.mem_map_of_mem member)
  obtain ⟨item, held, equal⟩ := List.mem_map.mp listed
  cases item with
  | declared place other =>
    have parts := Item.declared.inj equal
    exact ⟨other, parts.2, parts.1 ▸ held⟩
  | package _ _ | unnamed => cases equal

/-- Marks and order make no difference to what fits together. -/
theorem fits (same : SameItems items items') (fits : Fits items) : Fits items' := by
  have keys : ∀ list : List Item,
      (list.map Item.unmarked).filterMap Item.key? = list.filterMap Item.key? := by
    intro list
    rw [List.filterMap_map]
    congr 1
    funext item
    rcases item with _ | ⟨_, _ | _ | _⟩ | _ <;> rfl
  have named : ∀ item : Item, item.unmarked.isNamed = item.isNamed := by
    rintro (_ | ⟨_, _ | _ | _⟩ | _) <;> rfl
  have keyPerm := List.Perm.filterMap Item.key? same
  rw [keys, keys] at keyPerm
  constructor
  case named =>
    intro item member
    obtain ⟨other, held, equal⟩ := List.mem_map.mp (same.mem_iff.mpr (List.mem_map_of_mem member))
    rw [← named, ← equal, named]
    exact fits.named other held
  case distinct => exact keyPerm.nodup fits.distinct
  case apart =>
    intro outer name mark member taken
    obtain ⟨mark, held⟩ := same.symm.opened member
    exact fits.apart outer name mark held (keyPerm.mem_iff.mpr taken)

end SameItems

namespace Item

private theorem unmarked_opening (mark : Bool) (outer names : List String) :
    (opening mark outer names).map unmarked = opening false outer names := by
  induction names generalizing outer with
  | nil => rfl
  | cons name rest ih => rw [opening, List.map_cons, ih, opening, unmarked]

private theorem unmarked_ofRecord (mark : Bool) (path : List String) (declaration : Declaration.Record) :
    (ofRecord mark path declaration).map unmarked = ofRecord false path declaration := by
  rw [ofRecord, List.map_cons, List.map_append, List.map_map, List.map_map]
  rfl

mutual

private theorem unmarked_ofPackage (mark : Bool) (outer : List String) :
    (declaration : Declaration.Package) →
      (ofPackage mark outer declaration).map unmarked = ofPackage false outer declaration
  | .mk name comment tags constants enumerations packages records => by
    rw [ofPackage, ofPackage]
    split
    · rfl
    · have records : ∀ path, (records.flatMap (ofRecord mark path)).map unmarked =
          records.flatMap (ofRecord false path) := by
        intro path
        simp only [List.map_flatMap, unmarked_ofRecord]
      simp only [List.map_append, unmarked_opening, unmarked_ofPackages mark _ packages, records,
        List.map_map]
      rfl

private theorem unmarked_ofPackages (mark : Bool) (outer : List String) :
    (declarations : List Declaration.Package) →
      (ofPackages mark outer declarations).map unmarked = ofPackages false outer declarations
  | [] => rfl
  | declaration :: rest => by
    rw [ofPackages, List.map_append, unmarked_ofPackage, unmarked_ofPackages, ofPackages]

end

/-- The same documents, in whatever order and with whatever marks, say the same. -/
theorem sameItems {units units' : List SourceUnit}
    (same : (units.map (·.document)).Perm (units'.map (·.document))) :
    SameItems (ofUnits units) (ofUnits units') := by
  have unmarked : ∀ units : List SourceUnit, (ofUnits units).map Item.unmarked =
      (units.map (·.document)).flatMap fun document => ofPackages false [] document.packages := by
    intro units
    simp only [ofUnits, ofUnit, List.map_flatMap, List.flatMap_map, unmarked_ofPackages]
  rw [SameItems, unmarked, unmarked]
  exact same.flatMap_right _

end Item

/-!
## The same names
-/

/-- Two finite ranges with the same keys, each of them once, are equally long, and a permutation takes
every position to the one with its key. -/
theorem exists_matching {ι κ : Type} (index : ι ≃ Nat) {size size' : Nat} {key key' : ι → κ}
    (injective : ∀ one other, index one < size → index other < size → key one = key other →
      one = other)
    (injective' : ∀ one other, index one < size' → index other < size' → key' one = key' other →
      one = other)
    (forth : ∀ one, index one < size → ∃ other, index other < size' ∧ key' other = key one)
    (back : ∀ other, index other < size' → ∃ one, index one < size ∧ key one = key' other) :
    size' = size ∧ ∃ matching : Equiv.Perm ι,
      (∀ one, index (matching one) < size ↔ index one < size) ∧
        ∀ one, index one < size → key' (matching one) = key one := by
  have distinct : ∀ {bound : Nat} {name : ι → κ},
      (∀ one other, index one < bound → index other < bound → name one = name other →
        one = other) → ((List.range bound).map fun position => name (index.symm position)).Nodup := by
    intro bound name separate
    refine List.Nodup.map_on (fun one inside other otherInside same => ?_) List.nodup_range
    refine index.symm.injective (separate _ _ ?_ ?_ same)
    · simpa using List.mem_range.mp inside
    · simpa using List.mem_range.mp otherInside
  have sizes : size' = size := by
    have same : ((List.range size').map fun position => key' (index.symm position)).Perm
        ((List.range size).map fun position => key (index.symm position)) := by
      refine (List.perm_ext_iff_of_nodup (distinct injective') (distinct injective)).mpr fun name => ?_
      simp only [List.mem_map, List.mem_range]
      constructor
      · rintro ⟨position, inside, rfl⟩
        obtain ⟨one, bound, same⟩ := back (index.symm position) (by simpa using inside)
        exact ⟨index one, bound, by simpa using same⟩
      · rintro ⟨position, inside, rfl⟩
        obtain ⟨one, bound, same⟩ := forth (index.symm position) (by simpa using inside)
        exact ⟨index one, bound, by simpa using same⟩
    simpa using same.length_eq
  subst sizes
  have : Nonempty ι := ⟨index.symm 0⟩
  choose! there thereInside thereKey using forth
  choose! home homeInside homeKey using back
  refine ⟨rfl, ⟨fun one => if index one < size' then there one else one,
    fun one => if index one < size' then home one else one, fun one => ?_, fun one => ?_⟩,
    fun one => ?_, fun one inside => ?_⟩
  · by_cases inside : index one < size'
    · have bound := thereInside one inside
      simp only [inside, if_true, bound]
      exact injective _ _ (homeInside _ bound) inside
        ((homeKey _ bound).trans (thereKey one inside))
    · simp [inside]
  · by_cases inside : index one < size'
    · have bound := homeInside one inside
      simp only [inside, if_true, bound]
      exact injective' _ _ (thereInside _ bound) inside
        ((thereKey _ bound).trans (homeKey one inside))
    · simp [inside]
  · by_cases inside : index one < size'
    · simp [inside, thereInside one inside]
    · simp [inside]
  · simpa [inside] using thereKey one inside


/-- Where a declaration stands, and its name. -/
def Model.key (model : Model) (member : Member) : Site × String :=
  (model.site (model.home member), model.memberName member)

theorem Model.WellNamed.key_injective {model : Model} (wellNamed : model.WellNamed)
    {one other : Member} (inside : one.reference.InRange model.census)
    (otherInside : other.reference.InRange model.census) (same : model.key one = model.key other) :
    one = other := by
  obtain ⟨site, name⟩ := Prod.mk.inj same
  refine wellNamed.member_eq inside otherInside (wellNamed.site_injective ?_ ?_ site) name
  · exact fun scope home => wellNamed.closed.home inside scope home
  · exact fun scope home => wellNamed.closed.home otherInside scope home

namespace Draft.Represents

variable {draft draft' : Draft} {items items' : List Item}

/-- What waits in one draft waits in the other. -/
theorem counterpart (represents : draft.Represents items) (represents' : draft'.Represents items')
    (same : SameItems items items') {member : Member} {declaration : Declared}
    (waits : (member, declaration) ∈ draft.waiting) :
    ∃ other saying, (other, saying) ∈ draft'.waiting ∧ saying.unmarked = declaration.unmarked ∧
      draft'.model.key other = draft.model.key member := by
  obtain ⟨saying, equal, held⟩ := same.declared (represents.declared_iff.mpr ⟨member, waits, rfl⟩)
  obtain ⟨other, waits', site⟩ := represents'.declared_iff.mp held
  have name : saying.name = declaration.name := by
    cases saying <;> cases declaration <;> cases equal <;> rfl
  refine ⟨other, saying, waits', equal, ?_⟩
  rw [Model.key, Model.key, site, represents'.names _ waits', represents.names _ waits, name]

theorem record_counterpart (represents : draft.Represents items)
    (represents' : draft'.Represents items') (same : SameItems items items')
    {pending : Pending RecordId Declaration.Record} (waits : pending ∈ draft.records) :
    ∃ pending' ∈ draft'.records, pending'.declaration = pending.declaration ∧
      draft'.model.key (.record pending'.id) = draft.model.key (.record pending.id) := by
  obtain ⟨other, saying, waits', equal, key⟩ :=
    represents.counterpart represents' same (mem_waiting.mpr (.inl ⟨pending, waits, rfl, rfl⟩))
  rcases mem_waiting.mp waits' with ⟨pending', held, rfl, rfl⟩ | ⟨_, _, _, rfl⟩ | ⟨_, _, _, rfl⟩
  · exact ⟨pending', held, (Declared.record.inj equal).2, key⟩
  · cases equal
  · cases equal

theorem constant_counterpart (represents : draft.Represents items)
    (represents' : draft'.Represents items') (same : SameItems items items')
    {pending : Pending ConstantId Declaration.Constant} (waits : pending ∈ draft.constants) :
    ∃ pending' ∈ draft'.constants, pending'.declaration = pending.declaration ∧
      draft'.model.key (.constant pending'.id) = draft.model.key (.constant pending.id) := by
  obtain ⟨other, saying, waits', equal, key⟩ := represents.counterpart represents' same
    (mem_waiting.mpr (.inr (.inl ⟨pending, waits, rfl, rfl⟩)))
  rcases mem_waiting.mp waits' with ⟨_, _, _, rfl⟩ | ⟨pending', held, rfl, rfl⟩ | ⟨_, _, _, rfl⟩
  · cases equal
  · exact ⟨pending', held, Declared.constant.inj equal, key⟩
  · cases equal

theorem enumeration_counterpart (represents : draft.Represents items)
    (represents' : draft'.Represents items') (same : SameItems items items')
    {pending : Pending EnumId Declaration.Enumeration} (waits : pending ∈ draft.enumerations) :
    ∃ pending' ∈ draft'.enumerations, pending'.declaration = pending.declaration ∧
      draft'.model.key (.enumeration pending'.id) = draft.model.key (.enumeration pending.id) := by
  obtain ⟨other, saying, waits', equal, key⟩ := represents.counterpart represents' same
    (mem_waiting.mpr (.inr (.inr ⟨pending, waits, rfl, rfl⟩)))
  rcases mem_waiting.mp waits' with ⟨_, _, _, rfl⟩ | ⟨_, _, _, rfl⟩ | ⟨pending', held, rfl, rfl⟩
  · cases equal
  · cases equal
  · exact ⟨pending', held, Declared.enumeration.inj equal, key⟩

end Draft.Represents

/-- A renaming takes the declarations of one model to those of another that stand at the same site
under the same name. -/
structure Matches (ρ : Renaming) (model model' : Model) : Prop where
  wellNamed : model.WellNamed
  wellNamed' : model'.WellNamed
  packages : model'.packages.size = model.packages.size
  records : model'.records.size = model.records.size
  enumerations : model'.enumerations.size = model.enumerations.size
  constants : model'.constants.size = model.constants.size
  inRange : ∀ member : Member,
    (member.rename ρ).reference.InRange model.census ↔ member.reference.InRange model.census
  key : ∀ member : Member, member.reference.InRange model.census →
    model'.key (member.rename ρ) = model.key member

/-- Declarations of one kind that stand in both models under the same keys are matched. -/
theorem Model.WellNamed.matching {model model' : Model} (wellNamed : model.WellNamed)
    (wellNamed' : model'.WellNamed) {ι : Type} (index : ι ≃ Nat) {size size' : Nat}
    {member : ι → Member} (distinct : Function.Injective member)
    (inside : ∀ id, index id < size ↔ (member id).reference.InRange model.census)
    (inside' : ∀ id, index id < size' ↔ (member id).reference.InRange model'.census)
    (forth : ∀ id, index id < size →
      ∃ other, index other < size' ∧ model'.key (member other) = model.key (member id))
    (back : ∀ other, index other < size' →
      ∃ id, index id < size ∧ model.key (member id) = model'.key (member other)) :
    size' = size ∧ ∃ matching : Equiv.Perm ι,
      (∀ id, index (matching id) < size ↔ index id < size) ∧
        ∀ id, index id < size → model'.key (member (matching id)) = model.key (member id) := by
  refine exists_matching index (fun one other here there same => ?_)
    (fun one other here there same => ?_) forth back
  · exact distinct (wellNamed.key_injective ((inside one).mp here) ((inside other).mp there) same)
  · exact distinct
      (wellNamed'.key_injective ((inside' one).mp here) ((inside' other).mp there) same)

namespace Draft.Represents

variable {draft draft' : Draft} {items items' : List Item}

private theorem package_counterpart (represents : draft.Represents items)
    (represents' : draft'.Represents items') (same : SameItems items items') {id : PackageId}
    (inside : id.index < draft.model.packages.size) :
    ∃ other : PackageId, other.index < draft'.model.packages.size ∧
      draft'.model.key (.package other) = draft.model.key (.package id) := by
  obtain ⟨mark, held⟩ := (represents.packages _).mpr ⟨id, inside, rfl⟩
  obtain ⟨mark, held⟩ := same.opened held
  obtain ⟨other, inside', path⟩ := (represents'.packages _).mp ⟨mark, held⟩
  refine ⟨other, inside', ?_⟩
  rw [represents.wellNamed.packageNames_eq inside, represents'.wellNamed.packageNames_eq inside']
    at path
  obtain ⟨outer, name⟩ := List.append_inj' path rfl
  rw [Model.key, Model.key, Model.home, Model.home, site_package, site_package, outer]
  exact congrArg _ (List.cons.inj name).1

/-- Every identifier of a record type, constant or enumeration waits. -/
theorem pending_of_record (represents : draft.Represents items) {id : RecordId}
    (inside : id.index < draft.model.records.size) : ∃ pending ∈ draft.records, pending.id = id := by
  have inRange : (Member.record id).reference.InRange draft.model.census := inside
  rcases represents.waits inRange with ⟨_, other⟩ | ⟨declaration, waits⟩
  · cases other
  · rcases mem_waiting.mp waits with ⟨pending, held, same, _⟩ | ⟨_, _, other, _⟩ | ⟨_, _, other, _⟩
    · exact ⟨pending, held, (Member.record.inj same).symm⟩
    · cases other
    · cases other

private theorem pending_of_constant (represents : draft.Represents items) {id : ConstantId}
    (inside : id.index < draft.model.constants.size) :
    ∃ pending ∈ draft.constants, pending.id = id := by
  have inRange : (Member.constant id).reference.InRange draft.model.census := inside
  rcases represents.waits inRange with ⟨_, other⟩ | ⟨declaration, waits⟩
  · cases other
  · rcases mem_waiting.mp waits with ⟨_, _, other, _⟩ | ⟨pending, held, same, _⟩ | ⟨_, _, other, _⟩
    · cases other
    · exact ⟨pending, held, (Member.constant.inj same).symm⟩
    · cases other

theorem pending_of_enumeration (represents : draft.Represents items) {id : EnumId}
    (inside : id.index < draft.model.enumerations.size) :
    ∃ pending ∈ draft.enumerations, pending.id = id := by
  have inRange : (Member.enumeration id).reference.InRange draft.model.census := inside
  rcases represents.waits inRange with ⟨_, other⟩ | ⟨declaration, waits⟩
  · cases other
  · rcases mem_waiting.mp waits with ⟨_, _, other, _⟩ | ⟨_, _, other, _⟩ | ⟨pending, held, same, _⟩
    · cases other
    · cases other
    · exact ⟨pending, held, (Member.enumeration.inj same).symm⟩

section Counterparts

variable (represents : draft.Represents items) (represents' : draft'.Represents items')
  (same : SameItems items items')

include represents represents' same

private theorem exists_record_key {id : RecordId} (inside : id.index < draft.model.records.size) :
    ∃ other : RecordId, other.index < draft'.model.records.size ∧
      draft'.model.key (.record other) = draft.model.key (.record id) := by
  obtain ⟨pending, held, rfl⟩ := represents.pending_of_record inside
  obtain ⟨pending', held', _, key⟩ := represents.record_counterpart represents' same held
  exact ⟨pending'.id, represents'.consistent.records pending' held', key⟩

private theorem exists_constant_key {id : ConstantId} (inside : id.index < draft.model.constants.size) :
    ∃ other : ConstantId, other.index < draft'.model.constants.size ∧
      draft'.model.key (.constant other) = draft.model.key (.constant id) := by
  obtain ⟨pending, held, rfl⟩ := represents.pending_of_constant inside
  obtain ⟨pending', held', _, key⟩ := represents.constant_counterpart represents' same held
  exact ⟨pending'.id, represents'.consistent.constants pending' held', key⟩

private theorem exists_enumeration_key {id : EnumId} (inside : id.index < draft.model.enumerations.size) :
    ∃ other : EnumId, other.index < draft'.model.enumerations.size ∧
      draft'.model.key (.enumeration other) = draft.model.key (.enumeration id) := by
  obtain ⟨pending, held, rfl⟩ := represents.pending_of_enumeration inside
  obtain ⟨pending', held', _, key⟩ := represents.enumeration_counterpart represents' same held
  exact ⟨pending'.id, represents'.consistent.enumerations pending' held', key⟩

/-- Drafts of the same items are matched by a renaming. -/
theorem exists_matches : ∃ ρ, Matches ρ draft.model draft'.model := by
  have wellNamed := represents.wellNamed
  have wellNamed' := represents'.wellNamed
  obtain ⟨packageCount, package, packageRange, packageKey⟩ := wellNamed.matching wellNamed'
    ⟨PackageId.index, PackageId.mk, fun _ => rfl, fun _ => rfl⟩ (fun _ _ => Member.package.inj)
    (fun _ => Iff.rfl) (fun _ => Iff.rfl)
    (fun _ inside => represents.package_counterpart represents' same inside)
    fun _ inside => represents'.package_counterpart represents same.symm inside
  obtain ⟨recordCount, record, recordRange, recordKey⟩ := wellNamed.matching wellNamed'
    ⟨RecordId.index, RecordId.mk, fun _ => rfl, fun _ => rfl⟩ (fun _ _ => Member.record.inj)
    (fun _ => Iff.rfl) (fun _ => Iff.rfl)
    (fun _ => represents.exists_record_key represents' same)
    fun _ => represents'.exists_record_key represents same.symm
  obtain ⟨enumerationCount, enumeration, enumerationRange, enumerationKey⟩ :=
    wellNamed.matching wellNamed' ⟨EnumId.index, EnumId.mk, fun _ => rfl, fun _ => rfl⟩
      (fun _ _ => Member.enumeration.inj) (fun _ => Iff.rfl) (fun _ => Iff.rfl)
      (fun _ => represents.exists_enumeration_key represents' same)
      fun _ => represents'.exists_enumeration_key represents same.symm
  obtain ⟨constantCount, constant, constantRange, constantKey⟩ := wellNamed.matching wellNamed'
    ⟨ConstantId.index, ConstantId.mk, fun _ => rfl, fun _ => rfl⟩ (fun _ _ => Member.constant.inj)
    (fun _ => Iff.rfl) (fun _ => Iff.rfl) (fun _ => represents.exists_constant_key represents' same)
    fun _ => represents'.exists_constant_key represents same.symm
  refine ⟨⟨package, record, enumeration, constant⟩, ?_⟩
  constructor
  case inRange =>
    rintro (id | id | id | id)
    · exact packageRange id
    · exact recordRange id
    · exact enumerationRange id
    · exact constantRange id
  case key =>
    rintro (id | id | id | id) inside
    · exact packageKey id inside
    · exact recordKey id inside
    · exact enumerationKey id inside
    · exact constantKey id inside
  all_goals assumption

end Counterparts

end Draft.Represents

end RecordSchema
