import Mathlib.Data.List.Forall2
import RecordSchema.Proofs.Renaming.Scopes
import RecordSchema.Proofs.Renaming.Basic
import RecordSchema.Proofs.TwoRuns
import RecordSchema.Resolution.Constructors

/-!
# Models that look alike

Two models look alike under a renaming if corresponding declarations stand at the same places under the
same names and show the same. Members are then found alike, whatever their identifiers are. A pass over
the record types that wait in two drafts keeps models alike if every step does.
-/

set_option autoImplicit false

namespace RecordSchema

open Model Outcome

/-!
## Lists side by side
-/

section Lists

variable {α β γ δ : Type} {related : α → β → Prop} {items : List α} {items' : List β}

theorem forall₂_eq_iff {translate : γ → δ} {results : List γ} {results' : List δ} :
    List.Forall₂ (fun result result' => result' = translate result) results results' ↔
      results' = results.map translate := by
  rw [eq_comm, ← congrFun (congrFun List.forall₂_eq_eq_eq _) results', List.forall₂_map_left_iff]
  exact ⟨List.Forall₂.imp fun _ _ => Eq.symm, List.Forall₂.imp fun _ _ => Eq.symm⟩

theorem forall₂_map_iff {view : α → γ} {view' : β → δ} {translate : γ → δ} :
    List.Forall₂ (fun item item' => view' item' = translate (view item)) items items' ↔
      items'.map view' = (items.map view).map translate := by
  rw [← forall₂_eq_iff, List.forall₂_map_left_iff, List.forall₂_map_right_iff]

/-- What is paired is in the lists. -/
theorem forall₂_mem (pairs : List.Forall₂ related items items') :
    List.Forall₂ (fun item item' => item ∈ items ∧ item' ∈ items' ∧ related item item') items
      items' := by
  induction pairs with
  | nil => exact .nil
  | cons here _ ih =>
    refine .cons ⟨List.mem_cons_self, List.mem_cons_self, here⟩ (ih.imp ?_)
    exact fun _ _ ⟨listed, listed', same⟩ =>
      ⟨List.mem_cons_of_mem _ listed, List.mem_cons_of_mem _ listed', same⟩

theorem exists_of_forall₂ (pairs : List.Forall₂ related items items') {item : α}
    (listed : item ∈ items) : ∃ item' ∈ items', related item item' := by
  induction pairs with
  | nil => cases listed
  | cons here _ ih =>
    rcases List.mem_cons.mp listed with rfl | later
    · exact ⟨_, List.mem_cons_self, here⟩
    · obtain ⟨item', listed', same⟩ := ih later
      exact ⟨item', List.mem_cons_of_mem _ listed', same⟩

theorem forall₂_find? (pairs : List.Forall₂ related items items') {test : α → Bool} {test' : β → Bool}
    (same : ∀ item item', related item item' → test' item' = test item) :
    Option.Rel related (items.find? test) (items'.find? test') := by
  induction pairs with
  | nil => exact .none
  | cons here _ ih =>
    rw [List.find?_cons, List.find?_cons, same _ _ here]
    split
    · exact .some here
    · exact ih

theorem forall₂_findSome? {onward : γ → δ → Prop} (pairs : List.Forall₂ related items items')
    {find : α → Option γ} {find' : β → Option δ}
    (same : ∀ item item', related item item' → Option.Rel onward (find item) (find' item')) :
    Option.Rel onward (items.findSome? find) (items'.findSome? find') := by
  induction pairs with
  | nil => exact .none
  | cons here _ ih =>
    rw [List.findSome?_cons, List.findSome?_cons]
    match find _, find' _, same _ _ here with
    | _, _, .none => exact ih
    | _, _, .some found => exact .some found

theorem forall₂_any (pairs : List.Forall₂ related items items') {test : α → Bool} {test' : β → Bool}
    (same : ∀ item item', related item item' → test' item' = test item) :
    items'.any test' = items.any test := by
  induction pairs with
  | nil => rfl
  | cons here _ ih => rw [List.any_cons, List.any_cons, same _ _ here, ih]

theorem forall₂_all (pairs : List.Forall₂ related items items') {test : α → Bool} {test' : β → Bool}
    (same : ∀ item item', related item item' → test' item' = test item) :
    items'.all test' = items.all test := by
  induction pairs with
  | nil => rfl
  | cons here _ ih => rw [List.all_cons, List.all_cons, same _ _ here, ih]

end Lists

/-!
## Members
-/

/-- Corresponding types extend corresponding types, and their members show the same. -/
structure SameMembers (ρ : Renaming) (model model' : Model) : Prop where
  records : model'.records.size = model.records.size
  base : ∀ id, (model'.record (ρ.record id)).base = (model.record id).base.map ρ.record
  attributes : ∀ id, (model'.record (ρ.record id)).attributes.map model'.attributeView =
    ((model.record id).attributes.map model.attributeView).map (AttributeView.rename ρ)
  methods : ∀ id, (model'.record (ρ.record id)).methods.map model'.methodView =
    ((model.record id).methods.map model.methodView).map (MethodView.rename ρ)

/-- Attributes that show the same. -/
def SameAttribute (ρ : Renaming) (model model' : Model) (id id' : AttributeId) : Prop :=
  model'.attributeView id' = (model.attributeView id).rename ρ

/-- Methods that show the same. -/
def SameMethod (ρ : Renaming) (model model' : Model) (id id' : MethodId) : Prop :=
  model'.methodView id' = (model.methodView id).rename ρ

section Attribute

variable {ρ : Renaming} {model model' : Model} {id id' : AttributeId}
  (same : SameAttribute ρ model model' id id')

include same

theorem SameAttribute.bare : (model'.attr id').bare = (model.attr id).bare.rename ρ :=
  congrArg AttributeView.bare same

theorem SameAttribute.name : (model'.attr id').name = (model.attr id).name :=
  (congrArg Attribute.name same.bare :)

theorem SameAttribute.type : (model'.attr id').type = (model.attr id).type.rename ρ :=
  (congrArg Attribute.type same.bare :)

theorem SameAttribute.shape :
    (model'.attr id').shape = (model.attr id).shape.map (Dimension.rename ρ) :=
  (congrArg Attribute.shape same.bare :)

end Attribute

theorem SameMethod.name {ρ : Renaming} {model model' : Model} {id id' : MethodId}
    (same : SameMethod ρ model model' id id') : (model'.method id').name = (model.method id).name :=
  (congrArg MethodView.name same :)

namespace SameMembers

variable {ρ : Renaming} {model model' : Model} (same : SameMembers ρ model model')

include same

theorem attributePairs (id : RecordId) :
    List.Forall₂ (SameAttribute ρ model model') (model.record id).attributes
      (model'.record (ρ.record id)).attributes :=
  forall₂_map_iff.mpr (same.attributes id)

theorem methodPairs (id : RecordId) :
    List.Forall₂ (SameMethod ρ model model') (model.record id).methods
      (model'.record (ρ.record id)).methods :=
  forall₂_map_iff.mpr (same.methods id)

theorem lineage (id : RecordId) : SameLineage ρ model model' id :=
  sameLineage same.records same.base id

/-- What is found along a chain of base types. -/
theorem findInLineage {γ δ : Type} {related : γ → δ → Prop} {find : RecordId → Option γ}
    {find' : RecordId → Option δ}
    (each : ∀ id, Option.Rel related (find id) (find' (ρ.record id))) (id : RecordId) :
    Option.Rel related ((model.lineage id).findSome? find)
      ((model'.lineage (ρ.record id)).findSome? find') := by
  have pairs : List.Forall₂ (fun one other => other = ρ.record one) (model.lineage id)
      (model'.lineage (ρ.record id)) := by
    refine forall₂_map_iff.mpr ?_
    rw [List.map_id', List.map_id']
    exact same.lineage id
  refine forall₂_findSome? pairs ?_
  rintro one _ rfl
  exact each one

theorem findAttribute? (id : RecordId) (name : String) :
    Option.Rel (SameAttribute ρ model model') (model.findAttribute? id name)
      (model'.findAttribute? (ρ.record id) name) :=
  same.findInLineage (fun one => forall₂_find? (same.attributePairs one)
    fun _ _ pair => by rw [pair.name]) id

theorem findMethod? (id : RecordId) (name : String) :
    Option.Rel (SameMethod ρ model model') (model.findMethod? id name)
      (model'.findMethod? (ρ.record id) name) :=
  same.findInLineage (fun one => forall₂_find? (same.methodPairs one)
    fun _ _ pair => by rw [pair.name]) id

end SameMembers

/-!
## Models
-/

/-- Corresponding declarations stand at the same places under the same names, and corresponding record
types show the same. -/
structure Alike (ρ : Renaming) (model model' : Model) : Prop extends SameNames ρ model model' where
  view : ∀ id, model'.recordView (ρ.record id) = (model.recordView id).rename ρ

private theorem Model.recordView_outside {model : Model} {id : RecordId}
    (outside : ¬ id.index < model.records.size) :
    model.recordView id = (default : Record).view [] [] := by
  rw [recordView, model.record_eq_default outside]
  rfl

namespace Alike

variable {ρ : Renaming} {model model' : Model}

/-- Identifiers out of range show the same anyway. -/
theorem of_inside (names : SameNames ρ model model')
    (view : ∀ id, id.index < model.records.size →
      model'.recordView (ρ.record id) = (model.recordView id).rename ρ) : Alike ρ model model' where
  toSameNames := names
  view id := by
    by_cases inside : id.index < model.records.size
    · exact view id inside
    · have outside : ¬ (ρ.record id).index < model'.records.size := by
        rw [names.records]
        exact mt (names.recordRange id).mp inside
      rw [recordView_outside inside, recordView_outside outside]
      rfl

theorem sameMembers (alike : Alike ρ model model') : SameMembers ρ model model' where
  records := alike.records
  base id := congrArg RecordView.base (alike.view id)
  attributes id := congrArg RecordView.attributes (alike.view id)
  methods id := congrArg RecordView.methods (alike.view id)

theorem configs (alike : Alike ρ model model') (id : RecordId) :
    (model'.record (ρ.record id)).configs = (model.record id).configs.map ρ.record :=
  congrArg RecordView.configs (alike.view id)

end Alike

/-!
## What waits
-/

/-- A declaration says the same in two drafts, where it waits under corresponding identifiers. -/
def Twin {ι δ : Type} (rename : ι → ι) (pending pending' : Pending ι δ) : Prop :=
  pending'.id = rename pending.id ∧ pending'.declaration = pending.declaration

/-- Declarations of one kind that wait in two drafts, each once and each with a twin. -/
structure SamePending {ι δ : Type} (index : ι → Nat) (count : Nat) (rename : ι → ι)
    (items items' : List (Pending ι δ)) : Prop where
  distinct : (items.map (·.id)).Nodup
  distinct' : (items'.map (·.id)).Nodup
  inside : ∀ pending ∈ items, index pending.id < count
  covered : ∀ id, index id < count → ∃ pending ∈ items, pending.id = id
  twin : ∀ pending ∈ items, ∃ pending' ∈ items', Twin rename pending pending'
  twin' : ∀ pending' ∈ items', ∃ pending ∈ items, Twin rename pending pending'

/-- A pass over what waits goes through in both runs alike, if every step fills in a part of its own, from
what is there in both. -/
theorem SamePending.pass {ι δ ε State Part : Type} {index : ι → Nat} {count : Nat}
    {rename : Equiv.Perm ι} {items items' : List (Pending ι δ)}
    (waits : SamePending index count rename items items')
    {step : State → Pending ι δ → Except ε State} {part : ι → State → Part} (translate : Part → Part)
    {fine fine' : State → Prop} {start start' final : State}
    (local_ : Local step items (·.id) part fine) (local_' : Local step items' (·.id) part fine')
    (initial : fine start) (initial' : fine' start') (accepted : items.foldlM step start = .ok final)
    (pair : ∀ pending ∈ items, ∀ pending' ∈ items', Twin rename pending pending' →
      ∀ state state', fine state → fine' state' → part pending.id state = part pending.id start →
        part (rename pending.id) state' = part (rename pending.id) start' →
        Follows (fun after after' =>
            part (rename pending.id) after' = translate (part pending.id after))
          (step state pending) (step state' pending')) :
    ∃ final', items'.foldlM step start' = .ok final' ∧ fine final ∧ fine' final' ∧
      ∀ id, index id < count → part (rename id) final' = translate (part id final) := by
  have unique : ∀ one ∈ items, ∀ other ∈ items, ∀ item' ∈ items', Twin rename one item' →
      Twin rename other item' → one = other := by
    rintro one listed other listed' item' - ⟨first, -⟩ ⟨second, -⟩
    exact List.inj_on_of_nodup_map waits.distinct listed listed'
      (rename.injective (first.symm.trans second))
  obtain ⟨final', accepted', good, good', parts, -, -⟩ :=
    local_.mirrored local_' initial initial' accepted unique waits.twin' <| by
      intro seen pending rest seen' pending' rest' split split' twin state after state' good good' own
        own' _ taken
      have listed : pending ∈ items := by simp [split]
      have listed' : pending' ∈ items' := by simp [split']
      rw [twin.1] at own' ⊢
      exact pair pending listed pending' listed' twin state state' good good' own own' after taken
  refine ⟨final', accepted', good, good', fun id inside => ?_⟩
  obtain ⟨pending, listed, rfl⟩ := waits.covered id inside
  obtain ⟨pending', listed', twin⟩ := waits.twin pending listed
  have filled := parts pending listed pending' listed' twin
  rwa [twin.1] at filled

/-- Declarations that wait under the identifiers from the first on, where a renaming matches the models,
and that have counterparts of the same declaration, site and name. -/
theorem Matches.samePending {ρ : Renaming} {model model' : Model} (matched : Matches ρ model model')
    {ι δ : Type} {index : ι → Nat} (injective : Function.Injective index) {rename : ι → ι}
    {member : ι → Member} (memberInjective : Function.Injective member)
    (renames : ∀ id, (member id).rename ρ = member (rename id)) {count count' : Nat}
    {items items' : List (Pending ι δ)}
    (ids : items.map (fun pending => index pending.id) = List.range count)
    (ids' : items'.map (fun pending => index pending.id) = List.range count')
    (inside : ∀ pending ∈ items, (member pending.id).reference.InRange model.census)
    (inside' : ∀ pending ∈ items', (member pending.id).reference.InRange model'.census)
    (forth : ∀ pending ∈ items, ∃ pending' ∈ items', pending'.declaration = pending.declaration ∧
      model'.key (member pending'.id) = model.key (member pending.id))
    (back : ∀ pending' ∈ items', ∃ pending ∈ items, pending.declaration = pending'.declaration ∧
      model.key (member pending.id) = model'.key (member pending'.id)) :
    SamePending index count rename items items' := by
  have distinct : ∀ {items : List (Pending ι δ)} {count : Nat},
      items.map (fun pending => index pending.id) = List.range count →
        (items.map (·.id)).Nodup := by
    intro items count ids
    refine List.Nodup.of_map index ?_
    rw [List.map_map]
    exact ids ▸ List.nodup_range
  have image : ∀ pending ∈ items, ∀ pending' ∈ items',
      model'.key (member pending'.id) = model.key (member pending.id) →
        pending'.id = rename pending.id := by
    intro pending listed pending' listed' key
    refine memberInjective (matched.wellNamed'.key_injective (inside' pending' listed') ?_ ?_)
    · rw [← renames]
      exact (matched.inRange' _).mpr (inside pending listed)
    · rw [← renames, key, matched.key _ (inside pending listed)]
  constructor
  case distinct => exact distinct ids
  case distinct' => exact distinct ids'
  case inside =>
    intro pending listed
    rw [← List.mem_range, ← ids]
    exact List.mem_map_of_mem listed
  case covered =>
    intro id inside
    rw [← List.mem_range, ← ids] at inside
    obtain ⟨pending, listed, same⟩ := List.mem_map.mp inside
    exact ⟨pending, listed, injective same⟩
  case twin =>
    intro pending listed
    obtain ⟨pending', listed', declaration, key⟩ := forth pending listed
    exact ⟨pending', listed', image pending listed pending' listed' key, declaration⟩
  case twin' =>
    intro pending' listed'
    obtain ⟨pending, listed, declaration, key⟩ := back pending' listed'
    exact ⟨pending, listed, image pending listed pending' listed' key.symm, declaration.symm⟩

namespace Draft.Represents

variable {draft draft' : Draft} {items items' : List Item} {ρ : Renaming}
  (represents : draft.Represents items) (represents' : draft'.Represents items')
  (same : SameItems items items') (matched : Matches ρ draft.model draft'.model)

include represents represents' same matched

private theorem samePending_records :
    SamePending RecordId.index draft.model.records.size ρ.record draft.records.toList
      draft'.records.toList := by
  refine matched.samePending (fun _ _ => RecordId.ext) (fun _ _ => Member.record.inj) (fun _ => rfl)
    represents.recordIds represents'.recordIds ?_ ?_ ?_ ?_
  all_goals simp only [Array.mem_toList_iff]
  · exact represents.consistent.records
  · exact represents'.consistent.records
  · exact fun pending waits => represents.record_counterpart represents' same waits
  · exact fun pending waits => represents'.record_counterpart represents same.symm waits

private theorem samePending_constants :
    SamePending ConstantId.index draft.model.constants.size ρ.constant draft.constants.toList
      draft'.constants.toList := by
  refine matched.samePending (fun _ _ => ConstantId.ext) (fun _ _ => Member.constant.inj)
    (fun _ => rfl) represents.constantIds represents'.constantIds ?_ ?_ ?_ ?_
  all_goals simp only [Array.mem_toList_iff]
  · exact represents.consistent.constants
  · exact represents'.consistent.constants
  · exact fun pending waits => represents.constant_counterpart represents' same waits
  · exact fun pending waits => represents'.constant_counterpart represents same.symm waits

private theorem samePending_enumerations :
    SamePending EnumId.index draft.model.enumerations.size ρ.enumeration draft.enumerations.toList
      draft'.enumerations.toList := by
  refine matched.samePending (fun _ _ => EnumId.ext) (fun _ _ => Member.enumeration.inj)
    (fun _ => rfl) represents.enumerationIds represents'.enumerationIds ?_ ?_ ?_ ?_
  all_goals simp only [Array.mem_toList_iff]
  · exact represents.consistent.enumerations
  · exact represents'.consistent.enumerations
  · exact fun pending waits => represents.enumeration_counterpart represents' same waits
  · exact fun pending waits => represents'.enumeration_counterpart represents same.symm waits

end Draft.Represents

/-- Two drafts with the same names and the same declarations that wait. -/
structure SameDrafts (ρ : Renaming) (draft draft' : Draft) : Prop where
  consistent : draft.Consistent
  consistent' : draft'.Consistent
  names : SameNames ρ draft.model draft'.model
  records : SamePending RecordId.index draft.model.records.size ρ.record draft.records.toList
    draft'.records.toList
  constants : SamePending ConstantId.index draft.model.constants.size ρ.constant
    draft.constants.toList draft'.constants.toList
  enumerations : SamePending EnumId.index draft.model.enumerations.size ρ.enumeration
    draft.enumerations.toList draft'.enumerations.toList

/-- Drafts of the same items are the same but for a renaming. -/
theorem Draft.Represents.exists_sameDrafts {draft draft' : Draft} {items items' : List Item}
    (represents : draft.Represents items) (represents' : draft'.Represents items')
    (same : SameItems items items') :
    ∃ ρ, Matches ρ draft.model draft'.model ∧ SameDrafts ρ draft draft' := by
  obtain ⟨ρ, matched⟩ := represents.exists_matches represents' same
  exact ⟨ρ, matched, represents.consistent, represents'.consistent, matched.sameNames,
    represents.samePending_records represents' same matched,
    represents.samePending_constants represents' same matched,
    represents.samePending_enumerations represents' same matched⟩

end RecordSchema
