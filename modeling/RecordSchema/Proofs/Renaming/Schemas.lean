import RecordSchema.Proofs.Layout.Storage
import RecordSchema.Proofs.Renaming.Flags

/-!
# Storage and its schemas in two models

The marks of a type follow from its attributes and from its base, which has had its turn before. So they
are the same in both models, whatever the order of the other types is. Schemas are accepted in both models
or in none.
-/

set_option autoImplicit false

namespace RecordSchema

open Model Outcome

namespace Outcome

/-- A fold that may give nothing, as one that may be refused. -/
theorem orOverflow_foldlM {α β : Type} (items : List α) (step : β → α → Option β) (start : β) :
    orOverflow (items.foldlM step start) =
      items.foldlM (fun state item => orOverflow (step state item)) start := by
  induction items generalizing start with
  | nil => rfl
  | cons item rest ih =>
    rw [List.foldlM_cons, List.foldlM_cons]
    cases step start item with
    | none => rfl
    | some next => exact ih next

end Outcome

namespace Layout

/-!
## Attributes
-/

private theorem fixedCount_rename (ρ : Renaming) (count : Int) (shape : List Dimension) :
    fixedCount count (shape.map (Dimension.rename ρ)) = fixedCount count shape := by
  induction shape generalizing count with
  | nil => rfl
  | cons dimension rest ih =>
    rcases dimension with (size | _ | _ | _ | _) | _
    · change (Word.mul count size >>= fun next => fixedCount next _) =
        Word.mul count size >>= fun next => fixedCount next rest
      rw [funext ih]
    · rfl
    · rfl
    · rfl
    · rfl
    · rfl

private theorem fixedRange_rename {ρ : Renaming} {attr attr' : Attribute}
    (bare : attr'.bare = attr.bare.rename ρ) : fixedRange attr' = fixedRange attr := by
  have shape : attr'.shape = attr.shape.map (Dimension.rename ρ) := (congrArg Attribute.shape bare :)
  have offset : attr'.offset = attr.offset.rename ρ := (congrArg Attribute.offset bare :)
  have elementSize : attr'.elementSize = attr.elementSize.rename ρ :=
    (congrArg Attribute.elementSize bare :)
  unfold fixedRange
  rw [shape, offset, elementSize, fixedCount_rename]
  cases attr.offset <;> cases attr.elementSize <;> rfl

private theorem storedStop_rename {ρ : Renaming} {attr attr' : Attribute}
    (bare : attr'.bare = attr.bare.rename ρ) : storedStop attr' = storedStop attr := by
  have flag : attr'.configDependent = attr.configDependent :=
    (congrArg Attribute.configDependent bare :)
  funext stop range
  simp only [storedStop, flag]

/-- The attributes of corresponding types are being marked, in one model as in the other. -/
structure Storing (ρ : Renaming) (model model' : Model) (id : RecordId) (state state' : Model) :
    Prop where
  agree : Agree .storage model state
  agree' : Agree .storage model' state'
  bare : ∀ attr ∈ (model.record id).attributes, ∀ attr' ∈ (model'.record (ρ.record id)).attributes,
    SameAttribute ρ model model' attr attr' →
      (state'.attr attr').bare = (state.attr attr).bare.rename ρ

section Types

variable {ρ : Renaming} {model model' : Model} {id : RecordId}
  (inside : ∀ attr ∈ (model.record id).attributes, attr.index < model.attributes.size)
  (inside' : ∀ attr ∈ (model'.record (ρ.record id)).attributes, attr.index < model'.attributes.size)
  (distinct : (Resolution.attributeNames model id).Nodup)
  (distinct' : (Resolution.attributeNames model' (ρ.record id)).Nodup)

include inside inside' distinct distinct'

private theorem storeAttributes_follows {ids ids' : List AttributeId}
    (pairs : List.Forall₂ (fun attr attr' => attr ∈ (model.record id).attributes ∧
      attr' ∈ (model'.record (ρ.record id)).attributes ∧ SameAttribute ρ model model' attr attr') ids ids')
    {state state' : Model} (storing : Storing ρ model model' id state state') (marks : Bool)
    (stop : Option Int) :
    Follows (Storing ρ model model' id) (orOverflow (storeAttributes state marks stop ids))
      (orOverflow (storeAttributes state' marks stop ids')) := by
  induction pairs generalizing state state' marks stop with
  | nil => exact .ok storing
  | @cons attr attr' rest rest' here _ ih =>
    obtain ⟨listed, listed', same⟩ := here
    have bare := storing.bare attr listed attr' listed' same
    simp only [storeAttributes, fixedRange_rename bare, storedStop_rename bare, Option.bind_eq_bind]
    cases fixedRange (state.attr attr) with
    | none => exact .error
    | some range =>
      simp only [Option.bind_some]
      cases if marks then storedStop (state.attr attr) stop range else none with
      | none => exact .ok storing
      | some next =>
        refine ih ⟨?_, ?_, ?_⟩ true (some next)
        · exact storing.agree.trans (.modifyAttribute state attr fun _ => rfl)
        · exact storing.agree'.trans (.modifyAttribute state' attr' fun _ => rfl)
        · intro other otherListed other' otherListed' otherSame
          refine bare_modifyAttribute (storing.bare other otherListed other' otherListed' otherSame)
            (fun _ _ bare => congrArg (fun shown : Attribute => { shown with stored := true }) bare)
            (sameAttribute_unique distinct distinct' listed listed' otherListed otherListed' same
              otherSame) ?_ ?_
          · exact storing.agree.attributeCount ▸ inside other otherListed
          · exact storing.agree'.attributeCount ▸ inside' other' otherListed'

/-- What is stored of a type depends on what the type and its base show. -/
theorem storeRecord_follows (view : model'.recordView (ρ.record id) = (model.recordView id).rename ρ)
    (base : ∀ target, (model.record id).base = some target →
      model'.recordView (ρ.record target) = (model.recordView target).rename ρ) :
    Follows (fun after after' => after'.recordView (ρ.record id) = (after.recordView id).rename ρ)
      (orOverflow (storeRecord model id)) (orOverflow (storeRecord model' (ρ.record id))) := by
  have bases : (model'.record (ρ.record id)).base = (model.record id).base.map ρ.record :=
    congrArg RecordView.base view
  have marks : baseStored model' (model'.record (ρ.record id)) =
      baseStored model (model.record id) := by
    rw [baseStored, baseStored, bases]
    cases found : (model.record id).base with
    | none => rfl
    | some target =>
      have pairs : List.Forall₂ (SameAttribute ρ model model') (model.record target).attributes
          (model'.record (ρ.record target)).attributes :=
        forall₂_map_iff.mpr (congrArg RecordView.attributes (base target found))
      exact forall₂_all pairs fun _ _ same => (congrArg Attribute.stored same.bare :)
  have start : storageStart model' (model'.record (ρ.record id)) =
      storageStart model (model.record id) := by
    rw [storageStart, storageStart, bases]
    cases found : (model.record id).base with
    | none => rfl
    | some target =>
      have size : (model'.record (ρ.record target)).size = (model.record target).size.rename ρ :=
        congrArg RecordView.size (base target found)
      simp only [Option.map_some, size, Expr.constant?_rename]
  have pairs : List.Forall₂ (SameAttribute ρ model model') (model.record id).attributes
      (model'.record (ρ.record id)).attributes :=
    forall₂_map_iff.mpr (congrArg RecordView.attributes view)
  have unmarked : Storing ρ model model' id model model' :=
    ⟨.refl model, .refl model', fun _ _ _ _ same => same.bare⟩
  rw [storeRecord_eq, storeRecord_eq, marks, start]
  refine (storeAttributes_follows inside inside' distinct distinct' (forall₂_mem pairs) unmarked _ _).imp
    fun after after' _ storing => ?_
  refine recordView_later view storing.agree.ofStorage storing.agree'.ofStorage storing.bare ?_ ?_ ?_ ?_
  · intro method _ method' _ same
    rw [storing.agree.methodField Method.configDependent fun _ => rfl,
      storing.agree'.methodField Method.configDependent fun _ => rfl]
    exact congrArg MethodView.configDependent same
  · rw [storing.agree.recordField Record.size fun _ => rfl,
      storing.agree'.recordField Record.size fun _ => rfl]
    exact congrArg RecordView.size view
  · rw [storing.agree.recordField Record.align fun _ => rfl,
      storing.agree'.recordField Record.align fun _ => rfl]
    exact congrArg RecordView.align view
  · rw [storing.agree.recordField Record.configDependent fun _ => rfl,
      storing.agree'.recordField Record.configDependent fun _ => rfl]
    exact congrArg RecordView.configDependent view

end Types

/-!
## All types
-/

/-- The marks of a type are on its own attributes. -/
theorem storeRecord_local {model start : Model} (linked : model.Linked) (derived : Agree .derived model start)
    {order : List RecordId} (isOrder : IsOrder model order) :
    Local (fun state id => orOverflow (storeRecord state id)) order (fun id => id)
      (fun id (state : Model) => state.recordView id) (Agree .storage start) where
  distinct := by
    rw [List.map_id']
    exact isOrder.distinct
  keeps id _ state after agree taken := by
    have stored := orOverflow_ok taken
    rw [storeRecord_eq] at stored
    exact agree.trans (storeAttributes_agree stored)
  others id _ state after agree taken other different := by
    have stored := orOverflow_ok taken
    rw [storeRecord_eq] at stored
    have same := storeAttributes_agree stored
    have attributes := (derived.trans agree.ofStorage).recordField Record.attributes fun _ => rfl
    refine same.ofStorage.recordView_same (same.recordField Record.size (fun _ => rfl) other)
      (same.recordField Record.align (fun _ => rfl) other)
      (same.recordField Record.configDependent (fun _ => rfl) other) (fun attr listed => ?_)
      fun method _ => same.methodField Method.configDependent (fun _ => rfl) method
    rw [attributes] at listed
    rw [storeAttributes_others stored attr fun own =>
      different (linked.listedOnce listed (attributes id ▸ own))]

theorem withStorage_alike {ρ : Renaming} {resolved resolved' model model' : Model}
    (before : Resolution.SameResolved ρ resolved resolved') (linked : resolved.Linked)
    (linked' : resolved'.Linked) (derived : Agree .derived resolved model)
    (derived' : Agree .derived resolved' model') (alike : Alike ρ model model')
    {order order' : List RecordId} (isOrder : IsOrder resolved order)
    (isOrder' : IsOrder resolved' order') {stored : Model}
    (accepted : withStorage model order = some stored) :
    ∃ stored', withStorage model' order' = some stored' ∧ Agree .storage model stored ∧
      Agree .storage model' stored' ∧ Alike ρ stored stored' := by
  have folds : order.foldlM (fun state id => orOverflow (storeRecord state id)) model =
      .ok stored := by
    rw [← orOverflow_foldlM]
    exact congrArg orOverflow accepted
  obtain ⟨stored', folds', agree, agree', views⟩ :=
    isOrder.pass before.alike linked.closed isOrder' (storeRecord_local linked derived isOrder)
      (storeRecord_local linked' derived' isOrder') (.refl model) (.refl model') alike folds <| by
        intro id inside state state' agree agree' view earlier
        have links := derived.trans agree.ofStorage
        have links' := derived'.trans agree'.ofStorage
        refine storeRecord_follows ?_ ?_ ?_ ?_ view fun target found => ?_
        · rw [links.recordField Record.attributes fun _ => rfl, links.attributeCount]
          exact linked.closed.recordAttributes id
        · rw [links'.recordField Record.attributes fun _ => rfl, links'.attributeCount]
          exact linked'.closed.recordAttributes (ρ.record id)
        · exact links.attributeNames id ▸ before.distinct id
        · exact links'.attributeNames (ρ.record id) ▸ before.distinct' (ρ.record id)
        · exact earlier target (dependsOn_base (links.base id ▸ found))
  rw [← orOverflow_foldlM] at folds'
  refine ⟨stored', orOverflow_ok folds', agree, agree', .of_inside ?_ fun id inside => ?_⟩
  · exact alike.toSameNames.retain agree.ofStorage.retains agree'.ofStorage.retains
  · exact views id ((derived.trans agree.ofStorage).recordCount ▸ inside)

end Layout

/-!
## Schemas

A schema refers to members that its type has or inherits, which layout leaves as they are. What record
types show does not change.
-/

/-- Schemas do not show. -/
theorem Model.Agree.recordView_schemas {before after : Model} (agree : Agree .schemas before after)
    (id : RecordId) : after.recordView id = before.recordView id := by
  refine agree.ofSchemas.recordView_same (agree.recordField Record.size (fun _ => rfl) id)
    (agree.recordField Record.align (fun _ => rfl) id)
    (agree.recordField Record.configDependent (fun _ => rfl) id) (fun attr _ => ?_) fun method _ => ?_
  · exact congrArg Attribute.bare (agree.attr attr)
  · exact congrArg Method.configDependent (agree.method method)

theorem Alike.schemas {ρ : Renaming} {model model' later later' : Model} (alike : Alike ρ model model')
    (agree : Agree .schemas model later) (agree' : Agree .schemas model' later') :
    Alike ρ later later' :=
  alike.later agree.ofSchemas.retains agree'.ofSchemas.retains agree.recordView_schemas
    agree'.recordView_schemas

namespace Resolution

section Schema

variable {ρ : Renaming} {model model' : Model} (alike : Alike ρ model model') (owner : RecordId)

include alike

private theorem entrySource?_isSome (name : String) :
    (entrySource? model' (ρ.record owner) name).isSome = (entrySource? model owner name).isSome := by
  rw [entrySource?, entrySource?]
  have methods := alike.sameMembers.findMethod? owner name
  generalize model.findMethod? owner name = method, model'.findMethod? (ρ.record owner) name = method'
    at methods ⊢
  cases methods with
  | some _ =>
    dsimp only
    split <;> split <;> rfl
  | none =>
    simp only [Option.isSome_map]
    exact isSome_of_rel (alike.sameMembers.findAttribute? owner name)

private theorem resolveEntry_follows (path path' : String) (declaration : Declaration.DatasetEntry) :
    Follows (fun _ _ => True) (resolveEntry model owner path declaration)
      (resolveEntry model' (ρ.record owner) path' declaration) := by
  have same := entrySource?_isSome alike owner (declaration.method.getD declaration.name)
  rw [resolveEntry, resolveEntry]
  cases source : entrySource? model owner (declaration.method.getD declaration.name) with
  | none => exact .error
  | some found =>
    rw [source, Option.isSome_some, Option.isSome_iff_exists] at same
    obtain ⟨found', source'⟩ := same
    simp only [source']
    exact .ok trivial

private theorem addDataset_follows (path path' : String) {before before' : List Dataset}
    (names : before'.map (·.name) = before.map (·.name)) (declaration : Declaration.Dataset) :
    Follows (fun after after' : List Dataset => after'.map (·.name) = after.map (·.name))
      (addDataset model owner path before declaration)
      (addDataset model' (ρ.record owner) path' before' declaration) := by
  have clash : (before'.any fun dataset => dataset.name == declaration.name) =
      before.any fun dataset => dataset.name == declaration.name := by
    have other := congrArg (List.any · (· == declaration.name)) names
    simpa only [List.any_map, Function.comp_def] using other
  refine .guarded clash fun _ => ?_
  refine (Follows.mapM fun entry _ => resolveEntry_follows alike owner
    (path ++ "." ++ declaration.name) (path' ++ "." ++ declaration.name) entry).bind
      fun _ _ _ _ _ => .ok ?_
  rw [List.map_append, List.map_append, names]
  rfl

private theorem resolveSchema_follows (typePath typePath' : String)
    (declaration : Declaration.StorageSchema) :
    Follows (fun schema schema' => schema'.name = schema.name ∧ schema'.version = schema.version)
      (resolveSchema model owner typePath declaration)
      (resolveSchema model' (ρ.record owner) typePath' declaration) := by
  refine (Follows.foldlM (fun before before' dataset _ names =>
    addDataset_follows alike owner _ _ names dataset) rfl).bind fun _ _ _ _ _ => ?_
  split <;> split <;> exact .ok ⟨rfl, rfl⟩

/-- The name and version of a schema. -/
def schemaKey (schema : StorageSchema) : String × UInt32 :=
  (schema.name, schema.version)

private theorem addSchema_follows (typePath typePath' : String) {before before' : List StorageSchema}
    (keys : before'.map schemaKey = before.map schemaKey) (declaration : Declaration.StorageSchema) :
    Follows (fun after after' : List StorageSchema => after'.map schemaKey = after.map schemaKey)
      (addSchema model owner typePath before declaration)
      (addSchema model' (ρ.record owner) typePath' before' declaration) := by
  refine (resolveSchema_follows alike owner typePath typePath' declaration).bind
    fun schema schema' _ _ ⟨name, version⟩ => ?_
  have clash : (before'.any fun other => other.name == schema'.name && other.version == schema'.version) =
      before.any fun other => other.name == schema.name && other.version == schema.version := by
    have other := congrArg (List.any · fun key => key.1 == schema.name && key.2 == schema.version) keys
    simpa only [List.any_map, Function.comp_def, schemaKey, name, version] using other
  refine .guarded clash fun _ => .ok ?_
  rw [List.map_append, List.map_append, keys]
  simp only [List.map_singleton, schemaKey, name, version]

end Schema

/-- Schemas that are accepted in one order are accepted in any. -/
theorem resolveSchemas_alike {ρ : Renaming} {draft draft' : Draft} (drafts : SameDrafts ρ draft draft')
    {model model' : Model} (alike : Alike ρ model model') {final : Model}
    (accepted : draft.records.toList.foldlM resolveSchemas model = .ok final) :
    ∃ final', draft'.records.toList.foldlM resolveSchemas model' = .ok final' ∧
      Agree .schemas model final ∧ Agree .schemas model' final' ∧ Alike ρ final final' := by
  have local_ : ∀ {draft : Draft} (start : Model), (draft.records.toList.map (·.id)).Nodup →
      Local resolveSchemas draft.records.toList (·.id) (fun _ _ => ()) (Agree .schemas start) :=
    fun _ distinct =>
      { distinct := distinct
        keeps := fun _ _ _ _ agree taken => agree.trans (agree_resolveSchemas taken)
        others := fun _ _ _ _ _ _ _ _ => rfl }
  obtain ⟨final', accepted', agree, agree', -⟩ := drafts.records.pass (fun done => done)
    (local_ model drafts.records.distinct) (local_ model' drafts.records.distinct') (.refl model)
    (.refl model') accepted <| by
      intro pending _ pending' _ twin state state' agree agree' _ _
      rw [resolveSchemas, resolveSchemas, twin.1, twin.2]
      refine (Follows.foldlM (fun before before' schema _ keys =>
        addSchema_follows (alike.schemas agree agree') pending.id pending.path pending'.path keys schema)
          rfl).bind fun _ _ _ _ _ => .ok rfl
  exact ⟨final', accepted', agree, agree', alike.schemas agree agree'⟩

end Resolution

end RecordSchema
