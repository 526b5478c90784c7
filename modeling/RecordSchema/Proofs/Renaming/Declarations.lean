import RecordSchema.Proofs.Renaming.Attributes

/-!
# Constructors and declarations in two models

A constructor refers to members that its type has or inherits. They are all there when constructors are
resolved, and constructors do not refer to each other. The check on the members that expressions name
passes for both models or for none. With that, all that is resolved before layout is resolved alike.
-/

set_option autoImplicit false

namespace RecordSchema

open Model Outcome

/-- What is assigned to has corresponding types. -/
def SameDestination (ρ : Renaming) (model model' : Model) (destination destination' : Destination) :
    Prop :=
  model'.destinationType destination' = (model.destinationType destination).rename ρ

/-- Bitfields that show the same. -/
def SameBitfield (ρ : Renaming) (model model' : Model) (id id' : BitfieldId) : Prop :=
  (model'.bitfield id').bare = (model.bitfield id).bare.rename ρ

theorem SameBitfield.name {ρ : Renaming} {model model' : Model} {id id' : BitfieldId}
    (same : SameBitfield ρ model model' id id') :
    (model'.bitfield id').name = (model.bitfield id).name :=
  (congrArg Bitfield.name same :)

theorem SameBitfield.type {ρ : Renaming} {model model' : Model} {id id' : BitfieldId}
    (same : SameBitfield ρ model model' id id') :
    (model'.bitfield id').type = (model.bitfield id).type.rename ρ :=
  (congrArg Bitfield.type same :)

theorem SameAttribute.bitfieldPairs {ρ : Renaming} {model model' : Model} {id id' : AttributeId}
    (same : SameAttribute ρ model model' id id') :
    List.Forall₂ (SameBitfield ρ model model') (model.attr id).bitfields
      (model'.attr id').bitfields :=
  forall₂_map_iff.mpr (congrArg AttributeView.bitfields same)

theorem SameMembers.findDestination? {ρ : Renaming} {model model' : Model}
    (same : SameMembers ρ model model') (owner : RecordId) (name : String) :
    Option.Rel (SameDestination ρ model model') (model.findDestination? owner name)
      (model'.findDestination? (ρ.record owner) name) := by
  rw [Model.findDestination?, Model.findDestination?]
  match model.findAttribute? owner name, model'.findAttribute? (ρ.record owner) name,
    same.findAttribute? owner name with
  | _, _, .some pair => exact .some pair.type
  | _, _, .none =>
    refine same.findInLineage (fun one => ?_) owner
    refine forall₂_findSome? (same.attributePairs one) fun attr attr' pair => ?_
    have found : Option.Rel (SameBitfield ρ model model')
        ((model.attr attr).bitfields.find? fun id => (model.bitfield id).name == name)
        ((model'.attr attr').bitfields.find? fun id => (model'.bitfield id).name == name) :=
      forall₂_find? pair.bitfieldPairs fun _ _ bits => by rw [bits.name]
    match (model.attr attr).bitfields.find? fun id => (model.bitfield id).name == name,
      (model'.attr attr').bitfields.find? fun id => (model'.bitfield id).name == name, found with
    | _, _, .none => exact .none
    | _, _, .some bits => exact .some bits.type

namespace Resolution

private theorem destinationOf_follows {ρ : Renaming} {model model' : Model}
    (same : SameMembers ρ model model') (owner : RecordId) (path path' name : String) :
    Follows (SameDestination ρ model model') (destinationOf model owner path name)
      (destinationOf model' (ρ.record owner) path' name) := by
  rw [destinationOf, destinationOf]
  match model.findDestination? owner name, model'.findDestination? (ρ.record owner) name,
    same.findDestination? owner name with
  | _, _, .none => exact .error
  | _, _, .some here => exact .ok here

/-- Tags of a constructor do not show. -/
theorem view_applyConstructorTags (tags : List Tag) (constructor : Constructor) :
    (tags.foldl applyConstructorTag constructor).view = constructor.view := by
  obtain ⟨arguments, initializers⟩ := foldl_applyConstructorTag tags constructor
  rw [Constructor.view, arguments, initializers, Constructor.view]

section Constructor

variable {ρ : Renaming} {headed headed' : Model} {owner : RecordId} {model model' : Model}
  (together : Together ρ headed headed' owner model model') (alike : Alike ρ headed headed')
  (members : SameMembers ρ model model') (inside : owner.index < headed.records.size)

include together alike members inside

private theorem resolveConstructorArgument_follows (path path' : String)
    (declaration : Declaration.ConstructorArgument) :
    Follows (fun argument argument' => argument'.type = argument.type.rename ρ ∧
        argument'.expression = argument.expression.map (Expr.rename ρ))
      (resolveConstructorArgument model owner path declaration)
      (resolveConstructorArgument model' (ρ.record owner) path' declaration) := by
  have destinations : Follows (Option.Rel (SameDestination ρ model model'))
      (declaration.destination.mapM (destinationOf model owner path))
      (declaration.destination.mapM (destinationOf model' (ρ.record owner) path')) := by
    cases declaration.destination with
    | none => exact .ok .none
    | some name =>
      exact (destinationOf_follows members owner path path' name).map fun _ _ here => .some here
  have expressions : Mirrors (Option.map (Expr.rename ρ))
      (declaration.expression.mapM (Expr.parse (exprContext model owner path)))
      (declaration.expression.mapM (Expr.parse (exprContext model' (ρ.record owner) path'))) :=
    .optionMapM fun raw _ => Expr.parse_mirrored (together.context alike path path') raw
  refine destinations.bind fun destination destination' _ _ here => ?_
  cases declaration.typeName with
  | some name =>
    exact (together.lookupType_mirrored alike inside path path' name).bind fun _ _ _ _ typed =>
      expressions.bind fun _ _ _ _ read => .ok ⟨typed, read⟩
  | none =>
    cases here with
    | none => exact .error
    | some typed => exact expressions.bind fun _ _ _ _ read => .ok ⟨typed, read⟩

omit inside in
private theorem resolveInitializer_follows (path path' : String) (declaration : Declaration.Initializer) :
    Follows (fun initializer initializer' =>
        initializer'.expression = initializer.expression.rename ρ)
      (resolveInitializer model owner path declaration)
      (resolveInitializer model' (ρ.record owner) path' declaration) :=
  (destinationOf_follows members owner path path' declaration.destination).bind fun _ _ _ _ _ =>
    (Expr.parse_mirrored (together.context alike path path') declaration.expression).bind
      fun _ _ _ _ read => .ok read

private theorem resolveConstructor_follows (path path' : String) (declaration : Declaration.Constructor) :
    Follows (fun constructor constructor' => constructor'.view = constructor.view.rename ρ)
      (resolveConstructor model owner path declaration)
      (resolveConstructor model' (ρ.record owner) path' declaration) := by
  refine (Follows.mapM fun argument _ => resolveConstructorArgument_follows together alike members
    inside path path' argument).bind fun arguments arguments' _ _ taken => ?_
  refine (Follows.mapM fun initializer _ => resolveInitializer_follows together alike members path path'
    initializer).bind fun initializers initializers' _ _ made => .ok ?_
  rw [view_applyConstructorTags, view_applyConstructorTags]
  have types : arguments'.map (·.type) = (arguments.map (·.type)).map (TypeRef.rename ρ) :=
    forall₂_map_iff.mp (taken.imp fun _ _ both => both.1)
  have defaults : arguments'.filterMap (·.expression) =
      (arguments.filterMap (·.expression)).map (Expr.rename ρ) :=
    forall₂_eq_iff.mp <| List.rel_filterMap (fun argument argument' both => by
      rw [both.2]
      cases argument.expression with
      | none => exact .none
      | some value => exact .some rfl) taken
  have values : initializers'.map (·.expression) =
      (initializers.map (·.expression)).map (Expr.rename ρ) := forall₂_map_iff.mp made
  simp only [Constructor.view, ConstructorView.rename, types, defaults, values, List.map_append]

private theorem resolveConstructorsFrom_follows (path path' : String) (position : Nat)
    (declarations : List Declaration.Constructor) :
    Follows (fun result result' => result'.1.map Constructor.view =
        (result.1.map Constructor.view).map (ConstructorView.rename ρ))
      (resolveConstructorsFrom model owner path position declarations)
      (resolveConstructorsFrom model' (ρ.record owner) path' position declarations) := by
  induction declarations generalizing position with
  | nil => exact .ok rfl
  | cons declaration rest ih =>
    refine (resolveConstructor_follows together alike members inside (constructorPath path position)
      (constructorPath path' position) declaration).bind fun constructor _ _ _ one => ?_
    refine (ih (position + 1)).bind fun others _ _ _ same => .ok ?_
    rw [List.map_cons, List.map_cons, List.map_cons, one, same]

end Constructor

/-!
## The pass
-/

/-- Constructors are filled in, and nothing else. -/
structure Constructed (start state : Model) : Prop extends Step start state where
  sameEnumerations : state.enumerations = start.enumerations
  sameConstants : state.constants = start.constants
  shown : ∀ id, state.recordView id =
    { start.recordView id with constructors := (state.recordView id).constructors }

namespace Constructed

variable {start state : Model} (constructed : Constructed start state)

include constructed

theorem sameMembers {ρ : Renaming} {start' state' : Model} (constructed' : Constructed start' state')
    (alike : Alike ρ start start') : SameMembers ρ state state' where
  records := by rw [constructed'.records, constructed.records, alike.records]
  base id := by
    rw [constructed'.base, constructed.base, alike.sameMembers.base]
  attributes id := by
    have view := alike.view id
    have attributes := congrArg RecordView.attributes (constructed.shown id)
    have attributes' := congrArg RecordView.attributes (constructed'.shown (ρ.record id))
    exact attributes'.trans ((congrArg RecordView.attributes view).trans
      (congrArg (List.map (AttributeView.rename ρ)) attributes.symm))
  methods id := by
    have view := alike.view id
    have methods := congrArg RecordView.methods (constructed.shown id)
    have methods' := congrArg RecordView.methods (constructed'.shown (ρ.record id))
    exact methods'.trans ((congrArg RecordView.methods view).trans
      (congrArg (List.map (MethodView.rename ρ)) methods.symm))

theorem attributeNames (id : RecordId) : attributeNames state id = Resolution.attributeNames start id := by
  rw [attributeNames_eq, constructed.shown, ← attributeNames_eq]

end Constructed

theorem Constructed.refl {model : Model} (sound : model.Sound) : Constructed model model :=
  ⟨.refl sound, rfl, rfl, fun _ => rfl⟩

/-- Constructors show at their type. -/
theorem recordView_constructors (model : Model) (id other : RecordId)
    (constructors : List Constructor) :
    (model.modifyRecord id fun record => { record with constructors }).recordView other =
      if id = other ∧ other.index < model.records.size then
        { model.recordView other with constructors := constructors.map Constructor.view }
      else model.recordView other :=
  recordView_modifyRecord model id other _

private theorem resolveConstructors_constructed {state after : Model × List Warning} {start : Model}
    (constructed : Constructed start state.1) {pending : Pending RecordId Declaration.Record}
    (inside : pending.id.index < start.records.size)
    (accepted : resolveConstructors state pending = .ok after) :
    Constructed start after.1 ∧
      ∀ id, id ≠ pending.id → after.1.recordView id = state.1.recordView id := by
  obtain ⟨model, warnings⟩ := state
  obtain ⟨later, remarks⟩ := after
  have step := resolveConstructors_step constructed.sound (constructed.records.symm ▸ inside) accepted
  obtain ⟨⟨constructors, more⟩, -, accepted⟩ := bind_ok accepted
  cases accepted
  have view := recordView_constructors model pending.id
  refine ⟨⟨constructed.toStep.trans step, constructed.sameEnumerations, constructed.sameConstants,
    fun id => ?_⟩, fun id different => ?_⟩
  · have shown := constructed.shown id
    rw [view]
    split
    · rw [shown]
    · exact shown
  · rw [view, if_neg fun both => different both.1.symm]

/-- Constructors are filled in type by type. -/
theorem resolveConstructors_local {draft : Draft} {start : Model}
    (inside : ∀ pending ∈ draft.records.toList, pending.id.index < start.records.size)
    (distinct : (draft.records.toList.map (·.id)).Nodup) :
    Local resolveConstructors draft.records.toList (·.id)
      (fun id (state : Model × List Warning) => state.1.recordView id)
      (fun state => Constructed start state.1) where
  distinct := distinct
  keeps pending listed _ _ good taken :=
    (resolveConstructors_constructed good (inside pending listed) taken).1
  others pending listed _ _ good taken :=
    (resolveConstructors_constructed good (inside pending listed) taken).2

private theorem resolveConstructors_follows {ρ : Renaming} {start start' : Model}
    (alike : Alike ρ start start')
    {state state' : Model × List Warning} (constructed : Constructed start state.1)
    (constructed' : Constructed start' state'.1)
    {pending pending' : Pending RecordId Declaration.Record} (twin : Twin ρ.record pending pending')
    (inside : pending.id.index < start.records.size)
    (own : state.1.recordView pending.id = start.recordView pending.id)
    (own' : state'.1.recordView (ρ.record pending.id) = start'.recordView (ρ.record pending.id)) :
    Follows (fun after after' =>
        after'.1.recordView (ρ.record pending.id) = (after.1.recordView pending.id).rename ρ)
      (resolveConstructors state pending) (resolveConstructors state' pending') := by
  obtain ⟨model, warnings⟩ := state
  obtain ⟨model', warnings'⟩ := state'
  have view : model'.recordView (ρ.record pending.id) = (model.recordView pending.id).rename ρ := by
    rw [own', own, alike.view]
  have here : pending.id.index < model.records.size := constructed.records.symm ▸ inside
  have here' : (ρ.record pending.id).index < model'.records.size := by
    rw [constructed'.records, alike.records]
    exact (alike.recordRange _).mpr inside
  have together : Together ρ start start' pending.id model model' :=
    ⟨constructed.toStep, constructed'.toStep, view⟩
  have members : SameMembers ρ model model' := constructed.sameMembers constructed' alike
  rw [resolveConstructors, resolveConstructors, twin.1, twin.2]
  refine (resolveConstructorsFrom_follows together alike members inside pending.path pending'.path 0
    pending.declaration.constructors).bind fun result result' _ _ constructors => .ok ?_
  rw [recordView_constructors, if_pos ⟨rfl, here'⟩, recordView_constructors, if_pos ⟨rfl, here⟩, view,
    constructors]
  rfl

/-- Constructors that are accepted in one order are accepted in any. -/
theorem constructors_alike {ρ : Renaming} {draft draft' : Draft} (drafts : SameDrafts ρ draft draft')
    {start start' : Model} (sound : start.Sound) (sound' : start'.Sound)
    (records : start.records.size = draft.model.records.size)
    (inside' : ∀ pending ∈ draft'.records.toList, pending.id.index < start'.records.size)
    (alike : Alike ρ start start') {final : Model × List Warning}
    (accepted : draft.records.toList.foldlM resolveConstructors (start, []) = .ok final) :
    ∃ final', draft'.records.toList.foldlM resolveConstructors (start', []) = .ok final' ∧
      Constructed start final.1 ∧ Constructed start' final'.1 ∧ Alike ρ final.1 final'.1 := by
  have inside : ∀ pending ∈ draft.records.toList, pending.id.index < start.records.size :=
    fun pending listed => records ▸ drafts.records.inside pending listed
  have initial' : Constructed start' (start', ([] : List Warning)).1 := .refl sound'
  obtain ⟨final', accepted', good, good', views⟩ := drafts.records.pass (RecordView.rename ρ)
    (resolveConstructors_local inside drafts.records.distinct)
    (resolveConstructors_local inside' drafts.records.distinct') (Constructed.refl sound) initial'
    accepted
    fun pending listed pending' _ twin state state' good good' own own' =>
      resolveConstructors_follows alike good good' twin (inside pending listed) own own'
  refine ⟨final', accepted', good, good', .of_inside ?_ fun id there => ?_⟩
  · exact alike.toSameNames.retain good.named good'.named
  · rw [good.records, records] at there
    exact views id there

/-!
## The check
-/

theorem isSome_of_rel {α β : Type} {related : α → β → Prop} {one : Option α} {other : Option β}
    (rel : Option.Rel related one other) : other.isSome = one.isSome := by
  cases rel <;> rfl

private theorem hasMember_alike {ρ : Renaming} {model model' : Model} (alike : Alike ρ model model')
    (id : RecordId) (name : String) :
    hasMember model' (ρ.record id) name = hasMember model id name := by
  rw [hasMember, hasMember, isSome_of_rel (alike.sameMembers.findAttribute? id name),
    isSome_of_rel (alike.sameMembers.findMethod? id name)]

end Resolution

/-- The expressions written in the declaration of a type. -/
def RecordView.texts (view : RecordView) : List Expr :=
  view.attributes.flatMap (fun attr => Resolution.attributeTexts attr.bare) ++
    view.methods.flatMap (·.texts) ++ view.constructors.flatMap (·.texts)

private theorem RecordView.texts_rename (ρ : Renaming) (view : RecordView) :
    (view.rename ρ).texts = view.texts.map (Expr.rename ρ) := by
  have attributes : ∀ attr : Attribute, Resolution.attributeTexts (attr.rename ρ) =
      (Resolution.attributeTexts attr).map (Expr.rename ρ) := by
    intro attr
    rw [Resolution.attributeTexts, Resolution.attributeTexts, List.map_append]
    congr 1
    · exact Dimension.counts_rename ρ attr.shape
    · cases offset : attr.declaredOffset <;> simp [Attribute.rename, offset]
  simp only [texts, rename, List.map_append, List.map_flatMap, List.flatMap_map, attributes,
    AttributeView.rename, MethodView.rename, ConstructorView.rename]

namespace Resolution

private theorem recordTexts_eq (model : Model) (id : RecordId) :
    (recordTexts model id).map (·.2) = (model.recordView id).texts := by
  simp only [recordTexts, RecordView.texts, recordView, Record.view, List.map_append, List.map_flatMap,
    List.flatMap_map, List.map_map, Function.comp_def, List.map_id']
  rfl

private theorem checkMembers_ok_iff {model : Model} :
    checkMembers model = .ok () ↔ ∀ id : RecordId, id.index < model.records.size →
      ∀ text ∈ (model.recordView id).texts, ∀ name ∈ text.members, hasMember model id name = true := by
  have each : ∀ (id : RecordId) (text : String × Expr), (text.2.members.forM fun name =>
      if hasMember model id name then Except.ok () else Except.error (SchemaError.unresolvedReference text.1 name)) =
        .ok () ↔ ∀ name ∈ text.2.members, hasMember model id name = true := by
    intro id text
    refine forM_ok_iff.trans (forall₂_congr fun name _ => ?_)
    split <;> simp_all
  rw [checkMembers, forM_ok_iff]
  refine forall_congr' fun id => ?_
  rw [Layout.mem_recordIds, ← recordTexts_eq, forM_ok_iff, List.forall_mem_map]
  exact imp_congr_right fun _ => forall₂_congr fun text _ => each id text

private theorem checkMembers_alike {ρ : Renaming} {model model' : Model} (alike : Alike ρ model model')
    (accepted : checkMembers model = .ok ()) : checkMembers model' = .ok () := by
  refine checkMembers_ok_iff.mpr fun id' inside text' written name named => ?_
  obtain ⟨id, rfl⟩ := ρ.record.surjective id'
  rw [alike.records, alike.recordRange] at inside
  rw [alike.view, RecordView.texts_rename] at written
  obtain ⟨text, listed, rfl⟩ := List.mem_map.mp written
  rw [Expr.members_rename] at named
  rw [hasMember_alike alike]
  exact checkMembers_ok_iff.mp accepted id inside text listed name named

end Resolution

/-!
## All declarations

Drafts of the same declarations give models that look alike, or none of them gives one.
-/

namespace Resolution

/-- Models before layout that look alike. In both, attributes of a type differ in their names. -/
structure SameResolved (ρ : Renaming) (model model' : Model) : Prop where
  alike : Alike ρ model model'
  values : SameValues ρ model model'
  distinct : ∀ id, (attributeNames model id).Nodup
  distinct' : ∀ id, (attributeNames model' id).Nodup

/-- No type has attributes before members are resolved. -/
theorem Headed.attributeNames {draft : Draft} {headed : Model} (headers : Headed draft headed)
    (id : RecordId) : attributeNames headed id = [] := by
  have none : (headed.record id).attributes = [] := by
    refine List.eq_nil_iff_forall_not_mem.mpr fun attr listed => ?_
    have inside := headers.sound.closed.recordAttributes id attr listed
    rw [show headed.census.attributes = 0 from headers.noAttributes] at inside
    exact Nat.not_lt_zero _ inside
  rw [Resolution.attributeNames, none, List.map_nil]

theorem Valued.populated {draft : Draft} {headed start : Model} (headers : Headed draft headed)
    (valued : Valued headed start) : Populated headed start start where
  step := valued.toStep
  enumerations := rfl
  constants := rfl
  distinct id := by
    rw [attributeNames_eq, valued.shown, ← attributeNames_eq, headers.attributeNames]
    exact List.nodup_nil

/-- Declarations that are accepted in one order are accepted in any. -/
theorem resolveDeclarations_alike {ρ : Renaming} {draft draft' : Draft}
    (drafts : SameDrafts ρ draft draft') {built : Built}
    (accepted : resolveDeclarations draft = .ok built) :
    ∃ built', resolveDeclarations draft' = .ok built' ∧ SameResolved ρ built.model built'.model := by
  obtain ⟨passes⟩ := resolveDeclarations_passes accepted
  obtain ⟨headed', headers', alike⟩ := headers_alike drafts passes.headers
  have isHeaded := resolveHeaders_ok drafts.consistent passes.headers
  have isHeaded' := resolveHeaders_ok drafts.consistent' headers'
  have identities' := checkIdentities_alike alike passes.identities
  have inheritance' := checkInheritance_alike alike passes.inheritance
  obtain ⟨withConstants', withEnumerations', constants', enumerations', valued, valued', values⟩ :=
    values_alike drafts isHeaded isHeaded' alike passes.constants passes.enumerations
  obtain ⟨withAttributes', withMethods', attributes', methods', populated, populated', between⟩ :=
    attributesAndMethods_alike drafts isHeaded isHeaded' alike (valued.populated isHeaded)
      (valued'.populated isHeaded') (valued.alike alike valued') passes.attributes passes.methods
  obtain ⟨⟨model', warnings'⟩, constructors', constructed, constructed', final⟩ :=
    constructors_alike drafts populated.step.sound populated'.step.sound
      (populated.step.records.trans isHeaded.named.records)
      (fun pending listed => populated'.step.records.symm ▸ isHeaded'.records pending listed) between
      passes.constructors
  refine ⟨⟨model', warnings'⟩, ?_, final, ?_, ?_, ?_⟩
  · have members' := checkMembers_alike final passes.members
    simp only [resolveDeclarations, bind, Except.bind, headers', identities', inheritance', constants',
      enumerations', attributes', methods', constructors', members']
  · exact values.congr (constructed.sameEnumerations.trans populated.enumerations)
      (constructed.sameConstants.trans populated.constants)
      (constructed'.sameEnumerations.trans populated'.enumerations)
      (constructed'.sameConstants.trans populated'.constants)
  · exact fun id => constructed.attributeNames id ▸ populated.distinct id
  · exact fun id => constructed'.attributeNames id ▸ populated'.distinct id

end Resolution

end RecordSchema
