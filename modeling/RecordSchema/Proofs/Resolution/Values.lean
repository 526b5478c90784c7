import RecordSchema.Proofs.Resolution.Attributes
import RecordSchema.Resolution.Constructors
import RecordSchema.Resolution.StorageSchemas
import RecordSchema.Resolution.Values

/-!
# Values, constructors and schemas keep a model sound

They are written into declarations that are there already, so only what they refer to is at stake:
expressions refer to their context, destinations and dataset entries to members found along the
lineage.
-/

set_option autoImplicit false

namespace RecordSchema.Resolution

open Model Outcome

/-!
## Constants and enumerations
-/

/-- The value of a constant refers at most to the record type that it belongs to. -/
theorem scopeContext_inRange {census : Census} {scope : Scope} (inRange : scope.reference.InRange census)
    (path : String) : InRange census (Expr.Context.references ⟨scopeOwner scope, none, path⟩) := by
  cases scope with
  | package id => exact inRange_nil
  | record id => exact inRange_cons.mpr ⟨inRange, inRange_nil⟩

theorem resolveConstant_ok {model after : Model}
    {pending : Pending ConstantId Declaration.Constant}
    (accepted : resolveConstant model pending = .ok after) :
    ∃ value, after = model.modifyConstant pending.id fun constant => { constant with value } := by
  simp only [resolveConstant, bind, Except.bind] at accepted
  split at accepted
  · split at accepted
    · cases accepted
    · split at accepted
      · cases accepted
      · cases accepted
        exact ⟨_, rfl⟩
  · cases accepted

theorem resolveConstant_step {model after : Model} (sound : model.Sound)
    {pending : Pending ConstantId Declaration.Constant}
    (inside : pending.id.index < model.constants.size)
    (accepted : resolveConstant model pending = .ok after) : Step model after := by
  simp only [resolveConstant] at accepted
  split at accepted
  · obtain ⟨value, parsed, accepted⟩ := bind_ok accepted
    simp only [bind, Except.bind] at accepted
    split at accepted
    · cases accepted
    · cases accepted
      have held : InRange model.census (model.constant pending.id).references :=
        sound.closed.constants.getD inside default
      have context := scopeContext_inRange (inRange_cons.mp held).1 pending.path
      refine .of_sameLinks sound (.modifyConstant model pending.id fun _ => rfl) ?_ rfl rfl
        (.modifyConstant model pending.id (fun _ => rfl) fun _ => rfl)
      refine sound.closed.modifyConstant pending.id fun item inRange => ?_
      exact inRange_cons.mpr ⟨(inRange_cons.mp inRange).1, Expr.parse_inRange parsed context⟩
  · cases accepted

theorem addEnumerator_ok {owner : Option RecordId} {path : String} {before after : List Enumerator}
    {declaration : Declaration.Constant}
    (accepted : addEnumerator owner path before declaration = .ok after) :
    ∃ value : Option Expr, after = before ++ [⟨declaration.name, value, declaration.comment⟩] ∧
      ∀ expr ∈ value, ∃ raw, Expr.parse
        ⟨owner, none, path ++ "." ++ declaration.name⟩ raw = .ok expr := by
  simp only [addEnumerator, bind, Except.bind] at accepted
  split at accepted
  · cases accepted
  · split at accepted
    · cases accepted
    · obtain ⟨value, parsed, accepted⟩ := bind_ok accepted
      cases accepted
      refine ⟨value, rfl, fun expr member => ?_⟩
      obtain ⟨raw, _, read⟩ := option_mapM_ok parsed expr member
      exact ⟨raw, read⟩

theorem resolveEnumeration_ok {model after : Model}
    {pending : Pending EnumId Declaration.Enumeration}
    (accepted : resolveEnumeration model pending = .ok after) :
    ∃ base constants, after = model.modifyEnumeration pending.id fun enumeration =>
      { enumeration with base, constants } := by
  simp only [resolveEnumeration] at accepted
  obtain ⟨base, _, accepted⟩ := bind_ok accepted
  obtain ⟨constants, _, accepted⟩ := bind_ok accepted
  cases accepted
  exact ⟨base, constants, rfl⟩

theorem resolveEnumeration_step {model after : Model} (sound : model.Sound)
    {pending : Pending EnumId Declaration.Enumeration}
    (inside : pending.id.index < model.enumerations.size)
    (accepted : resolveEnumeration model pending = .ok after) : Step model after := by
  simp only [resolveEnumeration] at accepted
  obtain ⟨base, _, accepted⟩ := bind_ok accepted
  obtain ⟨constants, added, accepted⟩ := bind_ok accepted
  cases accepted
  have held : InRange model.census (model.enumeration pending.id).references :=
    sound.closed.enumerations.getD inside default
  have scope := (inRange_cons.mp held).1
  have inRange : ∀ enumerator ∈ constants, InRange model.census enumerator.references := by
    refine foldlM_preserves added
      (fun found => ∀ enumerator ∈ found, InRange model.census enumerator.references)
      (by simp) ?_
    intro declaration _ before later good taken
    obtain ⟨value, rfl, parsed⟩ := addEnumerator_ok taken
    intro enumerator member
    rcases List.mem_append.mp member with old | new
    · exact good enumerator old
    · cases List.mem_singleton.mp new
      simp only [Enumerator.references, inRange_flatMap, Option.mem_toList]
      intro expr known
      obtain ⟨raw, read⟩ := parsed expr known
      exact Expr.parse_inRange read (scopeContext_inRange scope _)
  refine .of_sameLinks sound (.modifyEnumeration model pending.id fun _ => rfl) ?_ rfl rfl
    (.modifyEnumeration model pending.id (fun _ => rfl) fun _ => rfl)
  refine sound.closed.modifyEnumeration pending.id fun item old => ?_
  exact inRange_cons.mpr ⟨(inRange_cons.mp old).1, inRange_flatMap.mpr inRange⟩

/-!
## Constructors
-/

section Constructors

variable {model : Model} {owner : RecordId} {path : String}

theorem destinationOf_inRange (closed : model.Closed) {name : String} {destination : Destination}
    (accepted : destinationOf model owner path name = .ok destination) :
    destination.reference.InRange model.census := by
  unfold destinationOf at accepted
  split at accepted
  · rename_i found
    cases accepted
    exact closed.findDestination? found
  · cases accepted

/-- The type of a destination in range refers to declarations in range. -/
theorem destinationType_inRange (closed : model.Closed) {destination : Destination}
    (inRange : destination.reference.InRange model.census) :
    InRange model.census (model.destinationType destination).references := by
  cases destination with
  | attr id => exact (closed.attr inRange).type
  | bitfield id =>
    have held : InRange model.census (model.bitfield id).references :=
      closed.bitfields.getD inRange default
    simp only [Bitfield.references, inRange_append, inRange_cons] at held
    exact held.1.2

private theorem resolveConstructorArgument_inRange (closed : model.Closed)
    (inside : owner.index < model.records.size) {declaration : Declaration.ConstructorArgument}
    {argument : ConstructorArgument}
    (accepted : resolveConstructorArgument model owner path declaration = .ok argument) :
    InRange model.census argument.references := by
  simp only [resolveConstructorArgument] at accepted
  obtain ⟨destination, named, accepted⟩ := bind_ok accepted
  have reached : ∀ found ∈ destination, found.reference.InRange model.census := by
    intro found member
    obtain ⟨name, _, known⟩ := option_mapM_ok named found member
    exact destinationOf_inRange closed known
  have complete : ∀ {type : TypeRef}, InRange model.census type.references →
      ((declaration.expression.mapM (Expr.parse (exprContext model owner path))) >>= fun expression =>
        .ok ⟨declaration.name, type, destination, expression, declaration.method⟩) =
          (.ok argument : Except SchemaError ConstructorArgument) →
      InRange model.census argument.references := by
    intro type known accepted
    obtain ⟨expression, parsed, accepted⟩ := bind_ok accepted
    cases accepted
    simp only [ConstructorArgument.references, inRange_append, inRange_map, inRange_flatMap,
      Option.mem_toList]
    refine ⟨⟨known, reached⟩, fun expr member => ?_⟩
    obtain ⟨raw, _, read⟩ := option_mapM_ok parsed expr member
    exact Expr.parse_inRange read (exprContext_inRange closed inside path)
  split at accepted
  · obtain ⟨type, typed, accepted⟩ := bind_ok accepted
    exact complete (closed.lookupType typed) accepted
  · obtain ⟨type, typed, accepted⟩ := bind_ok accepted
    cases typed
    exact complete (destinationType_inRange closed (reached _ rfl)) accepted
  · cases accepted

private theorem resolveInitializer_inRange (closed : model.Closed)
    (inside : owner.index < model.records.size) {declaration : Declaration.Initializer}
    {init : Initializer} (accepted : resolveInitializer model owner path declaration = .ok init) :
    InRange model.census init.references := by
  simp only [resolveInitializer] at accepted
  obtain ⟨destination, named, accepted⟩ := bind_ok accepted
  obtain ⟨expression, parsed, accepted⟩ := bind_ok accepted
  cases accepted
  exact inRange_cons.mpr ⟨destinationOf_inRange closed named,
    Expr.parse_inRange parsed (exprContext_inRange closed inside path)⟩

/-- Tags change neither the arguments nor the initializers of a constructor. -/
theorem foldl_applyConstructorTag (tags : List Tag) (constructor : Constructor) :
    (tags.foldl applyConstructorTag constructor).arguments = constructor.arguments ∧
      (tags.foldl applyConstructorTag constructor).initializers = constructor.initializers := by
  induction tags generalizing constructor with
  | nil => exact ⟨rfl, rfl⟩
  | cons tag rest ih =>
    rw [List.foldl_cons, (ih _).1, (ih _).2]
    unfold applyConstructorTag
    split <;> exact ⟨rfl, rfl⟩

private theorem resolveConstructor_inRange (closed : model.Closed)
    (inside : owner.index < model.records.size) {declaration : Declaration.Constructor}
    {constructor : Constructor}
    (accepted : resolveConstructor model owner path declaration = .ok constructor) :
    InRange model.census constructor.references := by
  simp only [resolveConstructor] at accepted
  obtain ⟨arguments, taken, accepted⟩ := bind_ok accepted
  obtain ⟨initializers, assigned, accepted⟩ := bind_ok accepted
  cases accepted
  have same := foldl_applyConstructorTag (Tag.parseAll declaration.tags)
    { arguments, initializers, comment := declaration.comment }
  rw [Constructor.references, same.1, same.2, inRange_append, inRange_flatMap, inRange_flatMap]
  constructor
  · intro argument member
    obtain ⟨raw, _, read⟩ := mapM_ok taken argument member
    exact resolveConstructorArgument_inRange closed inside read
  · intro init member
    obtain ⟨raw, _, read⟩ := mapM_ok assigned init member
    exact resolveInitializer_inRange closed inside read

private theorem resolveConstructorsFrom_inRange (closed : model.Closed)
    (inside : owner.index < model.records.size) {position : Nat}
    {declarations : List Declaration.Constructor} {constructors : List Constructor}
    {remarks : List Warning}
    (accepted : resolveConstructorsFrom model owner path position declarations =
      .ok (constructors, remarks)) :
    ∀ constructor ∈ constructors, InRange model.census constructor.references := by
  induction declarations generalizing position constructors remarks with
  | nil =>
    cases accepted
    intro constructor member
    cases member
  | cons declaration rest ih =>
    simp only [resolveConstructorsFrom] at accepted
    obtain ⟨first, one, accepted⟩ := bind_ok accepted
    obtain ⟨⟨others, more⟩, later, accepted⟩ := bind_ok accepted
    cases accepted
    exact List.forall_mem_cons.mpr ⟨resolveConstructor_inRange closed inside one, ih later⟩

end Constructors

theorem resolveConstructors_step {model after : Model} {warnings remarks : List Warning}
    (sound : model.Sound) {pending : Pending RecordId Declaration.Record}
    (inside : pending.id.index < model.records.size)
    (accepted : resolveConstructors (model, warnings) pending = .ok (after, remarks)) :
    Step model after := by
  simp only [resolveConstructors] at accepted
  obtain ⟨⟨constructors, more⟩, resolved, accepted⟩ := bind_ok accepted
  cases accepted
  have inRange := resolveConstructorsFrom_inRange sound.closed inside resolved
  refine .of_sameLinks sound (.modifyRecord model pending.id (fun _ => rfl) (fun _ => rfl)
    (fun _ => rfl) (fun _ => rfl) fun _ => rfl) ?_ rfl rfl
    (.modifyRecord model pending.id fun _ => rfl)
  refine sound.closed.modifyRecord pending.id fun item held => ?_
  exact Record.closed_iff.mp { Record.closed_iff.mpr held with constructors := inRange }

/-!
## Storage schemas
-/

section Schemas

variable {model : Model} {owner : RecordId}

private theorem defaultDatasets_inRange (closed : model.Closed) :
    ∀ dataset ∈ defaultDatasets model owner, InRange model.census dataset.references := by
  intro dataset member
  cases List.mem_singleton.mp member
  simp only [Dataset.references, inRange_map]
  intro entry held
  obtain ⟨attr, listed, rfl⟩ := List.mem_map.mp held
  exact closed.recordAttributes owner attr listed

private theorem resolveEntry_inRange (closed : model.Closed) {path : String}
    {declaration : Declaration.DatasetEntry} {entry : DatasetEntry}
    (accepted : resolveEntry model owner path declaration = .ok entry) :
    entry.source.reference.InRange model.census := by
  unfold resolveEntry at accepted
  dsimp only at accepted
  split at accepted
  · cases accepted
  · rename_i source found
    cases accepted
    exact closed.entrySource? rfl found

private theorem addDataset_inRange (closed : model.Closed) {path : String} {before after : List Dataset}
    {declaration : Declaration.Dataset}
    (inRange : ∀ dataset ∈ before, InRange model.census dataset.references)
    (accepted : addDataset model owner path before declaration = .ok after) :
    ∀ dataset ∈ after, InRange model.census dataset.references := by
  simp only [addDataset, bind, Except.bind] at accepted
  split at accepted
  · cases accepted
  · obtain ⟨entries, read, accepted⟩ := bind_ok accepted
    cases accepted
    intro dataset member
    rcases List.mem_append.mp member with old | new
    · exact inRange dataset old
    · cases List.mem_singleton.mp new
      simp only [Dataset.references, inRange_map]
      intro entry held
      obtain ⟨raw, _, one⟩ := mapM_ok read entry held
      exact resolveEntry_inRange closed one

private theorem resolveSchema_inRange (closed : model.Closed) {typePath : String}
    {declaration : Declaration.StorageSchema} {schema : StorageSchema}
    (accepted : resolveSchema model owner typePath declaration = .ok schema) :
    InRange model.census schema.references := by
  simp only [resolveSchema] at accepted
  obtain ⟨datasets, added, accepted⟩ := bind_ok accepted
  have inRange : ∀ dataset ∈ datasets, InRange model.census dataset.references :=
    foldlM_preserves added
      (fun found => ∀ dataset ∈ found, InRange model.census dataset.references)
      (by simp) fun _ _ _ _ good taken => addDataset_inRange closed good taken
  split at accepted
  · cases accepted
    exact inRange_flatMap.mpr (defaultDatasets_inRange closed)
  · cases accepted
    exact inRange_flatMap.mpr inRange

theorem resolveSchemas_step {after : Model} (sound : model.Sound)
    {pending : Pending RecordId Declaration.Record}
    (accepted : resolveSchemas model pending = .ok after) : Step model after := by
  simp only [resolveSchemas] at accepted
  obtain ⟨declared, added, accepted⟩ := bind_ok accepted
  cases accepted
  have inRange : ∀ schema ∈ declared, InRange model.census schema.references := by
    refine foldlM_preserves added
      (fun found => ∀ schema ∈ found, InRange model.census schema.references)
      (by simp) ?_
    intro declaration _ before later good taken
    simp only [addSchema] at taken
    obtain ⟨schema, resolved, taken⟩ := bind_ok taken
    split at taken
    · cases taken
    · cases taken
      intro other member
      rcases List.mem_append.mp member with old | new
      · exact good other old
      · cases List.mem_singleton.mp new
        exact resolveSchema_inRange sound.closed resolved
  refine .of_sameLinks sound (.modifyRecord model pending.id (fun _ => rfl) (fun _ => rfl)
    (fun _ => rfl) (fun _ => rfl) fun _ => rfl) ?_ rfl rfl
    (.modifyRecord model pending.id fun _ => rfl)
  refine sound.closed.modifyRecord pending.id fun item held => ?_
  refine Record.closed_iff.mp { Record.closed_iff.mpr held with schemas := ?_ }
  dsimp only
  split
  · intro schema member
    cases List.mem_singleton.mp member
    exact inRange_flatMap.mpr (defaultDatasets_inRange sound.closed)
  · exact inRange

end Schemas

end RecordSchema.Resolution
