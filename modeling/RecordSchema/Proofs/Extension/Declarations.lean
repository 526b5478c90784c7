import RecordSchema.Proofs.Build
import RecordSchema.Proofs.Extension.Members
import RecordSchema.Proofs.Extension.Names

/-!
# Declarations of units that are added

Every pass over declarations takes those of the first units first, and resolves them as it would without
the others. Accessors of all types come before the methods that are declared, so from there on methods of
the first units are further on by the number of accessors that are added. Schemas refer to members, so
they are resolved alike in spite of that.
-/

set_option autoImplicit false

namespace RecordSchema

open Model Outcome

/-- The identifier further on by a distance, from a first one. -/
def MethodId.shift (first distance : Nat) (id : MethodId) : MethodId :=
  ⟨if id.index < first then id.index else id.index + distance⟩

private theorem MethodId.shift_injective (first distance : Nat) :
    Function.Injective (MethodId.shift first distance) := by
  intro left right same
  simp only [MethodId.shift, MethodId.mk.injEq] at same
  refine MethodId.ext ?_
  split at same <;> split at same <;> omega

namespace Resolution

/-- No pass over headers, constants or enumerations adds a member. -/
theorem Passes.memberless {draft : Draft} {built : Built} (passes : Passes draft built)
    (consistent : draft.Consistent) : passes.withEnumerations.attributes.size = 0 ∧
      passes.withEnumerations.bitfields.size = 0 ∧ passes.withEnumerations.methods.size = 0 := by
  have headers := foldlM_preserves passes.headers
    (fun state => state.Sound ∧ state.census = draft.model.census) ⟨consistent.sound, rfl⟩
    fun _ _ _ _ ⟨sound, census⟩ taken =>
      have header := resolveHeader_sound sound taken
      ⟨header.1, header.2.1.trans census⟩
  have constants := foldlM_preserves passes.constants
    (fun state => state.census = draft.model.census) headers.2 fun pending _ state _ census taken => by
      obtain ⟨_, rfl⟩ := resolveConstant_ok taken
      exact (state.census_modifyConstant pending.id _).trans census
  have census := foldlM_preserves passes.enumerations
    (fun state => state.census = draft.model.census) constants fun pending _ state _ census taken => by
      obtain ⟨_, _, rfl⟩ := resolveEnumeration_ok taken
      exact (state.census_modifyEnumeration pending.id _).trans census
  have empty : draft.model.attributes.size = 0 ∧ draft.model.bitfields.size = 0 ∧
      draft.model.methods.size = 0 := by
    rw [consistent.noAttributes, consistent.noBitfields, consistent.noMethods]
    exact ⟨rfl, rfl, rfl⟩
  exact ⟨(congrArg Census.attributes census).trans empty.1,
    (congrArg Census.bitfields census).trans empty.2.1,
    (congrArg Census.methods census).trans empty.2.2⟩

/-- A pass that takes the same elements first in both models, each from a model that the passes so far
have left, and then what the larger model has alone. -/
theorem pass_within {α : Type} {items added all : List α} (split : all = items ++ added)
    {step : Model → α → Except SchemaError Model} {move : MethodId → MethodId}
    {related : Model → Model → Prop} {headed start start' final final' : Model}
    (before : Step headed start) (accepted : items.foldlM step start = .ok final)
    (accepted' : all.foldlM step start' = .ok final') (initial : related start start')
    (steps : ∀ item ∈ items, ∀ state after, Step headed state → step state item = .ok after →
      Step state after)
    (both : ∀ item ∈ items, ∀ state state', Step headed state → related state state' →
      Follows related (step state item) (step state' item))
    (implied : ∀ state', related final state' → Within move final state')
    (own : ∀ item ∈ added, ∀ state' after, Within move final state' → step state' item = .ok after →
      Within move final after) : Within move final final' := by
  have together := Follows.foldlM_keeping (Step headed)
    (fun state item listed after kept taken => kept.trans (steps item listed state after kept taken))
    (fun state state' item listed => both item listed state state') before initial
  exact Follows.foldlM_append (Within move final) split accepted accepted' together
    (fun state' reached => implied state' reached.2) own

section Passes

variable {base draft : Draft} {built built' : Built} (beyond : base.Beyond draft)
  (consistent : base.Consistent) (consistent' : draft.Consistent) (passes : Passes base built)
  (passes' : Passes draft built')

include beyond consistent

private theorem headers_within : Within id passes.headed passes'.headed := by
  obtain ⟨more, split, apart⟩ := beyond.records
  have together : Follows _ (base.records.toList.foldlM resolveHeader base.model)
      (base.records.toList.foldlM resolveHeader draft.model) :=
    Follows.foldlM_keeping (fun state : Model => state.Sound ∧ state.census = base.model.census)
      (fun state pending _ after ⟨sound, census⟩ taken =>
        have header := resolveHeader_sound sound taken
        ⟨header.1, header.2.1.trans census⟩)
      (fun state state' pending waits ⟨sound, census⟩ within => by
        have records : state.records.size = base.model.records.size := congrArg Census.records census
        have inside := consistent.records pending (Array.mem_toList_iff.mp waits)
        exact resolveHeader_extends within sound.closed (records ▸ inside))
      ⟨consistent.sound, rfl⟩ beyond.model.toWithin
  refine Follows.foldlM_append (Within id passes.headed) split passes.headers passes'.headers together
    (fun _ reached => reached.2) fun pending listed _ _ within taken => ?_
  have records := (passes.isHeaded consistent).named.records
  exact resolveHeader_within within (records ▸ apart pending listed) taken

private theorem constants_within : Within id passes.withConstants passes'.withConstants := by
  obtain ⟨more, split, apart⟩ := beyond.constants
  have headed := passes.isHeaded consistent
  refine pass_within split (.refl headed.sound) passes.constants passes'.constants
    (headers_within beyond consistent passes passes')
    (fun pending waits _ _ kept taken =>
      resolveConstant_step kept.sound (kept.constants ▸ headed.constants pending waits) taken)
    (fun pending waits _ _ kept within =>
      resolveConstant_extends within (kept.constants ▸ headed.constants pending waits))
    (fun _ within => within) fun pending listed _ _ within taken => ?_
  obtain ⟨_, rfl⟩ := resolveConstant_ok taken
  have constants := (passes.constants_step consistent).constants.trans headed.named.constants
  exact within.modifyConstant (constants ▸ apart pending listed) _

private theorem enumerations_within : Within id passes.withEnumerations passes'.withEnumerations := by
  obtain ⟨more, split, apart⟩ := beyond.enumerations
  have headed := passes.isHeaded consistent
  refine pass_within split (passes.constants_step consistent) passes.enumerations passes'.enumerations
    (constants_within beyond consistent passes passes')
    (fun pending waits _ _ kept taken =>
      resolveEnumeration_step kept.sound (kept.enumerations ▸ headed.enumerations pending waits) taken)
    (fun pending waits _ _ kept within => resolveEnumeration_extends within kept.sound.closed
      (kept.enumerations ▸ headed.enumerations pending waits))
    (fun _ within => within) fun pending listed _ _ within taken => ?_
  obtain ⟨_, _, rfl⟩ := resolveEnumeration_ok taken
  have enumerations := (passes.enumerations_step consistent).enumerations.trans headed.named.enumerations
  exact within.modifyEnumeration (enumerations ▸ apart pending listed) _

include consistent'

private theorem attributes_within : Within id passes.withAttributes passes'.withAttributes := by
  obtain ⟨more, split, apart⟩ := beyond.records
  have headed := passes.isHeaded consistent
  obtain ⟨attributes, bitfields, methods⟩ := passes.memberless consistent
  obtain ⟨attributes', bitfields', methods'⟩ := passes'.memberless consistent'
  have abreast : Abreast id passes.withEnumerations passes'.withEnumerations :=
    { enumerations_within beyond consistent passes passes' with
      methods := fun count => by rw [methods, methods', id_eq]
      attributes := attributes'.trans attributes.symm
      bitfields := bitfields'.trans bitfields.symm }
  refine pass_within split (passes.enumerations_step consistent) passes.attributes passes'.attributes
    abreast
    (fun pending waits _ _ kept taken =>
      resolveAttributes_step kept.sound (kept.records ▸ headed.records pending waits) taken)
    (fun pending waits _ _ kept still =>
      resolveAttributes_extends still kept.sound (kept.records ▸ headed.records pending waits))
    (fun _ still => still.toWithin) fun pending listed _ _ within taken => ?_
  have records := (passes.attributes_step consistent).records.trans headed.named.records
  exact resolveAttributes_within within (records ▸ apart pending listed) taken

/-- Once methods are resolved, too, those of the first units are further on in the larger model. -/
theorem methods_within : ∃ move, Function.Injective move ∧
    Within move passes.withMethods passes'.withMethods := by
  obtain ⟨more, split, apart⟩ := beyond.records
  have headed := passes.isHeaded consistent
  have step := passes.attributes_step consistent
  have within := attributes_within beyond consistent consistent' passes passes'
  have fewer : passes.withAttributes.methods.size ≤ passes'.withAttributes.methods.size :=
    within.census.methods
  let move := MethodId.shift passes.withAttributes.methods.size
    (passes'.withAttributes.methods.size - passes.withAttributes.methods.size)
  have aligned : Aligned move passes.withAttributes passes'.withAttributes :=
    { within.congr step.sound.closed (fun id inside => MethodId.ext (if_pos inside)) with
      methods := fun count => by
        refine MethodId.ext ((if_neg (by simp)).trans ?_)
        simp only
        omega }
  refine ⟨move, MethodId.shift_injective .., ?_⟩
  refine pass_within split step passes.methods passes'.methods aligned
    (fun pending waits _ _ kept taken =>
      resolveMethods_step kept.sound (kept.records ▸ headed.records pending waits) taken)
    (fun pending waits _ _ kept still =>
      resolveMethods_extends still kept.sound (kept.records ▸ headed.records pending waits))
    (fun _ still => still.toWithin) fun pending listed _ _ within taken => ?_
  have records := (passes.methods_step consistent).records.trans headed.named.records
  exact resolveMethods_within within (records ▸ apart pending listed) taken

include passes passes'

/-- What is resolved of the first units is resolved alike with units that are added. -/
theorem resolved_within : ∃ move, Function.Injective move ∧ Within move built.model built'.model := by
  obtain ⟨more, split, apart⟩ := beyond.records
  obtain ⟨move, injective, within⟩ := methods_within beyond consistent consistent' passes passes'
  have headed := passes.isHeaded consistent
  refine ⟨move, injective, ?_⟩
  have together : Follows (fun state state' => Step passes.headed state.1 ∧ Within move state.1 state'.1)
      (base.records.toList.foldlM resolveConstructors (passes.withMethods, []))
      (base.records.toList.foldlM resolveConstructors (passes'.withMethods, [])) := by
    refine .foldlM_keeping (fun state : Model × List Warning => Step passes.headed state.1) ?_ ?_
      (passes.methods_step consistent) within
    · intro state pending waits after kept taken
      have inside := headed.records pending waits
      exact kept.trans (resolveConstructors_step kept.sound (kept.records ▸ inside) taken)
    · intro state state' pending waits kept still
      have inside := headed.records pending waits
      exact resolveConstructors_extends still kept.sound.closed (kept.records ▸ inside)
  refine Follows.foldlM_append (fun state' => Within move built.model state'.1) split
    passes.constructors passes'.constructors together (fun _ reached => reached.2)
    fun pending listed _ _ still taken => ?_
  have records := (passes.step consistent).records.trans headed.named.records
  exact resolveConstructors_within still (records ▸ apart pending listed) taken

end Passes

end Resolution

/-!
## Schemas

A schema refers to members that its type has or inherits.
-/

namespace Resolution

variable {move : MethodId → MethodId} {part whole : Model}

section Schema

variable (within : Within move part whole) (closed : part.Closed) {owner : RecordId}
  (inside : owner.index < part.records.size)

include within closed

private theorem accessorName_within {id : AttributeId} (there : id.index < part.attributes.size) :
    whole.accessorName (whole.attr id) = part.accessorName (part.attr id) := by
  rw [within.attr id there]
  unfold accessorName
  cases found : (part.attr id).accessor with
  | none =>
    simp only [Attribute.renumber, found, Option.map_none]
    rfl
  | some method =>
    have known := (within.method method ((closed.attr there).accessor method found)).2
    simp only [Attribute.renumber, found, Option.map_some, known]

private theorem sourceMethod_within (name : String) {source : DatasetSource}
    (known : source.reference.InRange part.census) :
    sourceMethod whole name (source.renumber move) = sourceMethod part name source := by
  cases source with
  | method id => simp only [DatasetSource.renumber, sourceMethod, (within.method id known).2]
  | attr id =>
    have accessor : ((part.attr id).accessor.map move).map (fun method => (whole.method method).name) =
        (part.attr id).accessor.map fun method => (part.method method).name := by
      rw [Option.map_map]
      refine Option.map_congr fun method found => ?_
      exact congrArg Method.name (within.method method ((closed.attr known).accessor method found)).2
    simp only [DatasetSource.renumber, sourceMethod, within.attr id known, Attribute.renumber, accessor]
    rfl

include inside

private theorem entrySource?_within (name : String) :
    entrySource? whole owner name = (entrySource? part owner name).map (DatasetSource.renumber move) := by
  rw [entrySource?, entrySource?, within.findMethod? closed inside, within.findAttribute? closed inside]
  cases named : part.findMethod? owner name with
  | none =>
    simp only [Option.map_none, Option.map_map]
    rfl
  | some method =>
    simp only [Option.map_some, (within.method method (closed.findMethod? named)).2]
    cases (part.method method).body <;> rfl

private theorem defaultDatasets_within :
    defaultDatasets whole owner = (defaultDatasets part owner).map (Dataset.renumber move) := by
  have entries : (part.record owner).attributes.map (attributeEntry whole) =
      ((part.record owner).attributes.map (attributeEntry part)).map (DatasetEntry.renumber move) := by
    rw [List.map_map]
    refine List.map_congr_left fun id listed => ?_
    have there := closed.recordAttributes owner id listed
    rw [Function.comp_apply, attributeEntry, accessorName_within within closed there,
      within.attr id there]
    rfl
  have attributes : (whole.record owner).attributes = (part.record owner).attributes := by
    rw [within.record owner inside]
    rfl
  rw [defaultDatasets, attributes, entries]
  rfl

private theorem resolveEntry_extends (path : String) (declaration : Declaration.DatasetEntry) :
    Mirrors (DatasetEntry.renumber move) (resolveEntry part owner path declaration)
      (resolveEntry whole owner path declaration) := by
  rw [resolveEntry, resolveEntry, entrySource?_within within closed inside]
  cases named : entrySource? part owner (declaration.method.getD declaration.name) with
  | none => exact .error
  | some source =>
    simp only [Option.map_some, sourceMethod_within within closed _ (closed.entrySource? rfl named)]
    exact .ok rfl

private theorem addDataset_extends (path : String) (before : List Dataset)
    (declaration : Declaration.Dataset) :
    Mirrors (List.map (Dataset.renumber move)) (addDataset part owner path before declaration)
      (addDataset whole owner path (before.map (Dataset.renumber move)) declaration) := by
  have clash : ((before.map (Dataset.renumber move)).any fun dataset =>
      dataset.name == declaration.name) = before.any fun dataset => dataset.name == declaration.name := by
    rw [List.any_map]
    rfl
  refine .guarded clash fun _ => ?_
  refine (Mirrors.mapM fun entry _ => resolveEntry_extends within closed inside _ entry).bind
    fun entries _ _ _ same => .ok ?_
  subst same
  rw [List.map_append]
  rfl

private theorem resolveSchema_extends (typePath : String) (declaration : Declaration.StorageSchema) :
    Mirrors (StorageSchema.renumber move) (resolveSchema part owner typePath declaration)
      (resolveSchema whole owner typePath declaration) := by
  refine (Mirrors.foldlM_from (fun before dataset _ =>
    addDataset_extends within closed inside _ before dataset) []).bind fun datasets _ _ _ same => ?_
  subst same
  rw [List.isEmpty_map, defaultDatasets_within within closed inside]
  exact .ite Iff.rfl (fun _ => .ok rfl) fun _ => .ok rfl

private theorem addSchema_extends (typePath : String) (before : List StorageSchema)
    (declaration : Declaration.StorageSchema) :
    Mirrors (List.map (StorageSchema.renumber move)) (addSchema part owner typePath before declaration)
      (addSchema whole owner typePath (before.map (StorageSchema.renumber move)) declaration) := by
  refine (resolveSchema_extends within closed inside typePath declaration).bind
    fun schema _ _ _ same => ?_
  subst same
  have clash : ((before.map (StorageSchema.renumber move)).any fun other =>
      other.name == schema.name && other.version == schema.version) =
        before.any fun other => other.name == schema.name && other.version == schema.version := by
    rw [List.any_map]
    rfl
  refine .guarded clash fun _ => .ok ?_
  rw [List.map_append]
  rfl

end Schema

theorem resolveSchemas_extends (within : Within move part whole) (closed : part.Closed)
    {pending : Pending RecordId Declaration.Record} (inside : pending.id.index < part.records.size) :
    Follows (Within move) (resolveSchemas part pending) (resolveSchemas whole pending) := by
  refine (Mirrors.foldlM_from (fun before schema _ =>
    addSchema_extends within closed inside _ before schema) []).bind fun schemas _ _ _ same => ?_
  subst same
  refine .ok (within.modifyRecords pending.id fun record => ?_)
  rw [List.isEmpty_map, defaultDatasets_within within closed inside]
  split <;> rfl

/-- The schemas of a type that the larger model has alone. -/
theorem resolveSchemas_within {after : Model} (within : Within move part whole)
    {pending : Pending RecordId Declaration.Record} (outside : part.records.size ≤ pending.id.index)
    (accepted : resolveSchemas whole pending = .ok after) : Within move part after := by
  simp only [resolveSchemas] at accepted
  obtain ⟨_, _, accepted⟩ := bind_ok accepted
  cases accepted
  exact within.modifyRecord outside _

end Resolution

end RecordSchema
