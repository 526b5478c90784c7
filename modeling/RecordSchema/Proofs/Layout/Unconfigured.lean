import RecordSchema.Proofs.Build
import RecordSchema.Proofs.Layout.Reasons

/-!
# Dependence without a config type

A type that names no config type may depend on one nevertheless. An attribute of its own that does is
refused, and its own expressions read no config object, but what it inherits may depend on one.
-/

set_option autoImplicit false

namespace RecordSchema

open Model Outcome

namespace Layout

/-!
## Methods
-/

/-- The body of a method names a member. -/
def Mentions (model : Model) (method : MethodId) (name : String) : Prop :=
  ∃ text ∈ (model.method method).body.texts, name ∈ text.members

/-- A method of a type names a flagged member that the type inherits, or another method of the type
that does so in turn. -/
inductive Inherits (model : Model) (id : RecordId) : MethodId → Prop where
  | attr {method : MethodId} {name : String} {found : AttributeId} :
      Mentions model method name → model.findAttribute? id name = some found →
      (model.attr found).owner ≠ id → (model.attr found).configDependent = true →
      Inherits model id method
  | method {method : MethodId} {name : String} {other : MethodId} :
      Mentions model method name → model.findAttribute? id name = none →
      model.findMethod? id name = some other → (model.method other).owner ≠ id →
      (model.method other).configDependent = true → Inherits model id method
  | own {method : MethodId} {name : String} {other : MethodId} :
      Mentions model method name → model.findAttribute? id name = none →
      model.findMethod? id name = some other → (model.method other).owner = id →
      Inherits model id other → Inherits model id method

section Methods

variable {model : Model}

private theorem methodDepends_of_mentions {method : MethodId} {name : String}
    (mentions : Mentions model method name)
    (flagged : memberDepends model (model.method method).owner name = true) :
    methodDepends model (model.method method) = true := by
  obtain ⟨text, listed, named⟩ := mentions
  have reads : exprDepends model (model.method method).owner text = true := by
    rw [exprDepends, Bool.or_eq_true, List.any_eq_true]
    exact .inr ⟨name, named, flagged⟩
  rw [methodDepends]
  split
  · rename_i body
    rw [body] at listed
    cases listed
  · rename_i body
    rw [body] at listed
    cases listed
  · exact List.any_eq_true.mpr ⟨text, listed, reads⟩

/-- What a type inherits raises the flag of its method. -/
theorem Inherits.flagged (settled : Settled model) {id : RecordId} {method : MethodId}
    (inherits : Inherits model id method) :
    (model.method method).owner = id → (model.method method).configDependent = true := by
  induction inherits with
  | attr mentions found _ flag =>
    rintro rfl
    refine settled.method _ (methodDepends_of_mentions mentions ?_)
    rw [memberDepends, found]
    exact flag
  | method mentions missing found _ flag =>
    rintro rfl
    refine settled.method _ (methodDepends_of_mentions mentions ?_)
    rw [memberDepends, missing, found]
    exact flag
  | own mentions missing found own _ ih =>
    rintro rfl
    refine settled.method _ (methodDepends_of_mentions mentions ?_)
    rw [memberDepends, missing, found]
    exact ih own

/-- What raises the flag of a method: the attribute that it is the accessor of, or what its body
reads. -/
theorem methodDepends_cases {state : Model} {method : Method}
    (depends : methodDepends state method = true) :
    (∃ attr, method.body = .attr attr ∧ (state.attr attr).configDependent = true) ∨
      (∃ bitfield, method.body = .bitfield bitfield ∧
        (state.attr (state.bitfield bitfield).attr).configDependent = true) ∨
      ∃ text ∈ method.body.texts, text.hasConfig = true ∨
        ∃ name ∈ text.members, memberDepends state method.owner name = true := by
  rw [methodDepends] at depends
  split at depends
  · rename_i attr body
    exact .inl ⟨attr, body, depends⟩
  · rename_i bitfield body
    exact .inr (.inl ⟨bitfield, body, depends⟩)
  · obtain ⟨text, listed, reads⟩ := List.any_eq_true.mp depends
    refine .inr (.inr ⟨text, listed, ?_⟩)
    rwa [exprDepends, Bool.or_eq_true, List.any_eq_true] at reads

/-- A type without base inherits nothing. -/
theorem Inherits.base (linked : model.Linked) {id : RecordId} {method : MethodId}
    (inherits : Inherits model id method) : (model.record id).base ≠ none := by
  intro root
  have alone : model.lineage id = [id] := by simp [Model.lineage, Model.basesFrom, root]
  induction inherits with
  | attr _ found inherited _ =>
    rw [Model.findAttribute?, alone, List.findSome?_singleton] at found
    have listed := List.mem_of_find?_eq_some found
    exact inherited ((linked.attributes.mem_iff (linked.closed.recordAttributes id _ listed)).mp listed)
  | method _ _ found inherited _ =>
    rw [Model.findMethod?, alone, List.findSome?_singleton] at found
    have listed := List.mem_of_find?_eq_some found
    exact inherited ((linked.methods.mem_iff (linked.closed.recordMethods id _ listed)).mp listed)
  | own _ _ _ _ _ ih => exact ih

end Methods

/-!
## Types without config types
-/

/-- A type that names no config type owns an attribute that depends on one. -/
def LacksConfig (model : Model) (id : RecordId) (attr : AttributeId) : Prop :=
  id.index < model.records.size ∧ (model.record id).configs = [] ∧
    attr ∈ (model.record id).attributes ∧ (model.attr attr).configDependent = true

instance (model : Model) (id : RecordId) (attr : AttributeId) :
    Decidable (LacksConfig model id attr) :=
  inferInstanceAs (Decidable (_ ∧ _ ∧ _ ∧ _))

/-- The refusal of such a type. -/
def lackError (model : Model) (id : RecordId) (attr : AttributeId) : SchemaError :=
  .missingConfig (model.recordPath id ++ "." ++ (model.attr attr).name)
    (model.typeRefName (model.attr attr).type)

/-- A model is refused if a type lacks a config type, and for no other reason. -/
theorem checkConfigs_cases (model : Model) :
    (checkConfigs model = .ok () ∧ ∀ id attr, ¬ LacksConfig model id attr) ∨
      ∃ id attr, LacksConfig model id attr ∧
        checkConfigs model = .error (lackError model id attr) := by
  rw [checkConfigs]
  rcases forM_cases model.recordIds _ with ⟨passed, each⟩ | ⟨id, listed, error, failed, same⟩
  · refine .inl ⟨passed, fun id attr ⟨inside, bare, among, flag⟩ => ?_⟩
    have fine := each id (mem_recordIds.mpr inside)
    simp only [bare, List.isEmpty_nil, Bool.not_true, Bool.false_eq_true, if_false,
      List.find?_map] at fine
    cases found : (model.record id).attributes.find? ((·.configDependent) ∘ model.attr) with
    | none => exact List.find?_eq_none.mp found attr among flag
    | some other =>
      rw [found] at fine
      cases fine
  · dsimp only at failed
    split at failed
    · cases failed
    · rename_i configs
      have bare : (model.record id).configs = [] := by simpa using configs
      rw [List.find?_map] at failed
      cases found : (model.record id).attributes.find? ((·.configDependent) ∘ model.attr) with
      | none =>
        rw [found] at failed
        cases failed
      | some attr =>
        rw [found] at failed
        cases failed
        have flag : ((·.configDependent) ∘ model.attr) attr = true := List.find?_some found
        exact .inr ⟨id, attr, ⟨mem_recordIds.mp listed, bare, List.mem_of_find?_eq_some found, flag⟩,
          same⟩

section Bare

variable {model state : Model} {id : RecordId}

/-- A round raises the flag of a method, of a type without config types and without flagged attributes,
only for what the type inherits. -/
theorem inherits_of_methodDepends (sound : model.Sound)
    (config : ∀ method, ∀ text ∈ (model.method method).body.texts, text.hasConfig = true →
      (model.record (model.method method).owner).configs ≠ [])
    (bitfields : ∀ method bitfield, (model.method method).body = .bitfield bitfield →
      (model.attr (model.bitfield bitfield).attr).owner = (model.method method).owner)
    (bare : (model.record id).configs = [])
    (plain : ∀ attr ∈ (model.record id).attributes, (model.attr attr).configDependent = false)
    (below : Below state model)
    (known : ∀ method, (model.method method).owner = id →
      (state.method method).configDependent = true → Inherits model id method)
    {method : MethodId} (own : (model.method method).owner = id)
    (depends : methodDepends state (state.method method) = true) : Inherits model id method := by
  have body := below.agree.methodField Method.body (fun _ => rfl) method
  have owner := below.agree.methodField Method.owner (fun _ => rfl) method
  have links : Agree .derived state model :=
    below.agree.coarsen (fun _ => rfl) (fun _ => rfl) fun _ => rfl
  have inside : method.index < model.methods.size := by
    by_contra outside
    have total := below.methodDepends depends
    rw [model.method_eq_default outside] at total
    cases total
  have references := sound.closed.methodBody inside
  have notOwn : ∀ attr : AttributeId, attr.index < model.attributes.size →
      (state.attr attr).configDependent = true → (model.attr attr).owner ≠ id := by
    intro attr known flag same
    have unflagged := plain attr ((sound.attributes.mem_iff known).mpr same)
    rw [below.attr attr flag] at unflagged
    cases unflagged
  rcases methodDepends_cases depends with ⟨attr, reads, flag⟩ | ⟨bitfield, reads, flag⟩ |
    ⟨text, listed, reads⟩
  · rw [← body] at reads
    rw [reads] at references
    exact absurd ((sound.reader method inside attr reads).trans own)
      (notOwn attr (inRange_cons.mp references).1 flag)
  · rw [← body] at reads
    rw [reads] at references
    have same : state.bitfield bitfield = model.bitfield bitfield := by
      rw [Model.bitfield, Model.bitfield, below.agree.bitfields]
    rw [same] at flag
    exact absurd ((bitfields method bitfield reads).trans own)
      (notOwn _ (sound.closed.bitfieldAttr (inRange_cons.mp references).1) flag)
  · rw [← body] at listed
    rcases reads with object | ⟨name, named, flagged⟩
    · exact absurd (own ▸ bare) (config method text listed object)
    · have mentions : Mentions model method name := ⟨text, listed, named⟩
      rw [← owner, own, memberDepends, ← links.findAttribute?, ← links.findMethod?] at flagged
      split at flagged
      · rename_i attr found
        exact .attr mentions found (notOwn attr (sound.closed.findAttribute? found) flagged)
          (below.attr attr flagged)
      · rename_i missing
        split at flagged
        · rename_i other found
          by_cases same : (model.method other).owner = id
          · exact .own mentions missing found same (known other same flagged)
          · exact .method mentions missing found same (below.method other flagged)
        · cases flagged

end Bare

/-!
## Models without flags
-/

/-- The model of some units before flags are raised. -/
def Placed (units : List SourceUnit) (placed : Model) : Prop :=
  ∃ draft resolved ordered, Draft.ofUnits units = .ok draft ∧
    Resolution.resolveDeclarations draft = .ok resolved ∧ order resolved.model = .ok ordered ∧
    ordered.foldlM placeRecord resolved.model = .ok placed

/-- No flag is raised before the rounds. -/
theorem Placed.unflagged {units : List SourceUnit} {placed : Model} (reached : Placed units placed) :
    Unflagged placed := by
  obtain ⟨draft, built, ordered, named, resolution, sorted, placement⟩ := reached
  have resolved := Resolution.resolveDeclarations_ok (Draft.ofUnits_consistent named) resolution
  have agree := (placeRecords_laidOut resolved.sound.toLinked (order_ok sorted) placement).1
  constructor
  · intro id
    rw [agree.attrField Attribute.configDependent fun _ => rfl]
    exact (resolved.declared id).unflagged
  · intro id
    rw [agree.methodField Method.configDependent fun _ => rfl]
    exact (resolved.methods id).unflagged
  · intro id
    rw [agree.recordField Record.configDependent fun _ => rfl]
    exact resolved.unflagged id

end Layout

namespace Stages

open Layout

variable {units : List SourceUnit} {built : Built} (stages : Stages units built)

include stages

theorem unflagged : Unflagged stages.placed :=
  Placed.unflagged ⟨stages.draft, _, stages.order, stages.named, stages.resolution, stages.ordered,
    stages.placement⟩

theorem exact : Exact built.model :=
  .of_raised stages.unflagged stages.settled stages.agree_later stages.agree_flagged

theorem config (id : MethodId) : ∀ text ∈ (built.model.method id).body.texts,
    text.hasConfig = true → (built.model.record (built.model.method id).owner).configs ≠ [] := by
  have agree := stages.agree_derived
  rw [agree.methodField Method.body (fun _ => rfl), agree.methodField Method.owner fun _ => rfl,
    agree.recordField Record.configs fun _ => rfl]
  exact (stages.isResolved.methods id).config

theorem bitfield (id : MethodId) (bitfield : BitfieldId)
    (reads : (built.model.method id).body = .bitfield bitfield) :
    (built.model.attr (built.model.bitfield bitfield).attr).owner = (built.model.method id).owner := by
  have agree := stages.agree_derived
  rw [agree.methodField Method.body fun _ => rfl] at reads
  rw [agree.methodField Method.owner fun _ => rfl, agree.attrField Attribute.owner fun _ => rfl,
    Model.bitfield, agree.bitfields]
  exact (stages.isResolved.methods id).bitfield bitfield reads

/-- No type of the built model lacks a config type for an attribute. -/
theorem plain {id : RecordId} (inside : id.index < built.model.records.size)
    (bare : (built.model.record id).configs = []) :
    ∀ attr ∈ (built.model.record id).attributes,
      (built.model.attr attr).configDependent = false := by
  intro attr listed
  have agree := stages.agree_flagged
  rcases checkConfigs_cases (withDependence stages.placed) with ⟨_, fine⟩ | ⟨_, _, _, refused⟩
  · refine Bool.eq_false_iff.mpr fun flag => fine id attr ⟨?_, ?_, ?_, ?_⟩
    · exact agree.recordCount ▸ inside
    · rw [← agree.recordField Record.configs fun _ => rfl]
      exact bare
    · rw [← agree.recordField Record.attributes fun _ => rfl]
      exact listed
    · rw [← agree.attrField Attribute.configDependent fun _ => rfl]
      exact flag
  · rw [stages.configs] at refused
    cases refused

private theorem flagged_iff_inherits {id : RecordId} (inside : id.index < built.model.records.size)
    (bare : (built.model.record id).configs = []) {method : MethodId}
    (own : (built.model.method method).owner = id) :
    (built.model.method method).configDependent = true ↔ Inherits built.model id method := by
  refine ⟨fun flag => ?_, fun inherits => inherits.flagged stages.settled own⟩
  have sound := stages.sound
  have below := stages.unflagged.below stages.agree_later
  have all : ∀ method, (built.model.method method).owner = id →
      ((withDependence stages.placed).method method).configDependent = true →
        Inherits built.model id method := by
    refine raiseAll_induction (fun state => ∀ method, (built.model.method method).owner = id →
      (state.method method).configDependent = true → Inherits built.model id method)
      stages.settled below ?_ ?_ _
    · intro method _ flag
      rw [stages.unflagged.method] at flag
      cases flag
    · intro state below known method own flag
      rw [method_raiseFlags] at flag
      rcases Bool.or_eq_true_iff.mp flag with old | new
      · exact known method own old
      · exact inherits_of_methodDepends sound stages.config stages.bitfield bare
          (stages.plain inside bare) below known own new
  refine all method own ?_
  rwa [← stages.agree_flagged.methodField Method.configDependent fun _ => rfl]

end Stages

namespace Layout

private theorem build_lacks {units : List SourceUnit} {placed : Model} (reached : Placed units placed)
    {id : RecordId} {attr : AttributeId}
    (refused : checkConfigs (withDependence placed) =
      .error (lackError (withDependence placed) id attr)) :
    build units = .error (.schema (lackError (withDependence placed) id attr)) := by
  obtain ⟨draft, resolved, ordered, named, resolution, sorted, placement⟩ := reached
  have laidOut : Resolution.layOut resolved.model =
      .error (.schema (lackError (withDependence placed) id attr)) := by
    simp only [Resolution.layOut, orderOrRefuse, sorted, bind, Except.bind, placement, refused,
      orRefuse]
  simp only [build, named, resolution, orRefuse, bind, Except.bind, laidOut]

/-- In a type that names no config type no attribute depends on one. The type itself does only if it
has no attributes and the size of its base does as the type reads it, and its methods do only by way of
what the type inherits. Where a type without config types owns an attribute that depends on one, that
is why the units are refused. -/
theorem build_unconfigured (units : List SourceUnit) :
    (∀ built, build units = .ok built → ∀ id : RecordId, id.index < built.model.records.size →
      (built.model.record id).configs = [] →
        (∀ attr ∈ (built.model.record id).attributes,
          (built.model.attr attr).configDependent = false) ∧
        ((built.model.record id).configDependent = true ↔
          (built.model.record id).attributes = [] ∧
            ∃ base, (built.model.record id).base = some base ∧
              exprDepends built.model id (built.model.record base).size = true) ∧
        (∀ method ∈ (built.model.record id).methods,
          (built.model.method method).configDependent = true ↔ Inherits built.model id method) ∧
        ((built.model.record id).base = none →
          (built.model.record id).configDependent = false ∧
            ∀ method ∈ (built.model.record id).methods,
              (built.model.method method).configDependent = false)) ∧
      ∀ placed, Placed units placed →
        (∃ id attr, LacksConfig (withDependence placed) id attr) →
          ∃ id attr, LacksConfig (withDependence placed) id attr ∧
            build units = .error (.schema (lackError (withDependence placed) id attr)) := by
  constructor
  · intro built accepted id inside bare
    obtain ⟨stages⟩ := build_stages accepted
    have sound := stages.sound
    have exact := stages.exact
    have plain := stages.plain inside bare
    have owned : ∀ attr ∈ (built.model.record id).attributes, (built.model.attr attr).owner = id :=
      fun attr listed =>
        (sound.attributes.mem_iff (sound.closed.recordAttributes id attr listed)).mp listed
    have ownMethods : ∀ method ∈ (built.model.record id).methods,
        (built.model.method method).owner = id := fun method listed =>
      (sound.methods.mem_iff (sound.closed.recordMethods id method listed)).mp listed
    have size : (built.model.record id).configDependent = true ↔
        (built.model.record id).attributes = [] ∧
          ∃ base, (built.model.record id).base = some base ∧
            exprDepends built.model id (built.model.record base).size = true := by
      rw [exact.record]
      refine (stages.laidOut inside).size_depends owned fun attr listed => ?_
      rw [← Bool.not_eq_true, ← exact.attr, Bool.not_eq_true]
      exact plain attr listed
    have methods : ∀ method ∈ (built.model.record id).methods,
        (built.model.method method).configDependent = true ↔ Inherits built.model id method :=
      fun method listed => stages.flagged_iff_inherits inside bare (ownMethods method listed)
    refine ⟨plain, size, methods, fun root => ⟨?_, fun method listed => ?_⟩⟩
    · refine Bool.eq_false_iff.mpr fun flag => ?_
      obtain ⟨_, base, found, _⟩ := size.mp flag
      rw [root] at found
      cases found
    · exact Bool.eq_false_iff.mpr fun flag =>
        ((methods method listed).mp flag).base sound.toLinked root
  · rintro placed reached ⟨id, attr, lacks⟩
    rcases checkConfigs_cases (withDependence placed) with ⟨_, fine⟩ | ⟨other, first, lacks, refused⟩
    · exact absurd lacks (fine id attr)
    · exact ⟨other, first, lacks, build_lacks reached refused⟩

/-- A config type and a type with as many values as it says, followed by some other types. -/
def configuredUnits (types : List Declaration.Record) : List SourceUnit :=
  let config : Declaration.Record :=
    { name := "Config", attributes := [{ name := "count", typeName := some "uint32_t" }] }
  let data : Declaration.Record :=
    { name := "Data", configs := ["Config"]
      attributes := [{ name := "value", typeName := some "uint8_t",
                       shape := ["\x7bxtc-config\x7d.count()"] }] }
  [{ document := { packages := [.mk "Sample" none [] [] [] [] (config :: data :: types)] } }]

/-- The type extends another that needs a config object. -/
def extendingUnits : List SourceUnit :=
  let first : Declaration.Method :=
    { name := "first", typeName := some "uint8_t", expressions := [("Any", "\x7bself\x7d.value(0)")] }
  configuredUnits [{ name := "Extended", base := some "Data", methods := [first] }]

/-- The type has an attribute of another that needs a config object. -/
def embeddingUnits : List SourceUnit :=
  configuredUnits
    [{ name := "Embedding", attributes := [{ name := "data", typeName := some "Data" }] }]

theorem build_unconfigured_sample :
    (∃ built, build extendingUnits = .ok built ∧ (built.model.record ⟨2⟩).configs = [] ∧
      (built.model.record ⟨2⟩).configDependent = true ∧ (built.model.record ⟨2⟩).attributes = [] ∧
      Inherits built.model ⟨2⟩ ⟨2⟩) ∧
    ∃ placed, Placed embeddingUnits placed ∧ LacksConfig (withDependence placed) ⟨2⟩ ⟨2⟩ ∧
      ∃ error, build embeddingUnits = .error (.schema error) := by
  constructor
  · have computed : ∃ built, build extendingUnits = .ok built ∧ 2 < built.model.records.size ∧
        (built.model.record ⟨2⟩).configs = [] ∧ (built.model.record ⟨2⟩).configDependent = true ∧
        ⟨2⟩ ∈ (built.model.record ⟨2⟩).methods ∧ (built.model.method ⟨2⟩).configDependent = true :=
      exists_built (by decide +kernel)
    obtain ⟨built, accepted, inside, bare, dependent, listed, flag⟩ := computed
    obtain ⟨_, size, methods, _⟩ := (build_unconfigured extendingUnits).1 built accepted ⟨2⟩ inside bare
    exact ⟨built, accepted, bare, dependent, (size.mp dependent).1, (methods ⟨2⟩ listed).mp flag⟩
  · have computed : ((Draft.ofUnits embeddingUnits).toOption.any fun draft =>
        (Resolution.resolveDeclarations draft).toOption.any fun resolved =>
          (order resolved.model).toOption.any fun ordered =>
            (ordered.foldlM placeRecord resolved.model).toOption.any fun placed =>
              decide (LacksConfig (withDependence placed) ⟨2⟩ ⟨2⟩)) = true := by
      decide +kernel
    simp only [Option.any_eq_true, toOption_eq_some, decide_eq_true_eq] at computed
    obtain ⟨draft, named, resolved, resolution, ordered, sorted, placed, placement, lacks⟩ := computed
    have reached : Placed embeddingUnits placed :=
      ⟨draft, resolved, ordered, named, resolution, sorted, placement⟩
    obtain ⟨id, attr, _, refused⟩ := (build_unconfigured embeddingUnits).2 placed reached ⟨_, _, lacks⟩
    exact ⟨placed, reached, lacks, _, refused⟩

/-- A type can depend on a config object without naming a config type: it inherits its size. -/
theorem build_not_configured : ∃ built, build extendingUnits = .ok built ∧
    ¬ ∀ id : RecordId, id.index < built.model.records.size →
      ((built.model.record id).configDependent = true ∨
        (∃ attr ∈ (built.model.record id).attributes,
          (built.model.attr attr).configDependent = true) ∨
        ∃ method ∈ (built.model.record id).methods,
          (built.model.method method).configDependent = true) →
      (built.model.record id).configs ≠ [] := by
  have computed : ∃ built, build extendingUnits = .ok built ∧ 2 < built.model.records.size ∧
      (built.model.record ⟨2⟩).configs = [] ∧ (built.model.record ⟨2⟩).configDependent = true :=
    exists_built (by decide +kernel)
  obtain ⟨built, accepted, inside, bare, dependent⟩ := computed
  exact ⟨built, accepted, fun all => all ⟨2⟩ inside (.inl dependent) bare⟩

end Layout

end RecordSchema
