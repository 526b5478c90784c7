import Mathlib.Logic.Function.Iterate
import RecordSchema.Proofs.Layout.Unconfigured
import RecordSchema.Proofs.Renaming.Placement

/-!
# Flags in two models

A round raises the same flags in two models that look alike. How many rounds there are may differ, but
once no flag is raised any more further rounds change nothing, so in the end both have the same flags.
-/

set_option autoImplicit false

namespace RecordSchema

open Model Outcome

namespace Layout

/-- Members belong to the type that lists them, attributes of a type differ in their names, and methods
read attributes of their own type. -/
structure ReadsOwn (model : Model) : Prop where
  attrOwner : ∀ id, ∀ attr ∈ (model.record id).attributes, (model.attr attr).owner = id
  methodOwner : ∀ id, ∀ method ∈ (model.record id).methods, (model.method method).owner = id
  reads : ∀ id, ∀ method ∈ (model.record id).methods, ∀ attr,
    model.readBy (model.method method).body = some attr → attr ∈ (model.record id).attributes
  distinct : ∀ id, (Resolution.attributeNames model id).Nodup

theorem ReadsOwn.of_agree {before after : Model} (own : ReadsOwn before)
    (agree : Agree .derived before after) : ReadsOwn after where
  attrOwner id attr listed := by
    rw [agree.recordField Record.attributes fun _ => rfl] at listed
    rw [agree.attrField Attribute.owner fun _ => rfl, own.attrOwner id attr listed]
  methodOwner id method listed := by
    rw [agree.recordField Record.methods fun _ => rfl] at listed
    rw [agree.methodField Method.owner fun _ => rfl, own.methodOwner id method listed]
  reads id method listed attr read := by
    rw [agree.recordField Record.methods fun _ => rfl] at listed
    rw [agree.methodField Method.body fun _ => rfl, agree.readBy] at read
    rw [agree.recordField Record.attributes fun _ => rfl]
    exact own.reads id method listed attr read
  distinct id := agree.attributeNames id ▸ own.distinct id

theorem ReadsOwn.of_resolved {draft : Draft} {model : Model}
    (resolved : Resolution.Resolved draft model)
    (distinct : ∀ id, (Resolution.attributeNames model id).Nodup) : ReadsOwn model where
  attrOwner _ _ listed := resolved.sound.toLinked.owner listed
  methodOwner id method listed := (resolved.sound.methods.mem_iff
    (resolved.sound.closed.recordMethods id method listed)).mp listed
  reads id method listed attr read := by
    have inside := resolved.sound.closed.recordMethods id method listed
    have owner := (resolved.sound.methods.mem_iff inside).mp listed
    have there := resolved.sound.closed.readBy inside attr read
    refine (resolved.sound.attributes.mem_iff there).mpr (.trans ?_ owner)
    unfold readBy at read
    split at read
    · rename_i body
      cases read
      exact resolved.sound.reader method inside attr body
    · rename_i body
      cases read
      exact (resolved.methods method).bitfield _ body
    · cases read
  distinct := distinct

section Round

variable {ρ : Renaming} {model model' : Model} (alike : Alike ρ model model')

include alike

private theorem memberDepends_alike (id : RecordId) (name : String) :
    memberDepends model' (ρ.record id) name = memberDepends model id name := by
  rw [memberDepends, memberDepends]
  have attributes := alike.sameMembers.findAttribute? id name
  have methods := alike.sameMembers.findMethod? id name
  generalize model.findAttribute? id name = attr, model'.findAttribute? (ρ.record id) name = attr',
    model.findMethod? id name = method, model'.findMethod? (ρ.record id) name = method'
    at attributes methods ⊢
  cases attributes with
  | some same => exact (congrArg Attribute.configDependent same.bare :)
  | none =>
    cases methods with
    | some same => exact (congrArg MethodView.configDependent same :)
    | none => rfl

private theorem exprDepends_alike (id : RecordId) (expr : Expr) :
    exprDepends model' (ρ.record id) (expr.rename ρ) = exprDepends model id expr := by
  rw [exprDepends, exprDepends, Expr.hasConfig_rename, Expr.members_rename,
    funext (memberDepends_alike alike id)]

private theorem any_exprDepends_alike (id : RecordId) (texts : List Expr) :
    (texts.map (Expr.rename ρ)).any (exprDepends model' (ρ.record id)) =
      texts.any (exprDepends model id) := by
  rw [List.any_map]
  congr 1
  exact funext (exprDepends_alike alike id)

private theorem attributeDepends_alike {id : RecordId} {attr attr' : Attribute}
    (bare : attr'.bare = attr.bare.rename ρ) (owner : attr.owner = id)
    (owner' : attr'.owner = ρ.record id) :
    attributeDepends model' attr' = attributeDepends model attr := by
  have type : attr'.type = attr.type.rename ρ := (congrArg Attribute.type bare :)
  have shape : attr'.shape = attr.shape.map (Dimension.rename ρ) := (congrArg Attribute.shape bare :)
  have offset : attr'.offset = attr.offset.rename ρ := (congrArg Attribute.offset bare :)
  have elementSize : attr'.elementSize = attr.elementSize.rename ρ :=
    (congrArg Attribute.elementSize bare :)
  have embeds : embedsDependent model' attr' = embedsDependent model attr := by
    rw [embedsDependent, embedsDependent, type]
    cases attr.type with
    | record target => exact congrArg RecordView.configDependent (alike.view target)
    | enumeration _ | builtin _ => rfl
  rw [attributeDepends, attributeDepends, owner, owner', embeds, shape, offset, elementSize,
    Dimension.counts_rename, any_exprDepends_alike alike, exprDepends_alike alike,
    exprDepends_alike alike]

omit alike in
theorem methodDepends_eq (model : Model) (method : Method) :
    methodDepends model method =
      match model.readBy method.body with
      | some attr => (model.attr attr).configDependent
      | none => method.body.texts.any (exprDepends model method.owner) := by
  unfold methodDepends readBy
  cases method.body <;> rfl

variable (own : ReadsOwn model) (own' : ReadsOwn model')

include own own'

private theorem attributeDepends_same {id : RecordId} {attr attr' : AttributeId}
    (listed : attr ∈ (model.record id).attributes)
    (listed' : attr' ∈ (model'.record (ρ.record id)).attributes)
    (same : SameAttribute ρ model model' attr attr') :
    attributeDepends model' (model'.attr attr') = attributeDepends model (model.attr attr) :=
  attributeDepends_alike alike same.bare (own.attrOwner id attr listed)
    (own'.attrOwner (ρ.record id) attr' listed')

private theorem methodDepends_same {id : RecordId} {method method' : MethodId}
    (listed : method ∈ (model.record id).methods)
    (listed' : method' ∈ (model'.record (ρ.record id)).methods)
    (same : SameMethod ρ model model' method method') :
    methodDepends model' (model'.method method') = methodDepends model (model.method method) := by
  have reads : (model'.readBy (model'.method method').body).map (fun attr => (model'.attr attr).name) =
      (model.readBy (model.method method).body).map fun attr => (model.attr attr).name :=
    congrArg MethodView.reads same
  have texts : (model'.method method').body.texts =
      (model.method method).body.texts.map (Expr.rename ρ) := congrArg MethodView.texts same
  rw [methodDepends_eq, methodDepends_eq, own.methodOwner id method listed,
    own'.methodOwner (ρ.record id) method' listed', texts, any_exprDepends_alike alike]
  cases read : model.readBy (model.method method).body with
  | none =>
    rw [read] at reads
    rw [Option.map_eq_none_iff.mp reads]
  | some attr =>
    rw [read] at reads
    obtain ⟨attr', read', name⟩ := Option.map_eq_some_iff.mp reads
    have pair := sameAttribute_of_name (alike.view id) (own'.distinct (ρ.record id))
      (own.reads id method listed attr read) (own'.reads _ method' listed' attr' read') name
    rw [read']
    exact (congrArg Attribute.configDependent pair.bare :)

/-- A round raises the same flags in both models. -/
theorem raiseFlags_alike : Alike ρ (raiseFlags model) (raiseFlags model') := by
  have agree : Agree .derived model (raiseFlags model) := (agree_raiseFlags model).ofFlags
  have agree' : Agree .derived model' (raiseFlags model') := (agree_raiseFlags model').ofFlags
  refine .of_inside (alike.toSameNames.retain agree.retains agree'.retains) fun id _ => ?_
  refine recordView_later (alike.view id) agree agree' ?_ ?_ ?_ ?_ ?_
  · intro attr listed attr' listed' same
    have flag : (model'.attr attr').configDependent = (model.attr attr).configDependent :=
      (congrArg Attribute.configDependent same.bare :)
    rw [attr_raiseFlags, attr_raiseFlags, flag,
      attributeDepends_same alike own own' listed listed' same]
    exact congrArg (fun shown : Attribute =>
      { shown with
        configDependent :=
          (model.attr attr).configDependent || attributeDepends model (model.attr attr) }) same.bare
  · intro method listed method' listed' same
    have flag : (model'.method method').configDependent = (model.method method).configDependent :=
      congrArg MethodView.configDependent same
    rw [method_raiseFlags, method_raiseFlags, flag,
      methodDepends_same alike own own' listed listed' same]
  · rw [record_raiseFlags, record_raiseFlags]
    exact congrArg RecordView.size (alike.view id)
  · rw [record_raiseFlags, record_raiseFlags]
    exact congrArg RecordView.align (alike.view id)
  · have flag : (model'.record (ρ.record id)).configDependent = (model.record id).configDependent :=
      congrArg RecordView.configDependent (alike.view id)
    have size : (model'.record (ρ.record id)).size = (model.record id).size.rename ρ :=
      congrArg RecordView.size (alike.view id)
    rw [record_raiseFlags, record_raiseFlags, flag, size, exprDepends_alike alike]

private theorem rounds_alike (count : Nat) :
    Alike ρ (raiseFlags^[count] model) (raiseFlags^[count] model') := by
  induction count generalizing model model' with
  | zero => exact alike
  | succ count ih =>
    exact ih (raiseFlags_alike alike own own') (own.of_agree (agree_raiseFlags model).ofFlags)
      (own'.of_agree (agree_raiseFlags model').ofFlags)

end Round

/-!
## All rounds
-/

/-- Arrays with the same elements are the same. -/
theorem eq_of_getD {α : Type} {items others : Array α} (fallback : α) (size : others.size = items.size)
    (same : ∀ index, others.getD index fallback = items.getD index fallback) : others = items := by
  refine Array.ext size fun index inside inside' => ?_
  simpa [Array.getD, inside, inside'] using same index

/-- Where no flag is to be raised, a round changes nothing. -/
theorem raiseFlags_settled {model : Model} (settled : Settled model) : raiseFlags model = model := by
  have kept : ∀ {flag depends : Bool}, (depends = true → flag = true) → (flag || depends) = flag := by
    intro flag depends implied
    cases flag <;> cases depends <;> simp_all
  have attributes : (raiseFlags model).attributes = model.attributes := by
    refine eq_of_getD default (Array.size_map ..) fun index => ?_
    change (raiseFlags model).attr ⟨index⟩ = model.attr ⟨index⟩
    rw [attr_raiseFlags, kept (settled.attr _)]
  have methods : (raiseFlags model).methods = model.methods := by
    refine eq_of_getD default (Array.size_map ..) fun index => ?_
    change (raiseFlags model).method ⟨index⟩ = model.method ⟨index⟩
    rw [method_raiseFlags, kept (settled.method _)]
  have records : (raiseFlags model).records = model.records := by
    refine eq_of_getD default (Array.size_mapIdx ..) fun index => ?_
    change (raiseFlags model).record ⟨index⟩ = model.record ⟨index⟩
    rw [record_raiseFlags, kept (settled.record _)]
  calc raiseFlags model
      = { model with
          attributes := (raiseFlags model).attributes
          methods := (raiseFlags model).methods
          records := (raiseFlags model).records } := rfl
    _ = model := by rw [attributes, methods, records]

private theorem raiseAll_eq (fuel : Nat) (model : Model) :
    ∃ count, raiseAll fuel model = raiseFlags^[count] model := by
  induction fuel generalizing model with
  | zero => exact ⟨0, rfl⟩
  | succ fuel ih =>
    rw [raiseAll]
    split
    · exact ⟨0, rfl⟩
    · obtain ⟨count, same⟩ := ih (raiseFlags model)
      exact ⟨count + 1, same⟩

/-- From some round on, all flags are raised. -/
theorem withDependence_eq (model : Model) :
    ∃ enough, ∀ count, enough ≤ count → withDependence model = raiseFlags^[count] model := by
  obtain ⟨enough, same⟩ : ∃ count, withDependence model = raiseFlags^[count] model := raiseAll_eq _ model
  refine ⟨enough, fun count more => ?_⟩
  obtain ⟨further, rfl⟩ := Nat.exists_eq_add_of_le' more
  have settled := withDependence_settled model
  rw [Function.iterate_add_apply, ← same, Function.iterate_fixed (raiseFlags_settled settled)]

theorem withDependence_alike {ρ : Renaming} {model model' : Model} (alike : Alike ρ model model')
    (own : ReadsOwn model) (own' : ReadsOwn model') :
    Alike ρ (withDependence model) (withDependence model') := by
  obtain ⟨enough, same⟩ := withDependence_eq model
  obtain ⟨enough', same'⟩ := withDependence_eq model'
  rw [same (max enough enough') (Nat.le_max_left ..), same' (max enough enough') (Nat.le_max_right ..)]
  exact rounds_alike alike own own' _

/-- A type that lacks a config type does so in both models. -/
theorem checkConfigs_alike {ρ : Renaming} {model model' : Model} (alike : Alike ρ model model')
    (accepted : checkConfigs model = .ok ()) : checkConfigs model' = .ok () := by
  have none : ∀ id attr, ¬ LacksConfig model id attr := by
    rcases checkConfigs_cases model with ⟨_, fine⟩ | ⟨_, _, _, refused⟩
    · exact fine
    · rw [refused] at accepted
      cases accepted
  rcases checkConfigs_cases model' with ⟨passed, _⟩ | ⟨id', attr', ⟨inside, bare, listed, flag⟩, _⟩
  · exact passed
  · obtain ⟨id, rfl⟩ := ρ.record.surjective id'
    have pairs := List.Forall₂.flip (R := fun attr' attr => SameAttribute ρ model model' attr attr')
      (alike.sameMembers.attributePairs id)
    obtain ⟨attr, held, same⟩ := exists_of_forall₂ pairs listed
    rw [alike.configs, List.map_eq_nil_iff] at bare
    rw [alike.records, alike.recordRange] at inside
    refine absurd ⟨inside, bare, held, ?_⟩ (none id attr)
    exact (congrArg Attribute.configDependent same.bare :).symm.trans flag

end Layout

end RecordSchema
