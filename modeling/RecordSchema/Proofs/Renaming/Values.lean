import RecordSchema.Proofs.Renaming.Headers
import RecordSchema.Proofs.Renaming.Scopes
import RecordSchema.Proofs.TwoRuns
import RecordSchema.Resolution.Methods

/-!
# Values in two models

Expressions, types, shapes and the places of bitfields are read alike in two models that have the same
outline. Paths differ at most in what a refusal says. The values of constants and enumerations are read
where they are declared, and nothing that is read in these passes is written by them. So both passes go
through in any order, with corresponding values.
-/

set_option autoImplicit false

namespace RecordSchema

open Model Outcome

/-- Expressions are read in corresponding places. -/
structure SameContext (ρ : Renaming) (context context' : Expr.Context) : Prop where
  owner : context'.owner = context.owner.map ρ.record
  config : context'.config = context.config.map ρ.record

section Parsing

variable {ρ : Renaming} {context context' : Expr.Context} (same : SameContext ρ context context')

include same

namespace Expr.Parser

private theorem meaning?_rename (member : String) (placeholder : Placeholder) :
    meaning? context' member placeholder =
      (meaning? context member placeholder).map (Operand.rename ρ) := by
  cases placeholder with
  | self => rfl
  | type =>
    simp only [meaning?, same.owner, Option.map_map]
    rfl
  | config =>
    simp only [meaning?, same.config, Option.map_map]
    rfl

private theorem operands_mirrored (source : String) (reversed input : List Char) :
    Mirrors (List.map (Operand.rename ρ)) (operands context source reversed input)
      (operands context' source reversed input) := by
  have pending : ∀ reversed : List Char,
      (pendingText reversed).map (Operand.rename ρ) = pendingText reversed := by
    intro reversed
    unfold pendingText
    split <;> rfl
  intro parts accepted
  refine ⟨_, ?_, rfl⟩
  fun_induction operands context source reversed input generalizing parts with
  | case1 reversed =>
    cases accepted
    rw [operands, pending]
  | case2 reversed rest noPlaceholder ih =>
    rw [operands_text (placeholder?_eq_none_iff.mp noPlaceholder)]
    exact ih parts accepted
  | case3 => cases accepted
  | case4 reversed rest placeholder tail member more read found ih =>
    obtain ⟨part, one, accepted⟩ := bind_ok accepted
    obtain ⟨others, later, accepted⟩ := bind_ok accepted
    cases accepted
    obtain ⟨split, some, letters, ends⟩ := memberName_eq_ok_iff.mp read
    have meaning := meaning?_rename same (String.ofList member) placeholder
    rw [operand_eq_ok_iff.mp one] at meaning
    rw [placeholder?_eq_some_iff.mp found, split, operands_reference meaning some letters ends,
      ih others later, List.map_append, pending]
    rfl
  | case5 reversed character rest noBrace ih =>
    rw [operands_text fun placeholder tail equal => noBrace ?_]
    · exact ih parts accepted
    · cases placeholder <;> exact (List.cons.inj equal).1

omit same in
private theorem ofOperands_rename (parts : List Operand) :
    ofOperands (parts.map (Operand.rename ρ)) = (ofOperands parts).rename ρ := by
  rcases parts with _ | ⟨_, _ | _⟩ <;> rfl

end Expr.Parser

theorem Expr.parse_mirrored (raw : String) :
    Mirrors (Expr.rename ρ) (Expr.parse context raw) (Expr.parse context' raw) := by
  simp only [Expr.parse]
  refine .ite Iff.rfl (fun _ => .error) fun _ => ?_
  split
  · exact .ok rfl
  · refine (Parser.operands_mirrored same _ _ _).map fun parts parts' read => ?_
    rw [read, Parser.ofOperands_rename]

namespace Resolution

private theorem resolveDimension_mirrored (position : Nat) (raw : String) :
    Mirrors (Dimension.rename ρ) (resolveDimension context position raw)
      (resolveDimension context' position raw) := by
  simp only [resolveDimension]
  refine .ite Iff.rfl (fun _ => .ite Iff.rfl (fun _ => .ok rfl) fun _ => .error) fun _ => ?_
  refine .ite Iff.rfl (fun _ => .error) fun _ => ?_
  refine (Expr.parse_mirrored same _).bind fun count count' _ _ read => ?_
  subst read
  cases count with
  | const size => exact .ite Iff.rfl (fun _ => .error) fun _ => .ok rfl
  | operand _ | concat _ | add _ _ | mul _ _ => exact .ok rfl

theorem resolveShape_mirrored (position : Nat) (raws : List String) :
    Mirrors (List.map (Dimension.rename ρ)) (resolveShape context position raws)
      (resolveShape context' position raws) := by
  induction raws generalizing position with
  | nil => exact .ok rfl
  | cons raw rest ih =>
    refine (resolveDimension_mirrored same position raw).bind fun dimension _ _ _ one => ?_
    refine (ih (position + 1)).bind fun dimensions _ _ _ others => ?_
    rw [one, others]
    exact .ok rfl

theorem parseBodies_mirrored (bodies : List (String × String)) :
    Mirrors (List.map fun body => (body.1, body.2.rename ρ)) (parseBodies context bodies)
      (parseBodies context' bodies) := by
  refine .mapM fun body _ => (Expr.parse_mirrored same body.2).map fun expr _ read => ?_
  rw [read]

end Resolution

end Parsing

namespace Resolution

theorem accessOf_mirrored (path path' : String) (keyword : Option String) :
    Mirrors id (accessOf path keyword) (accessOf path' keyword) := by
  cases keyword with
  | none => exact .ok rfl
  | some keyword =>
    simp only [accessOf]
    split
    · exact .ok rfl
    · exact .error

theorem placeBits_mirrored (path path' : String) (storage : Builtin) (placed : List PlacedBits)
    (declaration : Declaration.Bitfield) :
    Mirrors id (placeBits path storage placed declaration)
      (placeBits path' storage placed declaration) := by
  unfold placeBits
  dsimp only
  cases declaration.size with
  | none => exact .error
  | some size =>
    refine .ite Iff.rfl (fun _ => .error) fun _ => .ite Iff.rfl (fun _ => .error) fun _ => ?_
    split
    · exact .error
    · exact .ok rfl

end Resolution

/-!
## Values that correspond
-/

def Enumerator.rename (ρ : Renaming) (enumerator : Enumerator) : Enumerator :=
  { enumerator with value := enumerator.value.map (Expr.rename ρ) }

/-- Corresponding constants and enumerations have corresponding values. -/
structure SameValues (ρ : Renaming) (model model' : Model) : Prop where
  constant : ∀ id, id.index < model.constants.size →
    (model'.constant (ρ.constant id)).value = (model.constant id).value.rename ρ
  enumeration : ∀ id, id.index < model.enumerations.size →
    (model'.enumeration (ρ.enumeration id)).base = (model.enumeration id).base ∧
      (model'.enumeration (ρ.enumeration id)).constants =
        (model.enumeration id).constants.map (Enumerator.rename ρ)

/-- The values of models with the same constants and enumerations. -/
theorem SameValues.congr {ρ : Renaming} {model model' later later' : Model}
    (same : SameValues ρ model model') (enumerations : later.enumerations = model.enumerations)
    (constants : later.constants = model.constants)
    (enumerations' : later'.enumerations = model'.enumerations)
    (constants' : later'.constants = model'.constants) : SameValues ρ later later' where
  constant := by simpa only [Model.constant, constants, constants'] using same.constant
  enumeration := by simpa only [Model.enumeration, enumerations, enumerations'] using same.enumeration

/-- Models that are later look alike if they did and their record types show the same still. -/
theorem Alike.later {ρ : Renaming} {model model' later later' : Model} (alike : Alike ρ model model')
    (kept : Retains Record.named model later) (kept' : Retains Record.named model' later')
    (view : ∀ id, later.recordView id = model.recordView id)
    (view' : ∀ id, later'.recordView id = model'.recordView id) : Alike ρ later later' where
  toSameNames := alike.toSameNames.retain kept kept'
  view id := by rw [view', view, alike.view]

namespace Resolution

/-- Values are filled in, and record types show what they showed. -/
structure Valued (before after : Model) : Prop extends Step before after where
  shown : ∀ id, after.recordView id = before.recordView id

theorem Valued.alike {ρ : Renaming} {model model' later later' : Model} (alike : Alike ρ model model')
    (valued : Valued model later) (valued' : Valued model' later') : Alike ρ later later' :=
  alike.later valued.named valued'.named valued.shown valued'.shown

theorem Valued.trans {first middle last : Model} (before : Valued first middle)
    (after : Valued middle last) : Valued first last where
  toStep := before.toStep.trans after.toStep
  shown id := (after.shown id).trans (before.shown id)

private theorem scopeOwner_rename (ρ : Renaming) (scope : Scope) :
    scopeOwner (scope.rename ρ) = (scopeOwner scope).map ρ.record := by
  cases scope <;> rfl

/-!
## Constants
-/

private theorem resolveConstant_valued {model after : Model} (sound : model.Sound)
    {pending : Pending ConstantId Declaration.Constant}
    (inside : pending.id.index < model.constants.size)
    (accepted : resolveConstant model pending = .ok after) : Valued model after where
  toStep := resolveConstant_step sound inside accepted
  shown _ := by
    obtain ⟨value, rfl⟩ := resolveConstant_ok accepted
    rfl

private theorem resolveConstant_mirrored {ρ : Renaming} {model model' : Model}
    (same : SameNames ρ model model') {pending pending' : Pending ConstantId Declaration.Constant}
    (twin : Twin ρ.constant pending pending') (inside : pending.id.index < model.constants.size) :
    Follows (fun after after' => (after'.constant (ρ.constant pending.id)).value =
        (after.constant pending.id).value.rename ρ)
      (resolveConstant model pending) (resolveConstant model' pending') := by
  have inside' : (ρ.constant pending.id).index < model'.constants.size := by
    rw [same.constants]
    exact (same.constantRange _).mpr inside
  rw [resolveConstant, resolveConstant, twin.1, twin.2, same.constantScope _ inside]
  cases pending.declaration.value with
  | none => exact .error
  | some raw =>
    refine (Expr.parse_mirrored ⟨scopeOwner_rename ρ _, rfl⟩ raw).bind fun value _ _ _ read => ?_
    subst read
    refine .guarded (by rw [Expr.members_rename]) fun _ => .ok ?_
    rw [constant_modifyConstant, constant_modifyConstant, if_pos ⟨rfl, inside'⟩, if_pos ⟨rfl, inside⟩]

/-- A constant fills in its own value. -/
theorem resolveConstant_local {draft : Draft} {headed : Model} (headers : Headed draft headed)
    (distinct : (draft.constants.toList.map (·.id)).Nodup) :
    Local resolveConstant draft.constants.toList (·.id)
      (fun id (model : Model) => (model.constant id).value) (Valued headed) where
  distinct := distinct
  keeps pending listed state after good taken :=
    good.trans (resolveConstant_valued good.sound
      (good.constants.symm ▸ headers.constants pending listed) taken)
  others pending _ state after _ taken other different := by
    obtain ⟨value, rfl⟩ := resolveConstant_ok taken
    rw [constant_modifyConstant, if_neg fun both => different both.1.symm]

/-!
## Enumerations
-/

private theorem resolveEnumeration_valued {model after : Model} (sound : model.Sound)
    {pending : Pending EnumId Declaration.Enumeration}
    (inside : pending.id.index < model.enumerations.size)
    (accepted : resolveEnumeration model pending = .ok after) : Valued model after where
  toStep := resolveEnumeration_step sound inside accepted
  shown _ := by
    obtain ⟨base, constants, rfl⟩ := resolveEnumeration_ok accepted
    rfl

private theorem enumerationBase_mirrored {ρ : Renaming} {model model' : Model}
    (alike : Alike ρ model model')
    {scope : Scope} (inside : ∀ record, scope = .record record → record.index < model.records.size)
    (path path' : String) (name : Option String) :
    Mirrors id (enumerationBase model scope path name)
      (enumerationBase model' (scope.rename ρ) path' name) := by
  have starts : alike.Starts scope := by
    cases scope with
    | package _ => trivial
    | record id => exact ⟨inside id rfl, alike.sameMembers.lineage id⟩
  cases name with
  | none => exact .ok rfl
  | some name =>
    rw [enumerationBase, enumerationBase, alike.lookup? scope starts]
    rcases model.lookup? scope name with _ | _ | type
    · exact .error
    · exact .error
    · exact .ite Iff.rfl (fun _ => .ok rfl) fun _ => .error

private theorem addEnumerator_mirrored {ρ : Renaming} {owner : Option RecordId} (path path' : String)
    (before : List Enumerator) (declaration : Declaration.Constant) :
    Mirrors (List.map (Enumerator.rename ρ)) (addEnumerator owner path before declaration)
      (addEnumerator (owner.map ρ.record) path' (before.map (Enumerator.rename ρ)) declaration) := by
  have values : Mirrors (Option.map (Expr.rename ρ))
      (declaration.value.mapM (Expr.parse ⟨owner, none, path ++ "." ++ declaration.name⟩))
      (declaration.value.mapM
        (Expr.parse ⟨owner.map ρ.record, none, path' ++ "." ++ declaration.name⟩)) :=
    .optionMapM fun raw _ => Expr.parse_mirrored ⟨rfl, rfl⟩ raw
  refine .guarded rfl fun _ => .guarded ?_ fun _ => values.bind fun value _ _ _ read => .ok ?_
  · rw [List.any_map]
    rfl
  · rw [List.map_append, read]
    rfl

private theorem resolveEnumeration_mirrored {ρ : Renaming} {model model' : Model}
    (alike : Alike ρ model model') {pending pending' : Pending EnumId Declaration.Enumeration}
    (twin : Twin ρ.enumeration pending pending')
    (inside : pending.id.index < model.enumerations.size) :
    Follows (fun after after' =>
        (after'.enumeration (ρ.enumeration pending.id)).base = (after.enumeration pending.id).base ∧
          (after'.enumeration (ρ.enumeration pending.id)).constants =
            (after.enumeration pending.id).constants.map (Enumerator.rename ρ))
      (resolveEnumeration model pending) (resolveEnumeration model' pending') := by
  have inside' : (ρ.enumeration pending.id).index < model'.enumerations.size := by
    rw [alike.enumerations]
    exact (alike.enumerationRange _).mpr inside
  rw [resolveEnumeration, resolveEnumeration, twin.1, twin.2, alike.enumerationScope _ inside]
  refine (enumerationBase_mirrored alike
    (fun record scope => alike.enumerationOwner _ record inside scope) _ _ _).bind
      fun base _ _ _ based => ?_
  have constants : Mirrors (List.map (Enumerator.rename ρ))
      (pending.declaration.constants.foldlM
        (addEnumerator (scopeOwner (model.enumeration pending.id).scope) pending.path) [])
      (pending.declaration.constants.foldlM
        (addEnumerator (scopeOwner ((model.enumeration pending.id).scope.rename ρ)) pending'.path)
        []) := by
    refine .foldlM (fun before before' declaration _ same => ?_) rfl
    rw [same, scopeOwner_rename]
    exact addEnumerator_mirrored pending.path pending'.path before declaration
  refine constants.bind fun constants _ _ _ valued => .ok ?_
  rw [enumeration_modifyEnumeration, enumeration_modifyEnumeration, if_pos ⟨rfl, inside'⟩,
    if_pos ⟨rfl, inside⟩]
  exact ⟨based, valued⟩

/-- An enumeration fills in its own values. -/
theorem resolveEnumeration_local {draft : Draft} {headed start : Model} (headers : Headed draft headed)
    (distinct : (draft.enumerations.toList.map (·.id)).Nodup) :
    Local resolveEnumeration draft.enumerations.toList (·.id)
      (fun id (model : Model) => ((model.enumeration id).base, (model.enumeration id).constants))
      (fun state => Valued headed state ∧ state.constants = start.constants) where
  distinct := distinct
  keeps pending listed state after good taken := by
    refine ⟨good.1.trans (resolveEnumeration_valued good.1.sound
      (good.1.enumerations.symm ▸ headers.enumerations pending listed) taken), ?_⟩
    obtain ⟨base, constants, rfl⟩ := resolveEnumeration_ok taken
    exact good.2
  others pending _ state after _ taken other different := by
    obtain ⟨base, constants, rfl⟩ := resolveEnumeration_ok taken
    rw [enumeration_modifyEnumeration, if_neg fun both => different both.1.symm]

/-!
## Both passes
-/

section Passes

variable {ρ : Renaming} {draft draft' : Draft} (drafts : SameDrafts ρ draft draft')
  {headed headed' : Model} (headers : Headed draft headed) (headers' : Headed draft' headed')
  (alike : Alike ρ headed headed')

include drafts headers headers' alike

private theorem constants_alike {later : Model}
    (accepted : draft.constants.toList.foldlM resolveConstant headed = .ok later) :
    ∃ later', draft'.constants.toList.foldlM resolveConstant headed' = .ok later' ∧
      Valued headed later ∧ Valued headed' later' ∧
      ∀ id, id.index < draft.model.constants.size →
        (later'.constant (ρ.constant id)).value = (later.constant id).value.rename ρ :=
  drafts.constants.pass (Expr.rename ρ) (resolveConstant_local headers drafts.constants.distinct)
    (resolveConstant_local headers' drafts.constants.distinct')
    ⟨.refl headers.sound, fun _ => rfl⟩ ⟨.refl headers'.sound, fun _ => rfl⟩ accepted
    fun pending listed _ _ twin _ _ good good' _ _ =>
      resolveConstant_mirrored (good.alike alike good').toSameNames twin
        (good.constants.symm ▸ headers.constants pending listed)

/-- Values that are accepted in one order are accepted in any. -/
theorem values_alike {withConstants withEnumerations : Model}
    (constants : draft.constants.toList.foldlM resolveConstant headed = .ok withConstants)
    (enumerations :
      draft.enumerations.toList.foldlM resolveEnumeration withConstants = .ok withEnumerations) :
    ∃ withConstants' withEnumerations',
      draft'.constants.toList.foldlM resolveConstant headed' = .ok withConstants' ∧
      draft'.enumerations.toList.foldlM resolveEnumeration withConstants' = .ok withEnumerations' ∧
      Valued headed withEnumerations ∧ Valued headed' withEnumerations' ∧
      SameValues ρ withEnumerations withEnumerations' := by
  obtain ⟨withConstants', constants', valued, valued', values⟩ :=
    constants_alike drafts headers headers' alike constants
  obtain ⟨withEnumerations', enumerations', ⟨last, same⟩, ⟨last', same'⟩, bases⟩ :=
    drafts.enumerations.pass (fun shown => (shown.1, shown.2.map (Enumerator.rename ρ)))
      (resolveEnumeration_local headers drafts.enumerations.distinct)
      (resolveEnumeration_local headers' drafts.enumerations.distinct')
      ⟨valued, rfl⟩ ⟨valued', rfl⟩ enumerations <| by
        intro pending listed pending' _ twin state state' good good' _ _
        refine (resolveEnumeration_mirrored (good.1.alike alike good'.1) twin
          (good.1.enumerations.symm ▸ headers.enumerations pending listed)).imp ?_
        exact fun _ _ _ both => Prod.ext both.1 both.2
  refine ⟨withConstants', withEnumerations', constants', enumerations', last, last', ?_, ?_⟩
  · intro id inside
    rw [last.constants, headers.named.constants] at inside
    simp only [Model.constant, same, same']
    exact values id inside
  · intro id inside
    rw [last.enumerations, headers.named.enumerations] at inside
    exact Prod.mk.inj (bases id inside)

end Passes

end Resolution

end RecordSchema
