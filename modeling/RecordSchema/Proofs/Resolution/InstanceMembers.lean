import RecordSchema.Proofs.Inclusion
import RecordSchema.Proofs.Model.Inheritance
import RecordSchema.Proofs.Renaming.OwnMembers

/-!
# Instance members

An expression of a record type may name members of the instance at hand. In a built model these are
there, in the type or in one of its bases, wherever the expression stands but in the value of an
enumerator, which nobody checks.
-/

set_option autoImplicit false

namespace RecordSchema

open Model Outcome

namespace Model

/-- A type has a member of a name, or one of its bases has. -/
def Knows (model : Model) (id : RecordId) (name : String) : Prop :=
  ∃ holder ∈ model.lineage id, name ∈ model.ownNames holder

/-- All members that an expression names are known to the type that it belongs to. -/
def Understands (model : Model) (owner : Option RecordId) (expr : Expr) : Prop :=
  ∀ name ∈ expr.members, ∃ id, owner = some id ∧ model.Knows id name

/-- Where expressions stand, other than in enumerators, and the type that they belong to. -/
inductive Written (model : Model) : Option RecordId → Expr → Prop where
  | count {id : RecordId} {attr : AttributeId} {count : Expr} :
      attr ∈ (model.record id).attributes → .bounded count ∈ (model.attr attr).shape →
      Written model (some id) count
  | declaredOffset {id : RecordId} {attr : AttributeId} {offset : Expr} :
      attr ∈ (model.record id).attributes → (model.attr attr).declaredOffset = some offset →
      Written model (some id) offset
  | offset {id : RecordId} {attr : AttributeId} : attr ∈ (model.record id).attributes →
      Written model (some id) (model.attr attr).offset
  | elementSize {id : RecordId} {attr : AttributeId} : attr ∈ (model.record id).attributes →
      Written model (some id) (model.attr attr).elementSize
  | size {id : RecordId} : id.index < model.records.size →
      Written model (some id) (model.record id).size
  | body {id : RecordId} {method : MethodId} {text : Expr} :
      method ∈ (model.record id).methods → text ∈ (model.method method).body.texts →
      Written model (some id) text
  | argument {id : RecordId} {constructor : Constructor} {argument : ConstructorArgument}
      {text : Expr} : constructor ∈ (model.record id).constructors →
      argument ∈ constructor.arguments → argument.expression = some text →
      Written model (some id) text
  | initializer {id : RecordId} {constructor : Constructor} {assigned : Initializer} :
      constructor ∈ (model.record id).constructors → assigned ∈ constructor.initializers →
      Written model (some id) assigned.expression
  | constant (id : ConstantId) :
      Written model (Resolution.scopeOwner (model.constant id).scope) (model.constant id).value

/-- The values of enumerators, and the type that they belong to. -/
def Enumerated (model : Model) (owner : Option RecordId) (expr : Expr) : Prop :=
  ∃ id : EnumId, owner = Resolution.scopeOwner (model.enumeration id).scope ∧
    ∃ entry ∈ (model.enumeration id).constants, entry.value = some expr

end Model

namespace Resolution

private theorem hasMember_iff {model : Model} {id : RecordId} {name : String} :
    hasMember model id name = true ↔ model.Knows id name := by
  simp only [hasMember, findAttribute?, findMethod?, Bool.or_eq_true, List.findSome?_isSome_iff,
    List.find?_isSome, beq_iff_eq, Knows, ownNames, List.mem_append, List.mem_map]
  constructor
  · rintro (⟨holder, on, found⟩ | ⟨holder, on, found⟩)
    · exact ⟨holder, on, .inl found⟩
    · exact ⟨holder, on, .inr found⟩
  · rintro ⟨holder, on, attr | method⟩
    · exact .inl ⟨holder, on, attr⟩
    · exact .inr ⟨holder, on, method⟩

/-- The check of instance members refuses the first that is not known. -/
theorem checkMembers_cases (model : Model) :
    (checkMembers model = .ok () ∧ ∀ id : RecordId, id.index < model.records.size →
      ∀ path text, (path, text) ∈ recordTexts model id → model.Understands (some id) text) ∨
    ∃ (id : RecordId) (path : String) (text : Expr) (name : String),
      (path, text) ∈ recordTexts model id ∧ name ∈ text.members ∧ ¬ model.Knows id name ∧
        checkMembers model = .error (.unresolvedReference path name) := by
  rcases forM_cases model.recordIds _ with ⟨passed, each⟩ | ⟨id, _, error, failed, whole⟩
  · refine .inl ⟨passed, fun id inside path text written name named => ⟨id, rfl, ?_⟩⟩
    have known := forM_ok (forM_ok (each id (Layout.mem_recordIds.mpr inside)) _ written) _ named
    rw [← hasMember_iff]
    by_contra unknown
    rw [if_neg unknown] at known
    cases known
  · refine .inr ?_
    rcases forM_cases (recordTexts model id) _ with
      ⟨passed, _⟩ | ⟨⟨path, text⟩, written, _, refused, same⟩
    · cases passed.symm.trans failed
    cases same.symm.trans failed
    rcases forM_cases text.members _ with ⟨passed, _⟩ | ⟨name, named, _, unknown, same⟩
    · cases passed.symm.trans refused
    cases same.symm.trans refused
    split at unknown
    · cases unknown
    · rename_i unheld
      cases unknown
      exact ⟨id, path, text, name, written, named, fun known => unheld (hasMember_iff.mpr known), whole⟩

/-- Resolution of all declarations, without the check of instance members that ends it. -/
def readDeclarations (draft : Draft) : Except SchemaError Built := do
  let records := draft.records.toList
  let withHeaders ← records.foldlM resolveHeader draft.model
  checkIdentities withHeaders
  checkInheritance withHeaders
  let withConstants ← draft.constants.toList.foldlM resolveConstant withHeaders
  let withEnumerations ← draft.enumerations.toList.foldlM resolveEnumeration withConstants
  let withAttributes ← records.foldlM resolveAttributes withEnumerations
  let withMethods ← records.foldlM resolveMethods withAttributes
  let (model, warnings) ← records.foldlM resolveConstructors (withMethods, [])
  .ok ⟨model, warnings⟩

private theorem resolveDeclarations_eq (draft : Draft) :
    resolveDeclarations draft =
      readDeclarations draft >>= fun built => checkMembers built.model >>= fun _ => .ok built := by
  simp only [resolveDeclarations, readDeclarations, bind_assoc]
  rfl

/-!
## Constants
-/

private theorem members_of_outside {model : Model} {id : ConstantId}
    (outside : ¬ id.index < model.constants.size) : (model.constant id).value.members = [] := by
  simp [Model.constant, Array.getD, outside]
  rfl

private theorem resolveConstant_value {model after : Model}
    {pending : Pending ConstantId Declaration.Constant}
    (accepted : resolveConstant model pending = .ok after) :
    ∃ raw value, pending.declaration.value = some raw ∧
      Expr.parse ⟨scopeOwner (model.constant pending.id).scope, none, pending.path⟩ raw = .ok value ∧
      value.members = [] ∧
      after = model.modifyConstant pending.id fun constant => { constant with value } := by
  simp only [resolveConstant] at accepted
  split at accepted
  · rename_i raw given
    obtain ⟨value, parsed, accepted⟩ := bind_ok accepted
    simp only [bind, Except.bind] at accepted
    split at accepted
    · cases accepted
    · rename_i named
      cases accepted
      exact ⟨raw, value, given, parsed, by simpa using named, rfl⟩
  · cases accepted

def SameConstants (before after : Model) : Prop :=
  after.constants = before.constants

namespace Passes

variable {draft : Draft} {built : Built} (passes : Passes draft built)

/-- Every constant has a value that names no member, parsed for the place where the constant stands. -/
theorem constant_values : ∀ pending ∈ draft.constants.toList,
    (∃ raw value, pending.declaration.value = some raw ∧
      Expr.parse ⟨scopeOwner (passes.headed.constant pending.id).scope, none, pending.path⟩ raw =
        .ok value ∧ value.members = []) ∧
      (passes.withConstants.constant pending.id).value.members = [] := by
  refine (foldlM_invariant passes.constants (fun seen state =>
    (∀ id, (state.constant id).scope = (passes.headed.constant id).scope) ∧
      ∀ pending ∈ seen, (∃ raw value, pending.declaration.value = some raw ∧
        Expr.parse ⟨scopeOwner (passes.headed.constant pending.id).scope, none, pending.path⟩ raw =
          .ok value ∧ value.members = []) ∧ (state.constant pending.id).value.members = [])
    ⟨fun _ => rfl, by simp⟩ ?_).2
  rintro seen pending rest state after - ⟨scope, values⟩ taken
  obtain ⟨raw, value, given, parsed, silent, rfl⟩ := resolveConstant_value taken
  refine ⟨fun id => ?_, List.forall_mem_append.mpr ⟨fun other old => ?_, ?_⟩⟩
  · rw [constant_modifyConstant]
    split <;> exact scope id
  · obtain ⟨read, before⟩ := values other old
    refine ⟨read, ?_⟩
    rw [constant_modifyConstant]
    split
    · exact silent
    · exact before
  · rw [List.forall_mem_singleton]
    refine ⟨⟨raw, value, given, scope pending.id ▸ parsed, silent⟩, ?_⟩
    rw [constant_modifyConstant]
    split
    · exact silent
    · rename_i outside
      exact members_of_outside fun inside => outside ⟨rfl, inside⟩

private theorem constants_kept (consistent : draft.Consistent) :
    SameConstants passes.withConstants built.model := by
  have enumerations : SameConstants passes.withConstants passes.withEnumerations :=
    foldlM_preserves passes.enumerations (SameConstants passes.withConstants) rfl
      fun _ _ _ _ same taken => by
        obtain ⟨_, _, rfl⟩ := resolveEnumeration_ok taken
        exact same
  have attributes : SameConstants passes.withConstants passes.withAttributes :=
    passes.attributes_preserve consistent enumerations fun sound inside same added =>
      (addAttribute_fills sound inside added).1.sameConstants.trans same
  have methods : SameConstants passes.withConstants passes.withMethods :=
    passes.methods_preserve consistent attributes fun sound inside same added =>
      (addDeclaredMethod_fills sound inside added).1.sameConstants.trans same
  refine foldlM_preserves passes.constructors
    (fun state => SameConstants passes.withConstants state.1) methods ?_
  rintro pending - ⟨state, before⟩ ⟨after, remarks⟩ same taken
  obtain ⟨_, _, taken⟩ := bind_ok taken
  cases taken
  exact same

end Passes

/-- The expressions written in a declaration of a type, whatever the path shown for them. -/
theorem mem_recordTexts {model : Model} {id : RecordId} {text : Expr} :
    (∃ path, (path, text) ∈ recordTexts model id) ↔
      (∃ attr ∈ (model.record id).attributes, text ∈ attributeTexts (model.attr attr)) ∨
      (∃ method ∈ (model.record id).methods, text ∈ (model.method method).body.texts) ∨
      ∃ constructor ∈ (model.record id).constructors, text ∈ constructorTexts constructor := by
  simp only [recordTexts, List.mem_append, List.mem_flatMap, List.mem_map, Prod.mk.injEq]
  constructor
  · rintro ⟨path, (⟨attr, listed, _, written, -, rfl⟩ | ⟨method, listed, _, written, -, rfl⟩) |
      ⟨constructor, listed, _, written, -, rfl⟩⟩
    · exact .inl ⟨attr, listed, written⟩
    · exact .inr (.inl ⟨method, listed, written⟩)
    · exact .inr (.inr ⟨constructor, listed, written⟩)
  · rintro (⟨attr, listed, written⟩ | ⟨method, listed, written⟩ | ⟨constructor, listed, written⟩)
    · exact ⟨_, .inl (.inl ⟨attr, listed, text, written, rfl, rfl⟩)⟩
    · exact ⟨_, .inl (.inr ⟨method, listed, text, written, rfl, rfl⟩)⟩
    · exact ⟨_, .inr ⟨constructor, listed, text, written, rfl, rfl⟩⟩

end Resolution

/-!
## Layout
-/

namespace Layout

section Places

variable {model : Model} {owner : RecordId}

private theorem understands_of_operands {parts : List Operand} {expr : Expr}
    (within : expr.operands ⊆ parts) (each : ∀ name, .member name ∈ parts → model.Knows owner name) :
    model.Understands (some owner) expr :=
  fun name named => ⟨owner, rfl, each name (within (Expr.mem_members.mp named))⟩

private theorem Understands.knows {expr : Expr} (understands : model.Understands (some owner) expr)
    {name : String} (mentioned : .member name ∈ expr.operands) : model.Knows owner name := by
  obtain ⟨id, same, known⟩ := understands name (Expr.mem_members.mpr mentioned)
  cases same
  exact known

private theorem understands_const (value : Int) : model.Understands (some owner) (.const value) :=
  fun _ named => nomatch named

private theorem understands_append {left right result : Expr}
    (within : result.operands ⊆ left.operands ++ right.operands)
    (first : model.Understands (some owner) left) (second : model.Understands (some owner) right) :
    model.Understands (some owner) result :=
  understands_of_operands within fun _ mentioned =>
    (List.mem_append.mp mentioned).elim (Understands.knows first) (Understands.knows second)

private theorem understands_elementLayout {attr : Attribute} {accessor : MethodId}
    (read : attr.accessor = some accessor)
    (known : model.Knows owner (model.method accessor).name) :
    model.Understands (some owner) (elementLayout model attr).1 := by
  unfold elementLayout
  split
  · exact understands_const _
  · exact understands_const _
  · dsimp only
    split
    · rename_i constant
      obtain ⟨value, same⟩ := Option.isSome_iff_exists.mp constant
      rw [Expr.constant?_eq_some_iff.mp same]
      exact understands_const value
    · refine understands_of_operands (List.Subset.refl _) fun name mentioned => ?_
      simp only [dynamicSize, read, Option.map_some, Option.getD_some, Expr.operands, List.mem_cons,
        Operand.member.injEq, reduceCtorEq, List.not_mem_nil, or_self, or_false] at mentioned
      exact mentioned ▸ known

private theorem understands_offsetAfter {pack : Option UInt32} {alignment : Nat} {attr : Attribute}
    {stop offset : Expr} (placed : offsetAfter pack alignment attr stop = some offset)
    (declared : ∀ text ∈ attr.declaredOffset, model.Understands (some owner) text)
    (before : model.Understands (some owner) stop) : model.Understands (some owner) offset := by
  unfold offsetAfter at placed
  split at placed
  · rename_i text found
    cases placed
    exact declared _ found
  · split at placed
    · obtain ⟨value, _, rfl⟩ := Option.map_eq_some_iff.mp placed
      exact understands_const value
    · cases placed
      exact before

private theorem understands_stopAfter {attr : Attribute} {stop : Expr} (ended : stopAfter attr = some stop)
    (offset : model.Understands (some owner) attr.offset)
    (elementSize : model.Understands (some owner) attr.elementSize)
    (counts : ∀ count, .bounded count ∈ attr.shape → model.Understands (some owner) count) :
    model.Understands (some owner) stop := by
  unfold stopAfter at ended
  split at ended
  · cases ended
    exact offset
  · obtain ⟨count, counted, ended⟩ := Option.bind_eq_some_iff.mp ended
    obtain ⟨extent, multiplied, ended⟩ := Option.bind_eq_some_iff.mp ended
    have factors : model.Understands (some owner) count := by
      refine understands_of_operands (Expr.operands_foldlM_product counted) fun name mentioned => ?_
      simp only [Expr.operands, List.nil_append, List.mem_flatMap, List.mem_filterMap] at mentioned
      obtain ⟨factor, ⟨dimension, held, bound⟩, mentioned⟩ := mentioned
      cases dimension with
      | unbounded => cases bound
      | bounded other =>
        cases bound
        exact Understands.knows (counts _ held) mentioned
    exact understands_append (Expr.operands_sum ended) offset
      (understands_append (Expr.operands_product multiplied) elementSize factors)

/-- Where all that is written names members that are known, so does all that placement writes. -/
theorem PlacesAll.understands {pack : Option UInt32} {cursor final : Cursor}
    {ids : List AttributeId} (places : PlacesAll model pack cursor ids final)
    (start : model.Understands (some owner) cursor.stop)
    (texts : ∀ id ∈ ids, ∀ text ∈ Resolution.attributeTexts (model.attr id),
      model.Understands (some owner) text)
    (accessors : ∀ id ∈ ids, ∃ accessor, (model.attr id).accessor = some accessor ∧
      model.Knows owner (model.method accessor).name) :
    (∀ id ∈ ids, model.Understands (some owner) (model.attr id).offset ∧
      model.Understands (some owner) (model.attr id).elementSize) ∧
      model.Understands (some owner) final.stop := by
  induction places with
  | nil => exact ⟨by simp, start⟩
  | @cons cursor next final id rest first _ ih =>
    obtain ⟨written, others⟩ := List.forall_mem_cons.mp texts
    obtain ⟨⟨accessor, read, known⟩, remaining⟩ := List.forall_mem_cons.mp accessors
    have offset : model.Understands (some owner) (model.attr id).offset :=
      understands_offsetAfter first.offset (fun text declared => written text
        (List.mem_append_right _ (Option.mem_toList.mpr declared))) start
    have elementSize : model.Understands (some owner) (model.attr id).elementSize :=
      first.elementSize ▸ understands_elementLayout read known
    have stop : model.Understands (some owner) next.stop :=
      understands_stopAfter first.stop offset elementSize fun count bound => written count
        (List.mem_append_left _ (List.mem_filterMap.mpr ⟨_, bound, rfl⟩))
    obtain ⟨placed, ended⟩ := ih stop others remaining
    exact ⟨List.forall_mem_cons.mpr ⟨⟨offset, elementSize⟩, placed⟩, ended⟩

end Places

end Layout

/-!
## Built models
-/

private theorem Model.Agree.knows {before after : Model} (agree : Agree .derived before after)
    {id : RecordId} {name : String} : after.Knows id name ↔ before.Knows id name := by
  have attributes := agree.recordField Record.attributes fun _ => rfl
  have methods := agree.recordField Record.methods fun _ => rfl
  have attrName := agree.attrField Attribute.name fun _ => rfl
  have methodName := agree.methodField Method.name fun _ => rfl
  simp only [Knows, ownNames, agree.lineage, attributes, methods, attrName, methodName]

theorem Model.Agree.recordTexts {before after : Model} (agree : Agree .derived before after)
    {id : RecordId} {text : Expr} :
    (∃ path, (path, text) ∈ Resolution.recordTexts after id) ↔
      ∃ path, (path, text) ∈ Resolution.recordTexts before id := by
  have attributes := agree.recordField Record.attributes fun _ => rfl
  have methods := agree.recordField Record.methods fun _ => rfl
  have constructors := agree.recordField Record.constructors fun _ => rfl
  have shape := agree.attrField Attribute.shape fun _ => rfl
  have offset := agree.attrField Attribute.declaredOffset fun _ => rfl
  have body := agree.methodField Method.body fun _ => rfl
  simp only [Resolution.mem_recordTexts, Resolution.attributeTexts, attributes, methods, constructors,
    shape, offset, body]

private theorem Model.Intact.knows_own {model : Model} (intact : model.Intact) {id : RecordId}
    (inside : id.index < model.records.size) {name : String} (own : name ∈ model.ownNames id) :
    model.Knows id name :=
  ⟨id, intact.mem_lineage_self inside, own⟩

private theorem Model.Intact.understands_of_base {model : Model} (intact : model.Intact)
    {id base : RecordId}
    (inside : id.index < model.records.size) (extended : (model.record id).base = some base)
    {expr : Expr} (inherited : model.Understands (some base) expr) :
    model.Understands (some id) expr := by
  intro name named
  obtain ⟨_, same, holder, on, own⟩ := inherited name named
  cases same
  exact ⟨id, rfl, holder, intact.lineage_of_base inside extended ▸ List.mem_cons_of_mem _ on, own⟩

namespace Stages

variable {units : List SourceUnit} {built : Built} (stages : Stages units built) {id : RecordId}

include stages

private theorem understands_text (inside : id.index < built.model.records.size) {path : String}
    {text : Expr} (written : (path, text) ∈ Resolution.recordTexts built.model id) :
    built.model.Understands (some id) text := by
  obtain ⟨passes⟩ := Resolution.resolveDeclarations_passes stages.resolution
  have agree := stages.agree_derived
  obtain ⟨other, listed⟩ := agree.recordTexts.mp ⟨path, written⟩
  rcases Resolution.checkMembers_cases stages.resolved with
    ⟨_, understands⟩ | ⟨_, _, _, _, _, _, _, refused⟩
  · intro name named
    obtain ⟨owner, same, known⟩ := understands id (agree.recordCount ▸ inside) other text listed name named
    exact ⟨owner, same, agree.knows.mpr known⟩
  · cases passes.members.symm.trans refused

private theorem understands_attributes (inside : id.index < built.model.records.size)
    (start : built.model.Understands (some id)
      (Layout.initialCursor built.model (built.model.record id)).stop) :
    (∀ attr ∈ (built.model.record id).attributes,
      built.model.Understands (some id) (built.model.attr attr).offset ∧
        built.model.Understands (some id) (built.model.attr attr).elementSize) ∧
      built.model.Understands (some id) (built.model.record id).size := by
  obtain ⟨final, places, size, _⟩ := stages.laidOut inside
  have sound := stages.sound
  have intact := sound.intact fun _ inside => stages.basesEnd inside
  rw [size]
  refine places.understands start (fun attr listed text written => ?_) fun attr listed => ?_
  · obtain ⟨path, held⟩ := Resolution.mem_recordTexts.mpr (.inl ⟨attr, listed, written⟩)
    exact stages.understands_text inside held
  · obtain ⟨accessor, read, _, owner⟩ :=
      sound.accessor attr (sound.closed.recordAttributes id attr listed)
    have held : accessor ∈ (built.model.record id).methods := by
      have inRange := (sound.closed.attr (sound.closed.recordAttributes id attr listed)).accessor
      exact (sound.methods.mem_iff (inRange accessor read)).mpr
        (owner.trans (sound.toLinked.owner listed))
    exact ⟨accessor, read, intact.knows_own inside
      (List.mem_append_right _ (List.mem_map_of_mem held))⟩

private theorem understands_start (inside : id.index < built.model.records.size) :
    built.model.Understands (some id)
      (Layout.initialCursor built.model (built.model.record id)).stop := by
  have intact := stages.sound.intact fun _ inside => stages.basesEnd inside
  refine intact.base_induction (motive := fun id => built.model.Understands (some id)
    (Layout.initialCursor built.model (built.model.record id)).stop) ?_ ?_ inside
  · intro id inside root
    rw [Layout.initialCursor, root]
    exact Layout.understands_const 0
  · intro id base inside extended start
    rw [Layout.initialCursor, extended]
    have size := (stages.understands_attributes (intact.inRange_of_base extended) start).2
    exact intact.understands_of_base inside extended size

private theorem understands_constant (id : ConstantId) : (built.model.constant id).value.members = [] := by
  obtain ⟨passes⟩ := Resolution.resolveDeclarations_passes stages.resolution
  have consistent := Draft.ofUnits_consistent stages.named
  have same : built.model.constant id = passes.withConstants.constant id := by
    simp only [Model.constant, stages.agree_derived.constants]
    rw [passes.constants_kept consistent]
  by_cases inside : id.index < stages.draft.model.constants.size
  · have listed : id.index ∈ stages.draft.constants.toList.map (·.id.index) := by
      rw [stages.represents.constantIds]
      exact List.mem_range.mpr inside
    obtain ⟨pending, waits, index⟩ := List.mem_map.mp listed
    have silent := (passes.constant_values pending waits).2
    rw [ConstantId.ext index] at silent
    rw [same, silent]
  · refine Resolution.members_of_outside fun present => inside ?_
    rwa [stages.retained.constants] at present

/-- Wherever an expression stands but in an enumerator, the members that it names are known. -/
theorem understands {owner : Option RecordId} {expr : Expr} (written : built.model.Written owner expr) :
    built.model.Understands owner expr := by
  have text : ∀ {id : RecordId} {text : Expr}, id.index < built.model.records.size →
      (∃ path, (path, text) ∈ Resolution.recordTexts built.model id) →
        built.model.Understands (some id) text := by
    rintro id text inside ⟨path, held⟩
    exact stages.understands_text inside held
  have placed : ∀ {id : RecordId} {attr : AttributeId},
      attr ∈ (built.model.record id).attributes →
        built.model.Understands (some id) (built.model.attr attr).offset ∧
          built.model.Understands (some id) (built.model.attr attr).elementSize := by
    intro id attr listed
    have inside := inside_of_mem Record.attributes rfl listed
    exact (stages.understands_attributes inside (stages.understands_start inside)).1 attr listed
  cases written with
  | count listed bound =>
    refine text (inside_of_mem Record.attributes rfl listed)
      (Resolution.mem_recordTexts.mpr (.inl ⟨_, listed, ?_⟩))
    exact List.mem_append_left _ (List.mem_filterMap.mpr ⟨_, bound, rfl⟩)
  | declaredOffset listed declared =>
    refine text (inside_of_mem Record.attributes rfl listed)
      (Resolution.mem_recordTexts.mpr (.inl ⟨_, listed, ?_⟩))
    exact List.mem_append_right _ (Option.mem_toList.mpr declared)
  | offset listed => exact (placed listed).1
  | elementSize listed => exact (placed listed).2
  | size inside => exact (stages.understands_attributes inside (stages.understands_start inside)).2
  | body listed held =>
    exact text (inside_of_mem Record.methods rfl listed)
      (Resolution.mem_recordTexts.mpr (.inr (.inl ⟨_, listed, held⟩)))
  | argument listed held given =>
    refine text (inside_of_mem Record.constructors rfl listed)
      (Resolution.mem_recordTexts.mpr (.inr (.inr ⟨_, listed, ?_⟩)))
    exact List.mem_append_left _ (List.mem_filterMap.mpr ⟨_, held, given⟩)
  | initializer listed held =>
    refine text (inside_of_mem Record.constructors rfl listed)
      (Resolution.mem_recordTexts.mpr (.inr (.inr ⟨_, listed, ?_⟩)))
    exact List.mem_append_right _ (List.mem_map_of_mem held)
  | constant id =>
    intro name named
    rw [stages.understands_constant] at named
    cases named

end Stages

namespace Resolution

/-- All members that a built model names are known, but for those in values of enumerators. A type that
names any other is refused for the first that it names, and so is a constant that names a member. -/
theorem build_instanceMembers (units : List SourceUnit) :
    (∀ built, build units = .ok built → ∀ owner expr, built.model.Written owner expr →
      built.model.Understands owner expr) ∧
    ∀ draft, Draft.ofUnits units = .ok draft →
      (∀ read, readDeclarations draft = .ok read →
        (∃ (id : RecordId) (path : String) (text : Expr), id.index < read.model.records.size ∧
          (path, text) ∈ recordTexts read.model id ∧ ¬ read.model.Understands (some id) text) →
        ∃ (id : RecordId) (path : String) (text : Expr) (name : String),
          (path, text) ∈ recordTexts read.model id ∧ name ∈ text.members ∧
            ¬ read.model.Knows id name ∧
            build units = .error (.schema (.unresolvedReference path name))) ∧
      ∀ pending ∈ draft.constants.toList, ∀ raw value, pending.declaration.value = some raw →
        Expr.parse ⟨scopeOwner (draft.model.constant pending.id).scope, none, pending.path⟩ raw =
          .ok value → value.members ≠ [] → ∃ fault, build units = .error fault := by
  refine ⟨fun built accepted owner expr written => ?_, fun draft named => ⟨?_, ?_⟩⟩
  · obtain ⟨stages⟩ := build_stages accepted
    exact stages.understands written
  · rintro read resolved ⟨id, path, text, inside, written, unknown⟩
    rcases checkMembers_cases read.model with
      ⟨_, known⟩ | ⟨id, path, text, name, written, mentioned, unknown, refused⟩
    · exact absurd (known id inside path text written) unknown
    · refine ⟨id, path, text, name, written, mentioned, unknown, ?_⟩
      have resolution : resolveDeclarations draft = .error (.unresolvedReference path name) := by
        simp only [resolveDeclarations_eq, resolved, refused, bind, Except.bind]
      simp only [build, named, resolution, orRefuse, bind, Except.bind]
  · intro pending waits raw value given parsed mentioned
    cases outcome : build units with
    | error fault => exact ⟨fault, rfl⟩
    | ok built =>
      obtain ⟨stages⟩ := build_stages outcome
      cases named.symm.trans stages.named
      obtain ⟨passes⟩ := resolveDeclarations_passes stages.resolution
      obtain ⟨⟨raw', value', given', parsed', silent⟩, _⟩ := passes.constant_values pending waits
      have scope := ((passes.isHeaded (Draft.ofUnits_consistent named)).named.constant pending.id).2
      cases given.symm.trans given'
      rw [scope] at parsed'
      cases parsed.symm.trans parsed'
      exact absurd silent mentioned

/-- A constant, and a type with a table of some shape. -/
def tableUnits (limit shape : String) : List SourceUnit :=
  let table : Declaration.Record :=
    { name := "Table"
      attributes := [{ name := "count", typeName := some "uint16_t" },
        { name := "data", typeName := some "uint8_t", shape := [shape] }] }
  [{ document := { packages :=
      [.mk "Sample" none [] [{ name := "limit", value := some limit }] [] [] [table]] } }]

theorem build_instanceMembers_sample :
    (∃ built, build (tableUnits "4" "\x7bself\x7d.count") = .ok built ∧
      "count" ∈ (built.model.record ⟨0⟩).size.members ∧
      ∃ id : RecordId, some ⟨0⟩ = some id ∧ built.model.Knows id "count") ∧
    (∃ path name, build (tableUnits "4" "\x7bself\x7d.missing") =
      .error (.schema (.unresolvedReference path name))) ∧
    ∃ fault, build (tableUnits "\x7bself\x7d.count" "4") = .error fault := by
  refine ⟨?_, ?_, ?_⟩
  · have computed : ∃ built, build (tableUnits "4" "\x7bself\x7d.count") = .ok built ∧
        0 < built.model.records.size ∧ "count" ∈ (built.model.record ⟨0⟩).size.members :=
      exists_built (by decide +kernel)
    obtain ⟨built, accepted, inside, named⟩ := computed
    have understood := (build_instanceMembers _).1 built accepted _ _ (.size inside)
    exact ⟨built, accepted, named, understood "count" named⟩
  · have computed : ((Draft.ofUnits (tableUnits "4" "\x7bself\x7d.missing")).toOption.any fun draft =>
        (readDeclarations draft).toOption.any fun read =>
          decide (0 < read.model.records.size) &&
            (recordTexts read.model ⟨0⟩).any fun text =>
              text.2.members.any fun name => !hasMember read.model ⟨0⟩ name) = true := by
      decide +kernel
    simp only [Option.any_eq_true, toOption_eq_some, Bool.and_eq_true, decide_eq_true_eq,
      List.any_eq_true, Bool.not_eq_true'] at computed
    obtain ⟨draft, named, read, resolved, inside, ⟨path, text⟩, written, name, mentioned, missing⟩ :=
      computed
    have unknown : ¬ read.model.Understands (some ⟨0⟩) text := by
      intro understood
      obtain ⟨_, same, known⟩ := understood name mentioned
      cases same
      rw [← hasMember_iff, missing] at known
      cases known
    obtain ⟨_, path, _, name, _, _, _, refused⟩ := ((build_instanceMembers _).2 draft named).1 read
      resolved ⟨⟨0⟩, path, text, inside, written, unknown⟩
    exact ⟨path, name, refused⟩
  · have computed : ((Draft.ofUnits (tableUnits "\x7bself\x7d.count" "4")).toOption.any fun draft =>
        draft.constants.toList.any fun pending =>
          pending.declaration.value.any fun raw =>
            (Expr.parse ⟨scopeOwner (draft.model.constant pending.id).scope, none, pending.path⟩
              raw).toOption.any fun value => decide (value.members ≠ [])) = true := by
      decide +kernel
    simp only [Option.any_eq_true, toOption_eq_some, List.any_eq_true, decide_eq_true_eq] at computed
    obtain ⟨draft, named, pending, waits, raw, given, value, parsed, mentioned⟩ := computed
    exact ((build_instanceMembers _).2 draft named).2 pending waits raw value given parsed mentioned

/-- Two enumerations whose values name a member that nothing has, in a package and in a type. -/
def enumeratorUnits : List SourceUnit :=
  let mode : Declaration.Enumeration :=
    { name := some "Mode", constants := [{ name := "Fast", value := some "\x7bself\x7d.missing" }] }
  let type : Declaration.Record :=
    { name := "Table", enumerations := [mode]
      attributes := [{ name := "count", typeName := some "uint16_t" }] }
  [{ document := { packages := [.mk "Sample" none [] [] [mode] [] [type]] } }]

/-- The value of an enumerator can name a member that its type does not know, or one of no type. -/
theorem build_not_instanceMembers : ∃ built, build enumeratorUnits = .ok built ∧
    (∃ expr, built.model.Enumerated none expr ∧ ¬ built.model.Understands none expr) ∧
    ∃ id expr, built.model.Enumerated (some id) expr ∧ ¬ built.model.Understands (some id) expr := by
  have computed : ∃ built, build enumeratorUnits = .ok built ∧
      scopeOwner (built.model.enumeration ⟨0⟩).scope = none ∧
      (built.model.enumeration ⟨0⟩).constants.map (·.value) =
        [some (.operand (.member "missing"))] ∧
      scopeOwner (built.model.enumeration ⟨1⟩).scope = some ⟨0⟩ ∧
      (built.model.enumeration ⟨1⟩).constants.map (·.value) =
        [some (.operand (.member "missing"))] ∧
      hasMember built.model ⟨0⟩ "missing" = false := exists_built (by decide +kernel)
  obtain ⟨built, accepted, outer, outerValues, inner, innerValues, missing⟩ := computed
  have stands : ∀ {id : EnumId}, (built.model.enumeration id).constants.map (·.value) =
      [some (.operand (.member "missing"))] →
        built.model.Enumerated (scopeOwner (built.model.enumeration id).scope)
          (.operand (.member "missing")) := by
    intro id values
    have listed : some (Expr.operand (.member "missing")) ∈
        (built.model.enumeration id).constants.map (·.value) := by
      rw [values]
      exact List.mem_singleton_self _
    obtain ⟨entry, held, value⟩ := List.mem_map.mp listed
    exact ⟨id, rfl, entry, held, value⟩
  have mentioned : "missing" ∈ (Expr.operand (.member "missing")).members := by decide
  refine ⟨built, accepted, ⟨_, outer ▸ stands outerValues, fun understood => ?_⟩,
    ⟨0⟩, _, inner ▸ stands innerValues, fun understood => ?_⟩
  · obtain ⟨_, impossible, _⟩ := understood "missing" mentioned
    cases impossible
  · obtain ⟨_, same, known⟩ := understood "missing" mentioned
    cases same
    rw [← hasMember_iff, missing] at known
    cases known

end Resolution

end RecordSchema
