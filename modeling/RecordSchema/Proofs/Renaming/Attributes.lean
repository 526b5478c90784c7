import RecordSchema.Proofs.Renaming.OwnMembers
import RecordSchema.Proofs.Renaming.Values

/-!
# Attributes and methods in two models

A record type fills in its own members, one after the other, from what names and headers say and from the
members that it has so far. So in both models it comes to show the same, whatever other types have come
before.
-/

set_option autoImplicit false

namespace RecordSchema

open Model Outcome

namespace Outcome.Follows

variable {ε α β : Type} {related : α → β → Prop} {first : Except ε α} {second : Except ε β}

/-- What is related has been given by both computations. -/
theorem given (here : Follows related first second) :
    Follows (fun value value' => related value value' ∧ first = .ok value ∧ second = .ok value')
      first second := by
  intro value taken
  obtain ⟨value', taken', holds⟩ := here value taken
  exact ⟨value', taken', holds, taken, taken'⟩

end Outcome.Follows

namespace Resolution

/-!
## Reading
-/

/-- A record type that is filled in in two models. -/
structure Together (ρ : Renaming) (headed headed' : Model) (owner : RecordId) (model model' : Model) :
    Prop where
  step : Step headed model
  step' : Step headed' model'
  view : model'.recordView (ρ.record owner) = (model.recordView owner).rename ρ

namespace Together

variable {ρ : Renaming} {headed headed' : Model} (alike : Alike ρ headed headed') {owner : RecordId}
  {model model' : Model} (together : Together ρ headed headed' owner model model')

include together

theorem attributePairs :
    List.Forall₂ (SameAttribute ρ model model') (model.record owner).attributes
      (model'.record (ρ.record owner)).attributes :=
  forall₂_map_iff.mpr (congrArg RecordView.attributes together.view)

theorem methodPairs :
    List.Forall₂ (SameMethod ρ model model') (model.record owner).methods
      (model'.record (ρ.record owner)).methods :=
  forall₂_map_iff.mpr (congrArg RecordView.methods together.view)

/-- A name is taken by a method in both models or in none. -/
theorem methodClash (name : String) :
    ((model'.record (ρ.record owner)).methods.any fun id => (model'.method id).name == name) =
      (model.record owner).methods.any fun id => (model.method id).name == name :=
  forall₂_any together.methodPairs fun _ _ pair => by rw [pair.name]

theorem attributeClash (name : String) :
    ((model'.record (ρ.record owner)).attributes.any fun id => (model'.attr id).name == name) =
      (model.record owner).attributes.any fun id => (model.attr id).name == name :=
  forall₂_any together.attributePairs fun _ _ pair => by rw [pair.name]

include alike

theorem names : SameNames ρ model model' :=
  alike.toSameNames.retain together.step.named together.step'.named

theorem lineage (id : RecordId) : SameLineage ρ model model' id := by
  refine sameLineage (together.names alike).records (fun other => ?_) id
  rw [together.step'.base, together.step.base, alike.sameMembers.base]

theorem context (path path' : String) :
    SameContext ρ (exprContext model owner path) (exprContext model' (ρ.record owner) path') where
  owner := rfl
  config := by
    have configs := together.step.field Record.configs (fun _ => rfl) owner
    have configs' := together.step'.field Record.configs (fun _ => rfl) (ρ.record owner)
    simp only [exprContext, configs, configs', alike.configs, List.head?_map]

variable (inside : owner.index < headed.records.size)

include inside

theorem lookupType_mirrored (path path' name : String) :
    Mirrors (TypeRef.rename ρ) (model.lookupType owner path name)
      (model'.lookupType (ρ.record owner) path' name) := by
  have found := (together.names alike).lookupType? (together.step.records.symm ▸ inside)
    (together.lineage alike owner) name
  rw [lookupType, lookupType, found]
  cases model.lookupType? owner name with
  | none => exact .error
  | some type => exact .ok rfl

/-- An attribute is read alike, but for its owner. -/
theorem readAttribute_mirrored (path path' : String) (declaration : Declaration.Attribute) :
    Mirrors (fun attr => { attr.rename ρ with owner := ρ.record owner })
      (readAttribute model owner path declaration)
      (readAttribute model' (ρ.record owner) path' declaration) := by
  have context := together.context alike path path'
  rw [readAttribute, readAttribute]
  cases declaration.typeName with
  | none => exact .error
  | some typeName =>
    refine (together.lookupType_mirrored alike inside path path' typeName).bind fun type _ _ _ typed =>
      (resolveShape_mirrored context 0 declaration.shape).bind fun shape _ _ _ shaped => ?_
    have offsets : Mirrors (Option.map (Expr.rename ρ))
        (declaration.offset.mapM (Expr.parse (exprContext model owner path)))
        (declaration.offset.mapM (Expr.parse (exprContext model' (ρ.record owner) path'))) :=
      .optionMapM fun raw _ => Expr.parse_mirrored context raw
    refine offsets.bind fun offset _ _ _ placed =>
      (accessOf_mirrored path path' declaration.access).bind fun access _ _ _ granted => .ok ?_
    rw [typed, shaped, placed, granted]
    rfl

end Together

/-!
## Bitfields
-/

/-- A record type whose last attribute is being filled in. -/
structure LastOpen (ρ : Renaming) (headed headed' : Model) (owner : RecordId) (id id' : AttributeId)
    (model model' : Model) : Prop extends Together ρ headed headed' owner model model' where
  last : ∃ front, (model.record owner).attributes = front ++ [id]
  last' : ∃ front, (model'.record (ρ.record owner)).attributes = front ++ [id']

/-- The last attribute of a type is there and belongs to it. -/
theorem last_owned {model : Model} (sound : model.Sound) {owner : RecordId} {id : AttributeId}
    (last : ∃ front, (model.record owner).attributes = front ++ [id]) :
    id.index < model.attributes.size ∧ (model.attr id).owner = owner := by
  obtain ⟨front, split⟩ := last
  have listed : id ∈ (model.record owner).attributes := by simp [split]
  have inside := sound.closed.recordAttributes owner id listed
  exact ⟨inside, (sound.attributes.mem_iff inside).mp listed⟩

namespace LastOpen

variable {ρ : Renaming} {headed headed' : Model} {owner : RecordId} {id id' : AttributeId}
  {model model' : Model} (opened : LastOpen ρ headed headed' owner id id' model model')

include opened

/-- The last attributes correspond, and so do those before. -/
theorem attributeViews {front front' : List AttributeId}
    (split : (model.record owner).attributes = front ++ [id])
    (split' : (model'.record (ρ.record owner)).attributes = front' ++ [id']) :
    front'.map model'.attributeView =
        (front.map model.attributeView).map (AttributeView.rename ρ) ∧
      SameAttribute ρ model model' id id' := by
  have views : (model'.record (ρ.record owner)).attributes.map model'.attributeView =
      ((model.record owner).attributes.map model.attributeView).map (AttributeView.rename ρ) :=
    congrArg RecordView.attributes opened.view
  rw [split, split', List.map_append, List.map_append, List.map_append] at views
  obtain ⟨before, here⟩ := List.append_inj' views rfl
  exact ⟨before, (List.cons.inj here).1⟩

theorem pair : SameAttribute ρ model model' id id' := by
  obtain ⟨front, split⟩ := opened.last
  obtain ⟨front', split'⟩ := opened.last'
  exact (opened.attributeViews split split').2

private theorem insertBitfield_follows {bitfield bitfield' : Bitfield} (attr : bitfield.attr = id)
    (attr' : bitfield'.attr = id') (bare : bitfield'.bare = bitfield.bare.rename ρ)
    (known : InRange model.census bitfield.type.references)
    (known' : InRange model'.census bitfield'.type.references) (unread : bitfield.accessor = none)
    (unread' : bitfield'.accessor = none) (access : Access) (path path' name : String) :
    Follows (LastOpen ρ headed headed' owner id id')
      (insertBitfield model owner access path name bitfield)
      (insertBitfield model' (ρ.record owner) access path' name bitfield') := by
  subst attr attr'
  obtain ⟨inside, owned⟩ := last_owned opened.step.sound opened.last
  obtain ⟨inside', owned'⟩ := last_owned opened.step'.sound opened.last'
  obtain ⟨front, split⟩ := opened.last
  obtain ⟨front', split'⟩ := opened.last'
  obtain ⟨before, last⟩ := opened.attributeViews split split'
  have follows : Follows
      (fun after after' => after'.recordView (ρ.record owner) = (after.recordView owner).rename ρ ∧
        (after.record owner).attributes = front ++ [bitfield.attr] ∧
        (after'.record (ρ.record owner)).attributes = front' ++ [bitfield'.attr])
      (insertBitfield model owner access path name bitfield)
      (insertBitfield model' (ρ.record owner) access path' name bitfield') := by
    rw [insertBitfield_eq, insertBitfield_eq]
    refine .guarded (opened.methodClash name) fun _ => .ok ⟨?_, ?_, ?_⟩
    · have body : (bitAccessorOf owner access name ⟨model.bitfields.size⟩ bitfield).body =
          .bitfield ⟨model.bitfields.size⟩ := rfl
      have body' : (bitAccessorOf (ρ.record owner) access name ⟨model'.bitfields.size⟩ bitfield').body =
          .bitfield ⟨model'.bitfields.size⟩ := rfl
      have shown :=
        (recordView_withReadBitfield opened.step.sound.toLinked inside owned.symm body).2 front split
      have shown' :=
        (recordView_withReadBitfield opened.step'.sound.toLinked inside' owned'.symm body').2 front'
          split'
      have type : bitfield'.type = bitfield.type.rename ρ := (congrArg Bitfield.type bare :)
      refine shown'.trans (.trans ?_ (congrArg (RecordView.rename ρ) shown).symm)
      have lastView : model'.attributeView bitfield'.attr =
          (model.attributeView bitfield.attr).rename ρ := last
      simp only [bitAccessorOf, opened.view, before, lastView, last.name, bare, type, RecordView.rename,
        AttributeView.rename, List.map_append, List.map_singleton]
      rfl
    · rw [attributes_withReadBitfield, split]
    · rw [attributes_withReadBitfield, split']
  refine follows.given.imp ?_
  rintro after after' - ⟨⟨view, last, last'⟩, accepted, accepted'⟩
  exact
    { step := opened.step.trans (insertBitfield_step opened.step.sound inside owned known unread accepted).1
      step' := opened.step'.trans
        (insertBitfield_step opened.step'.sound inside' owned' known' unread' accepted').1
      view := view
      last := ⟨front, last⟩
      last' := ⟨front', last'⟩ }

private theorem addBitfield_follows (alike : Alike ρ headed headed')
    (inside : owner.index < headed.records.size)
    (access : Access) (storage : Builtin) (path path' : String) (placed : List PlacedBits)
    (declaration : Declaration.Bitfield) :
    Follows (fun after after' => LastOpen ρ headed headed' owner id id' after.1 after'.1 ∧
        after'.2 = after.2)
      (addBitfield ⟨owner, id, access, storage, path⟩ (model, placed) declaration)
      (addBitfield ⟨ρ.record owner, id', access, storage, path'⟩ (model', placed) declaration) := by
  refine (placeBits_mirrored path path' storage placed declaration).bind fun bits _ _ _ same => ?_
  have closed := opened.step.sound.closed
  have closed' := opened.step'.sound.closed
  have insert : ∀ type : TypeRef, InRange model.census type.references →
      InRange model'.census (type.rename ρ).references →
        Follows (LastOpen ρ headed headed' owner id id')
          (insertBitfield model owner access (path ++ "." ++ declaration.name)
            (declaration.accessor.getD declaration.name)
            { name := declaration.name, attr := id, offset := bits.start,
              width := bits.stop - bits.start, type, comment := declaration.comment })
          (insertBitfield model' (ρ.record owner) access (path' ++ "." ++ declaration.name)
            (declaration.accessor.getD declaration.name)
            { name := declaration.name, attr := id', offset := bits.start,
              width := bits.stop - bits.start, type := type.rename ρ,
              comment := declaration.comment }) :=
    fun type known known' =>
      opened.insertBitfield_follows rfl rfl rfl known known' rfl rfl access _ _ _
  subst same
  cases declaration.typeName with
  | none =>
    exact (insert (.builtin storage) inRange_nil inRange_nil).bind fun _ _ _ _ later => .ok ⟨later, rfl⟩
  | some name =>
    refine (opened.toTogether.lookupType_mirrored alike inside (path ++ "." ++ declaration.name)
      (path' ++ "." ++ declaration.name) name).bind fun type _ typed typed' same => ?_
    subst same
    exact (insert type (closed.lookupType typed) (closed'.lookupType typed')).bind
      fun _ _ _ _ later => .ok ⟨later, rfl⟩

/-- All bitfields of the last attribute. -/
theorem addBitfields_follows (alike : Alike ρ headed headed')
    (inside : owner.index < headed.records.size) (path path' typeName : String)
    (declarations : List Declaration.Bitfield) :
    Follows (Together ρ headed headed' owner)
      (addBitfields model owner id path typeName declarations)
      (addBitfields model' (ρ.record owner) id' path' typeName declarations) := by
  have pair := opened.pair
  have storage : bitStorage? (model'.attr id') = bitStorage? (model.attr id) := by
    rw [bitStorage?, bitStorage?, pair.type, pair.shape]
    cases (model.attr id).type <;> cases (model.attr id).shape <;> rfl
  have access : (model'.attr id').access = (model.attr id).access :=
    (congrArg Attribute.access pair.bare :)
  rw [addBitfields, addBitfields, storage, access]
  refine .ite Iff.rfl (fun _ => .ok opened.toTogether) fun _ => ?_
  cases bitStorage? (model.attr id) with
  | none => exact .error
  | some storage =>
    have each : ∀ state state', ∀ declaration ∈ declarations,
        (LastOpen ρ headed headed' owner id id' state.1 state'.1 ∧ state'.2 = state.2) →
          Follows (fun after after' => LastOpen ρ headed headed' owner id id' after.1 after'.1 ∧
              after'.2 = after.2)
            (addBitfield ⟨owner, id, (model.attr id).access, storage, path⟩ state declaration)
            (addBitfield ⟨ρ.record owner, id', (model.attr id).access, storage, path'⟩ state'
              declaration) := by
      rintro ⟨state, _⟩ ⟨state', placed⟩ declaration - ⟨still, rfl⟩
      exact still.addBitfield_follows alike inside _ storage path path' placed declaration
    have start : LastOpen ρ headed headed' owner id id' (model, ([] : List PlacedBits)).1
        (model', ([] : List PlacedBits)).1 ∧ ([] : List PlacedBits) = [] := ⟨opened, rfl⟩
    exact (Follows.foldlM each start).map fun _ _ both => both.1.toTogether

end LastOpen

/-!
## Attributes
-/

namespace Together

variable {ρ : Renaming} {headed headed' : Model} {owner : RecordId} {model model' : Model}
  (together : Together ρ headed headed' owner model model')

include together

/-- An attribute that has been read alike is added alike, and stays open for its bitfields. -/
theorem insertAttribute_follows {attr attr' : Attribute}
    (same : attr' = { attr.rename ρ with owner := ρ.record owner })
    (closed : attr.Closed model.census) (closed' : attr'.Closed model'.census)
    (fresh : attr.Declared) (fresh' : attr'.Declared) (empty : attr.bitfields = [])
    (empty' : attr'.bitfields = []) (owned : attr.owner = owner) (path path' name : String) :
    Follows
      (LastOpen ρ headed headed' owner ⟨model.attributes.size⟩ ⟨model'.attributes.size⟩)
      (insertAttribute model path name attr) (insertAttribute model' path' name attr') := by
  have owned' : attr'.owner = ρ.record owner := by rw [same]
  have inside : attr.owner.index < model.records.size := closed.owner
  have inside' : attr'.owner.index < model'.records.size := closed'.owner
  have follows : Follows
      (fun after after' => after'.recordView (ρ.record owner) = (after.recordView owner).rename ρ ∧
        (after.record owner).attributes =
          (model.record owner).attributes ++ [⟨model.attributes.size⟩] ∧
        (after'.record (ρ.record owner)).attributes =
          (model'.record (ρ.record owner)).attributes ++ [⟨model'.attributes.size⟩])
      (insertAttribute model path name attr) (insertAttribute model' path' name attr') := by
    rw [insertAttribute_eq, insertAttribute_eq, owned, owned']
    refine .guarded (together.methodClash name) fun _ => .ok ⟨?_, ?_, ?_⟩
    · have body : (accessorOf name ⟨model.attributes.size⟩ attr).body =
          .attr ⟨model.attributes.size⟩ := rfl
      have body' : (accessorOf name ⟨model'.attributes.size⟩ attr').body =
          .attr ⟨model'.attributes.size⟩ := rfl
      have shown :=
        recordView_withReadAttribute together.step.sound.closed inside empty rfl body owner
      have shown' :=
        recordView_withReadAttribute together.step'.sound.closed inside' empty' rfl body'
          (ρ.record owner)
      rw [if_pos owned] at shown
      rw [if_pos owned'] at shown'
      have bare : attr'.bare = attr.bare.rename ρ := by rw [same]; rfl
      have type : attr'.type = attr.type.rename ρ := by rw [same]; rfl
      have attrName : attr'.name = attr.name := by rw [same]; rfl
      rw [shown, shown', together.view]
      simp only [bare, accessorOf, type, attrName, RecordView.rename, List.map_append, List.map_singleton]
      rfl
    · have listed := attributes_withReadAttribute model attr
        (accessorOf name ⟨model.attributes.size⟩ attr) rfl inside
      rwa [owned] at listed
    · have listed := attributes_withReadAttribute model' attr'
        (accessorOf name ⟨model'.attributes.size⟩ attr') rfl inside'
      rwa [owned'] at listed
  refine follows.given.imp ?_
  rintro after after' - ⟨⟨view, last, last'⟩, accepted, accepted'⟩
  exact
    { step := together.step.trans
        (insertAttribute_step together.step.sound closed fresh empty accepted)
      step' := together.step'.trans
        (insertAttribute_step together.step'.sound closed' fresh' empty' accepted')
      view := view
      last := ⟨_, last⟩
      last' := ⟨_, last'⟩ }

private theorem addAttribute_follows (alike : Alike ρ headed headed')
    (inside : owner.index < headed.records.size)
    (typePath typePath' : String) (declaration : Declaration.Attribute) :
    Follows (Together ρ headed headed' owner) (addAttribute owner typePath model declaration)
      (addAttribute (ρ.record owner) typePath' model' declaration) := by
  have here : owner.index < model.records.size := together.step.records.symm ▸ inside
  have here' : (ρ.record owner).index < model'.records.size := by
    rw [(together.names alike).records]
    exact ((together.names alike).recordRange owner).mpr here
  refine .guarded rfl fun _ => .guarded (together.attributeClash declaration.name) fun _ => ?_
  refine (together.readAttribute_mirrored alike inside (typePath ++ "." ++ declaration.name)
    (typePath' ++ "." ++ declaration.name) declaration).bind fun attr attr' read read' same => ?_
  obtain ⟨closed, fresh, owned, empty⟩ := readAttribute_ok together.step.sound.closed here read
  obtain ⟨closed', fresh', _, empty'⟩ := readAttribute_ok together.step'.sound.closed here' read'
  have accessorName : attr'.defaultAccessorName = attr.defaultAccessorName := by
    rw [same]
    rfl
  rw [accessorName]
  exact (together.insertAttribute_follows same closed closed' fresh fresh' empty empty' owned _ _ _).bind
    fun _ _ _ _ opened => opened.addBitfields_follows alike inside _ _ _ declaration.bitfields

private theorem resolveAttributes_follows (alike : Alike ρ headed headed')
    {pending pending' : Pending RecordId Declaration.Record} (owned : pending.id = owner)
    (twin : Twin ρ.record pending pending') (inside : owner.index < headed.records.size) :
    Follows (Together ρ headed headed' owner) (resolveAttributes model pending)
      (resolveAttributes model' pending') := by
  rw [resolveAttributes, resolveAttributes, twin.1, twin.2, owned]
  exact .foldlM (fun _ _ declaration _ still => still.addAttribute_follows alike inside _ _ declaration)
    together

end Together

/-!
## Declared methods
-/

theorem owner_tagged (tags : List Tag) (method : Method) :
    (tags.foldl applyMethodTag method).owner = method.owner := by
  obtain ⟨inlined, rawTags, same⟩ := foldl_applyMethodTag tags method
  rw [same]

private theorem body_tagged (tags : List Tag) (method : Method) :
    (tags.foldl applyMethodTag method).body = method.body := by
  obtain ⟨inlined, rawTags, same⟩ := foldl_applyMethodTag tags method
  rw [same]

private theorem view_tagged (tags : List Tag) (method : Method) (reads : Option String) :
    (tags.foldl applyMethodTag method).view reads = method.view reads := by
  obtain ⟨inlined, rawTags, same⟩ := foldl_applyMethodTag tags method
  rw [same]
  rfl

/-- A declared method reads no attribute. -/
theorem readBy_declared (model : Model) {body : MethodBody} (noAttribute : ∀ attr, body ≠ .attr attr)
    (noBitfield : ∀ bitfield, body ≠ .bitfield bitfield) : model.readBy body = none := by
  cases body with
  | attr id => exact absurd rfl (noAttribute id)
  | bitfield id => exact absurd rfl (noBitfield id)
  | expressions _ | code _ | external => rfl

namespace Together

variable {ρ : Renaming} {headed headed' : Model} {owner : RecordId} {model model' : Model}
  (together : Together ρ headed headed' owner model model') (alike : Alike ρ headed headed')
  (inside : owner.index < headed.records.size)

include together alike inside

omit alike inside in
/-- A method that shows the same is added alike. -/
theorem addMethod_follows (here : owner.index < model.records.size)
    (here' : (ρ.record owner).index < model'.records.size) {method method' : Method}
    (owned : method.owner = owner) (owned' : method'.owner = ρ.record owner)
    (shown : method'.view ((model'.readBy method'.body).map fun attr => (model'.attr attr).name) =
      (method.view ((model.readBy method.body).map fun attr => (model.attr attr).name)).rename ρ)
    (path path' : String) :
    Follows (fun added added' =>
        added'.1.recordView (ρ.record owner) = (added.1.recordView owner).rename ρ)
      (addMethod model path method) (addMethod model' path' method') := by
  subst owned
  have name : method'.name = method.name := (congrArg MethodView.name shown :)
  rw [addMethod_eq, addMethod_eq, owned', name]
  refine .guarded (together.methodClash method.name) fun _ => .ok ?_
  have view := recordView_withMethod together.step.sound.closed here method.owner
  have view' := recordView_withMethod together.step'.sound.closed (owned'.symm ▸ here')
    (ρ.record method.owner)
  rw [if_pos rfl] at view
  rw [if_pos owned'] at view'
  rw [view, view', together.view, shown]
  simp only [RecordView.rename, List.map_append, List.map_singleton]

private theorem resultOf_mirrored (path path' : String) (name : Option String) :
    Mirrors (Option.map (TypeRef.rename ρ)) (resultOf model owner path name)
      (resultOf model' (ρ.record owner) path' name) := by
  cases name with
  | none => exact .ok rfl
  | some name =>
    refine .ite Iff.rfl (fun _ => .ok rfl) fun _ => ?_
    exact (together.lookupType_mirrored alike inside path path' name).map fun _ _ same => by
      rw [same]
      rfl

private theorem resolveArgument_follows (path path' : String) (declaration : Declaration.Argument) :
    Follows (fun argument argument' => argument'.type = argument.type.map (TypeRef.rename ρ))
      (resolveArgument model owner path declaration)
      (resolveArgument model' (ρ.record owner) path' declaration) := by
  have types : Mirrors (Option.map (TypeRef.rename ρ))
      (declaration.typeName.mapM (model.lookupType owner path))
      (declaration.typeName.mapM (model'.lookupType (ρ.record owner) path')) :=
    .optionMapM fun name _ => together.lookupType_mirrored alike inside path path' name
  exact types.bind fun _ _ _ _ same => .ok same

omit inside in
private theorem bodyOf_follows (path path' : String) (declaration : Declaration.Method) :
    Follows (fun body body' => body'.texts = body.texts.map (Expr.rename ρ))
      (bodyOf (exprContext model owner path) declaration)
      (bodyOf (exprContext model' (ρ.record owner) path') declaration) := by
  have context := together.context alike path path'
  have texts : ∀ bodies : List (String × Expr),
      (bodies.map fun body => (body.1, body.2.rename ρ)).map (·.2) =
        (bodies.map (·.2)).map (Expr.rename ρ) := by
    intro bodies
    rw [List.map_map, List.map_map]
    rfl
  unfold bodyOf
  split
  · exact .ok rfl
  · refine (parseBodies_mirrored context _).map fun bodies _ same => ?_
    rw [same]
    exact texts bodies
  · refine (parseBodies_mirrored context _).map fun bodies _ same => ?_
    rw [same]
    exact texts bodies
  · exact .error

private theorem addDeclaredMethod_follows (typePath typePath' : String) (declaration : Declaration.Method) :
    Follows (Together ρ headed headed' owner) (addDeclaredMethod owner typePath model declaration)
      (addDeclaredMethod (ρ.record owner) typePath' model' declaration) := by
  have here : owner.index < model.records.size := together.step.records.symm ▸ inside
  have here' : (ρ.record owner).index < model'.records.size := by
    rw [(together.names alike).records]
    exact ((together.names alike).recordRange owner).mpr here
  have follows : Follows
      (fun after after' => after'.recordView (ρ.record owner) = (after.recordView owner).rename ρ)
      (addDeclaredMethod owner typePath model declaration)
      (addDeclaredMethod (ρ.record owner) typePath' model' declaration) := by
    refine .guarded rfl fun _ => ?_
    refine (together.resultOf_mirrored alike inside (typePath ++ "." ++ declaration.name)
      (typePath' ++ "." ++ declaration.name) declaration.typeName).bind fun result _ _ _ returned => ?_
    refine (Follows.mapM fun argument _ =>
      together.resolveArgument_follows alike inside (typePath ++ "." ++ declaration.name)
        (typePath' ++ "." ++ declaration.name) argument).bind fun arguments arguments' _ _ taken => ?_
    refine (together.bodyOf_follows alike (typePath ++ "." ++ declaration.name)
      (typePath' ++ "." ++ declaration.name) declaration).bind fun body body' read read' texts => ?_
    refine (accessOf_mirrored (typePath ++ "." ++ declaration.name)
      (typePath' ++ "." ++ declaration.name) declaration.access).bind fun access access' _ _ _ => ?_
    obtain ⟨_, _, noAttribute, noBitfield⟩ := bodyOf_texts read
    obtain ⟨_, _, noAttribute', noBitfield'⟩ := bodyOf_texts read'
    refine (together.addMethod_follows here here' ?_ ?_ ?_ _ _).bind fun _ _ _ _ shown => .ok shown
    · exact owner_tagged ..
    · exact owner_tagged ..
    · rw [body_tagged, body_tagged, view_tagged, view_tagged,
        readBy_declared model noAttribute noBitfield,
        readBy_declared model' noAttribute' noBitfield']
      simp only [Method.view, MethodView.rename, returned, texts, forall₂_map_iff.mp taken, Option.map_none]
  refine follows.given.imp ?_
  rintro after after' - ⟨view, accepted, accepted'⟩
  exact ⟨together.step.trans (addDeclaredMethod_step together.step.sound here accepted),
    together.step'.trans (addDeclaredMethod_step together.step'.sound here' accepted'), view⟩

private theorem resolveMethods_follows {pending pending' : Pending RecordId Declaration.Record}
    (owned : pending.id = owner) (twin : Twin ρ.record pending pending') :
    Follows (Together ρ headed headed' owner) (resolveMethods model pending)
      (resolveMethods model' pending') := by
  rw [resolveMethods, resolveMethods, twin.1, twin.2, owned]
  exact .foldlM
    (fun _ _ declaration _ still => still.addDeclaredMethod_follows alike inside _ _ declaration) together

end Together

/-!
## Both passes
-/

section Passes

variable {ρ : Renaming} {draft draft' : Draft} (drafts : SameDrafts ρ draft draft')
  {headed headed' : Model} (headers : Headed draft headed) (headers' : Headed draft' headed')
  (alike : Alike ρ headed headed') {start start' : Model}

include drafts headers headers' alike

omit headers' in
/-- A pass in which every type fills in its members. -/
theorem members_alike {step : Model → Pending RecordId Declaration.Record → Except SchemaError Model}
    (here : Local step draft.records.toList (·.id) (fun id (model : Model) => model.recordView id)
      (Populated headed start))
    (there : Local step draft'.records.toList (·.id) (fun id (model : Model) => model.recordView id)
      (Populated headed' start'))
    (each : ∀ pending pending' : Pending RecordId Declaration.Record, Twin ρ.record pending pending' →
      pending.id.index < headed.records.size → ∀ state state',
        Together ρ headed headed' pending.id state state' →
          Follows (Together ρ headed headed' pending.id) (step state pending) (step state' pending'))
    (initial : Populated headed start start) (initial' : Populated headed' start' start')
    (same : Alike ρ start start') {final : Model}
    (accepted : draft.records.toList.foldlM step start = .ok final) :
    ∃ final', draft'.records.toList.foldlM step start' = .ok final' ∧
      Populated headed start final ∧ Populated headed' start' final' ∧ Alike ρ final final' := by
  obtain ⟨final', accepted', good, good', views⟩ :=
    drafts.records.pass (RecordView.rename ρ) here there initial initial' accepted <| by
      intro pending listed pending' _ twin state state' good good' own own'
      have together : Together ρ headed headed' pending.id state state' :=
        ⟨good.step, good'.step, by rw [own', own, same.view]⟩
      exact (each pending pending' twin (headers.records pending listed) state state' together).imp
        fun _ _ _ later => later.view
  refine ⟨final', accepted', good, good', .of_inside ?_ fun id inside => ?_⟩
  · exact alike.toSameNames.retain good.step.named good'.step.named
  · rw [good.step.records, headers.named.records] at inside
    exact views id inside

/-- Attributes and methods that are accepted in one order are accepted in any. -/
theorem attributesAndMethods_alike {withAttributes withMethods : Model}
    (initial : Populated headed start start) (initial' : Populated headed' start' start')
    (same : Alike ρ start start')
    (attributes : draft.records.toList.foldlM resolveAttributes start = .ok withAttributes)
    (methods : draft.records.toList.foldlM resolveMethods withAttributes = .ok withMethods) :
    ∃ withAttributes' withMethods',
      draft'.records.toList.foldlM resolveAttributes start' = .ok withAttributes' ∧
      draft'.records.toList.foldlM resolveMethods withAttributes' = .ok withMethods' ∧
      Populated headed start withMethods ∧ Populated headed' start' withMethods' ∧
      Alike ρ withMethods withMethods' := by
  obtain ⟨withAttributes', attributes', good, good', between⟩ :=
    members_alike drafts headers alike
      (resolveAttributes_local headers.records drafts.records.distinct)
      (resolveAttributes_local headers'.records drafts.records.distinct')
      (fun _ _ twin inside _ _ together => together.resolveAttributes_follows alike rfl twin inside)
      initial initial' same attributes
  obtain ⟨withMethods', methods', last, last', final⟩ :=
    members_alike drafts headers alike
      (resolveMethods_local headers.records drafts.records.distinct)
      (resolveMethods_local headers'.records drafts.records.distinct')
      (fun _ _ twin inside _ _ together => together.resolveMethods_follows alike inside rfl twin)
      ⟨good.step, rfl, rfl, good.distinct⟩ ⟨good'.step, rfl, rfl, good'.distinct⟩ between methods
  exact ⟨withAttributes', withMethods', attributes', methods',
    { last with
      enumerations := last.enumerations.trans good.enumerations
      constants := last.constants.trans good.constants },
    { last' with
      enumerations := last'.enumerations.trans good'.enumerations
      constants := last'.constants.trans good'.constants },
    final⟩

end Passes

end Resolution

end RecordSchema
