import RecordSchema.Proofs.Extension.Values
import RecordSchema.Proofs.Renaming.Attributes

/-!
# Members in a larger model

A type gets the same attributes, bitfields, methods and constructors in a larger model. While attributes
are resolved the types of the smaller model come first and all identifiers are the same. Methods that are
declared come after the accessors of all types, so in the larger model their identifiers are further on.
-/

set_option autoImplicit false

namespace RecordSchema

open Model Outcome

namespace Outcome.Follows

variable {ε α β : Type}

private theorem mapM_eq {items : List α} {read read' : α → Except ε β}
    (each : ∀ item ∈ items, Follows (· = ·) (read item) (read' item)) :
    Follows (· = ·) (items.mapM read) (items.mapM read') := by
  refine (Follows.mapM each).imp fun values values' _ alike => ?_
  rwa [List.forall₂_eq_eq_eq] at alike

private theorem optionMapM_eq {item : Option α} {read read' : α → Except ε β}
    (each : ∀ raw ∈ item, Follows (· = ·) (read raw) (read' raw)) :
    Follows (· = ·) (item.mapM read) (item.mapM read') := by
  cases item with
  | none => exact .ok rfl
  | some raw => exact Follows.map (each raw rfl) fun _ _ same => congrArg some same

/-- What every step of the first run keeps is there for each step of both. -/
theorem foldlM_keeping {γ : Type} (kept : α → Prop) {related : α → β → Prop} {items : List γ}
    {step : α → γ → Except ε α} {step' : β → γ → Except ε β}
    (keeps : ∀ state, ∀ item ∈ items, ∀ after, kept state → step state item = .ok after → kept after)
    (both : ∀ state state', ∀ item ∈ items, kept state → related state state' →
      Follows related (step state item) (step' state' item))
    {start : α} {start' : β} (good : kept start) (initial : related start start') :
    Follows (fun state state' => kept state ∧ related state state') (items.foldlM step start)
      (items.foldlM step' start') := by
  refine .foldlM (fun state state' item listed ⟨holds, same⟩ => ?_) ⟨good, initial⟩
  exact (both state state' item listed holds same).imp fun after _ taken alike =>
    ⟨keeps state item listed after holds taken, alike⟩

/-- A pass over elements that both runs take, and then over others that the second run alone takes. -/
theorem foldlM_append {γ : Type} (later : β → Prop) {related : α → β → Prop}
    {items added all : List γ} (split : all = items ++ added) {step : α → γ → Except ε α}
    {step' : β → γ → Except ε β} {start final : α} {start' final' : β}
    (accepted : items.foldlM step start = .ok final)
    (accepted' : all.foldlM step' start' = .ok final')
    (both : Follows related (items.foldlM step start) (items.foldlM step' start'))
    (implied : ∀ state', related final state' → later state')
    (own : ∀ item ∈ added, ∀ state' after, later state' → step' state' item = .ok after →
      later after) : later final' := by
  rw [split, List.foldlM_append] at accepted'
  obtain ⟨middle, first, second⟩ := bind_ok accepted'
  obtain ⟨reached, same, holds⟩ := both final accepted
  cases first.symm.trans same
  exact foldlM_preserves second later (implied _ holds) own

end Outcome.Follows

namespace Model

/-- The next methods have the identifiers that they are moved to. -/
structure Aligned (move : MethodId → MethodId) (part whole : Model) : Prop extends
    Within move part whole where
  methods : ∀ count, move ⟨part.methods.size + count⟩ = ⟨whole.methods.size + count⟩

theorem Aligned.grown {move : MethodId → MethodId} {part whole more more' : Model}
    (aligned : Aligned move part whole) (within : Within move more more')
    (one : more.methods.size = part.methods.size + 1)
    (one' : more'.methods.size = whole.methods.size + 1) : Aligned move more more' where
  toWithin := within
  methods count := by rw [one, one', Nat.add_assoc, Nat.add_assoc, aligned.methods]

/-- The next attributes and bitfields have the same identifiers, too. -/
structure Abreast (move : MethodId → MethodId) (part whole : Model) : Prop extends
    Aligned move part whole where
  attributes : whole.attributes.size = part.attributes.size
  bitfields : whole.bitfields.size = part.bitfields.size

end Model

namespace Resolution

variable {move : MethodId → MethodId} {part whole : Model}

/-- The accessor comes with the insertion. -/
theorem readAttribute_fresh {model : Model} {owner : RecordId} {path : String}
    {declaration : Declaration.Attribute} {attr : Attribute}
    (accepted : readAttribute model owner path declaration = .ok attr) :
    attr.owner = owner ∧ attr.accessor = none := by
  simp only [readAttribute] at accepted
  split at accepted
  · obtain ⟨_, _, accepted⟩ := bind_ok accepted
    obtain ⟨_, _, accepted⟩ := bind_ok accepted
    obtain ⟨_, _, accepted⟩ := bind_ok accepted
    obtain ⟨_, _, accepted⟩ := bind_ok accepted
    cases accepted
    exact ⟨rfl, rfl⟩
  · cases accepted

section Reading

variable (within : Within move part whole) (closed : part.Closed) {owner : RecordId}
  (inside : owner.index < part.records.size)

include within inside

private theorem exprContext_within (path : String) :
    exprContext whole owner path = exprContext part owner path := by
  rw [exprContext, within.record owner inside]
  rfl

include closed

private theorem readAttribute_extends (path : String) (declaration : Declaration.Attribute) :
    Follows (· = ·) (readAttribute part owner path declaration)
      (readAttribute whole owner path declaration) := by
  rw [readAttribute, readAttribute, exprContext_within within inside]
  cases declaration.typeName with
  | none => exact .error
  | some typeName =>
    refine (within.lookupType_follows closed inside path typeName).bind fun type _ _ _ same => ?_
    subst same
    exact .refl _

end Reading

/-!
## Attributes
-/

section Attributes

variable (abreast : Abreast move part whole) (closed : part.Closed)

include abreast closed

private theorem insertAttribute_extends {attr : Attribute} (inside : attr.owner.index < part.records.size)
    (unread : attr.accessor = none) (path name : String) :
    Follows (Abreast move) (insertAttribute part path name attr)
      (insertAttribute whole path name attr) := by
  rw [insertAttribute_eq, insertAttribute_eq, abreast.attributes]
  refine .guarded (abreast.methodClash closed inside name) fun _ => .ok ?_
  have census := part.census_withReadAttribute attr (accessorOf name ⟨part.attributes.size⟩ attr)
  have census' := whole.census_withReadAttribute attr (accessorOf name ⟨part.attributes.size⟩ attr)
  have within := abreast.toWithin.withReadAttributes abreast.attributes (abreast.methods 0) unread
    (accessorOf name ⟨part.attributes.size⟩ attr)
  have aligned := abreast.toAligned.grown within (congrArg Census.methods census)
    (congrArg Census.methods census')
  have size := congrArg Census.attributes census
  have size' := congrArg Census.attributes census'
  exact
    { aligned with
      attributes := size'.trans ((congrArg Nat.succ abreast.attributes).trans size.symm)
      bitfields := abreast.bitfields }

private theorem insertBitfield_extends {owner : RecordId} (inside : owner.index < part.records.size)
    {bitfield : Bitfield} (unread : bitfield.accessor = none) (access : Access) (path name : String) :
    Follows (Abreast move) (insertBitfield part owner access path name bitfield)
      (insertBitfield whole owner access path name bitfield) := by
  rw [insertBitfield_eq, insertBitfield_eq, abreast.bitfields]
  refine .guarded (abreast.methodClash closed inside name) fun _ => .ok ?_
  have census := part.census_withReadBitfield bitfield
    (bitAccessorOf owner access name ⟨part.bitfields.size⟩ bitfield)
  have census' := whole.census_withReadBitfield bitfield
    (bitAccessorOf owner access name ⟨part.bitfields.size⟩ bitfield)
  have within := abreast.toWithin.withReadBitfields abreast.bitfields (abreast.methods 0) unread
    (bitAccessorOf owner access name ⟨part.bitfields.size⟩ bitfield)
  have aligned := abreast.toAligned.grown within (congrArg Census.methods census)
    (congrArg Census.methods census')
  have size := congrArg Census.bitfields census
  have size' := congrArg Census.bitfields census'
  exact
    { aligned with
      attributes := (congrArg Census.attributes census').trans
        (abreast.attributes.trans (congrArg Census.attributes census).symm)
      bitfields := size'.trans ((congrArg Nat.succ abreast.bitfields).trans size.symm) }

private theorem addBitfield_extends (context : BitfieldContext)
    (inside : context.owner.index < part.records.size) (placed : List PlacedBits)
    (declaration : Declaration.Bitfield) :
    Follows (fun after after' => Abreast move after.1 after'.1 ∧ after'.2 = after.2)
      (addBitfield context (part, placed) declaration)
      (addBitfield context (whole, placed) declaration) := by
  refine (Follows.refl (placeBits context.path context.storage placed declaration)).bind
    fun bits _ _ _ same => ?_
  subst same
  have insert : ∀ type : TypeRef,
      Follows (Abreast move)
        (insertBitfield part context.owner context.access (context.path ++ "." ++ declaration.name)
          (declaration.accessor.getD declaration.name)
          { name := declaration.name, attr := context.attr, offset := bits.start,
            width := bits.stop - bits.start, type, comment := declaration.comment })
        (insertBitfield whole context.owner context.access (context.path ++ "." ++ declaration.name)
          (declaration.accessor.getD declaration.name)
          { name := declaration.name, attr := context.attr, offset := bits.start,
            width := bits.stop - bits.start, type, comment := declaration.comment }) :=
    fun type => insertBitfield_extends abreast closed inside rfl context.access _ _
  cases declaration.typeName with
  | none => exact (insert (.builtin context.storage)).bind fun _ _ _ _ later => .ok ⟨later, rfl⟩
  | some name =>
    refine (abreast.lookupType_follows closed inside _ name).bind fun type _ _ _ same => ?_
    subst same
    exact (insert type).bind fun _ _ _ _ later => .ok ⟨later, rfl⟩

end Attributes

/-- All bitfields of an attribute that has just been added. -/
theorem addBitfields_extends (abreast : Abreast move part whole) (sound : part.Sound)
    {owner : RecordId} {id : AttributeId} (inside : id.index < part.attributes.size)
    (owned : (part.attr id).owner = owner) (path typeName : String)
    (declarations : List Declaration.Bitfield) :
    Follows (Abreast move) (addBitfields part owner id path typeName declarations)
      (addBitfields whole owner id path typeName declarations) := by
  have there : owner.index < part.records.size := owned ▸ (sound.closed.attr inside).owner
  have storage : bitStorage? (whole.attr id) = bitStorage? (part.attr id) := by
    rw [abreast.attr id inside]
    rfl
  have access : (whole.attr id).access = (part.attr id).access := by
    rw [abreast.attr id inside]
    rfl
  rw [addBitfields, addBitfields, storage, access]
  refine .ite Iff.rfl (fun _ => .ok abreast) fun _ => ?_
  cases bitStorage? (part.attr id) with
  | none => exact .error
  | some storage =>
    let context : BitfieldContext := ⟨owner, id, (part.attr id).access, storage, path⟩
    have both : ∀ state state' : Model × List PlacedBits, ∀ declaration ∈ declarations,
        (Step part state.1 ∧ state.1.attributes.size = part.attributes.size ∧
          (state.1.attr id).owner = owner) →
        (Abreast move state.1 state'.1 ∧ state'.2 = state.2) →
          Follows (fun after after' => Abreast move after.1 after'.1 ∧ after'.2 = after.2)
            (addBitfield context state declaration) (addBitfield context state' declaration) := by
      rintro ⟨state, _⟩ ⟨state', placed⟩ declaration - ⟨step, _, _⟩ ⟨still, rfl⟩
      exact addBitfield_extends still step.sound.closed context (step.records.symm ▸ there) placed
        declaration
    have start : Abreast move (part, ([] : List PlacedBits)).1 (whole, ([] : List PlacedBits)).1 ∧
        ([] : List PlacedBits) = [] := ⟨abreast, rfl⟩
    refine (Follows.foldlM_keeping _ ?_ both ⟨.refl sound, rfl, owned⟩ start).map
      fun _ _ reached => reached.2.1
    rintro ⟨state, placed⟩ declaration - after ⟨step, size, holder⟩ taken
    obtain ⟨bitfield, rfl, unread, known, one⟩ := addBitfield_ok taken
    obtain ⟨later, same, owners⟩ :=
      insertBitfield_step step.sound (size ▸ inside) holder (known step.sound.closed) unread one
    exact ⟨step.trans later, same.trans size, (owners _).trans holder⟩

private theorem addAttribute_extends (abreast : Abreast move part whole) (sound : part.Sound)
    {owner : RecordId} (inside : owner.index < part.records.size) (typePath : String)
    (declaration : Declaration.Attribute) :
    Follows (Abreast move) (addAttribute owner typePath part declaration)
      (addAttribute owner typePath whole declaration) := by
  refine .guarded rfl fun _ =>
    .guarded (abreast.attributeClash sound.closed inside declaration.name) fun _ => ?_
  refine (readAttribute_extends abreast.toWithin sound.closed inside _ declaration).bind
    fun attr _ read _ same => ?_
  subst same
  obtain ⟨closed, fresh, rfl, empty⟩ := readAttribute_ok sound.closed inside read
  have unread := (readAttribute_fresh read).2
  rw [abreast.attributes]
  refine (insertAttribute_extends abreast sound.closed inside unread _ _).bind
    fun extended extended' inserted _ still => ?_
  obtain ⟨there, owned⟩ := insertAttribute_owned inserted
  exact addBitfields_extends still (insertAttribute_step sound closed fresh empty inserted).sound there
    owned _ _ declaration.bitfields

theorem resolveAttributes_extends (abreast : Abreast move part whole) (sound : part.Sound)
    {pending : Pending RecordId Declaration.Record} (inside : pending.id.index < part.records.size) :
    Follows (Abreast move) (resolveAttributes part pending) (resolveAttributes whole pending) := by
  refine (Follows.foldlM_keeping (Step part) ?_ ?_ (.refl sound) abreast).imp
    fun _ _ _ both => both.2
  · exact fun _ _ _ _ step taken =>
      step.trans (addAttribute_step step.sound (step.records.symm ▸ inside) taken)
  · exact fun _ _ declaration _ step still =>
      addAttribute_extends still step.sound (step.records.symm ▸ inside) pending.path declaration

/-- The attributes of a type that the larger model has alone. -/
theorem resolveAttributes_within {after : Model} (within : Within move part whole)
    {pending : Pending RecordId Declaration.Record} (outside : part.records.size ≤ pending.id.index)
    (accepted : resolveAttributes whole pending = .ok after) : Within move part after := by
  refine foldlM_preserves accepted (Within move part) within
    fun declaration _ state after still taken => ?_
  obtain ⟨attr, extended, _, read, inserted, bitfields⟩ := addAttribute_ok taken
  obtain ⟨owned, _⟩ := readAttribute_fresh read
  obtain ⟨accessor, holder, _, _, _, rfl⟩ := insertAttribute_ok inserted
  refine addBitfields_preserves bitfields (Within move part)
    (still.withReadAttribute (owned ▸ outside) (holder ▸ owned ▸ outside)) ?_
  rintro state next access path name bitfield here attr - - one
  obtain ⟨accessor, holder, _, _, _, rfl⟩ := insertBitfield_ok one
  exact here.withReadBitfield (attr ▸ still.census.attributes) (holder ▸ outside)

/-!
## Declared methods
-/

section Methods

variable (aligned : Aligned move part whole) (closed : part.Closed)

include aligned closed

private theorem addMethod_extends {method : Method} (inside : method.owner.index < part.records.size)
    (path : String) :
    Follows (fun after after' => Aligned move after.1 after'.1) (addMethod part path method)
      (addMethod whole path method) := by
  rw [addMethod_eq, addMethod_eq]
  refine .guarded (aligned.methodClash closed inside method.name) fun _ => .ok ?_
  exact aligned.grown (aligned.toWithin.withMethods (aligned.methods 0) method)
    (congrArg Census.methods (part.census_withMethod method))
    (congrArg Census.methods (whole.census_withMethod method))

private theorem addDeclaredMethod_extends {owner : RecordId} (inside : owner.index < part.records.size)
    (typePath : String) (declaration : Declaration.Method) :
    Follows (Aligned move) (addDeclaredMethod owner typePath part declaration)
      (addDeclaredMethod owner typePath whole declaration) := by
  have types := aligned.toWithin.lookupType_follows closed inside (typePath ++ "." ++ declaration.name)
  have results : Follows (· = ·)
      (resultOf part owner (typePath ++ "." ++ declaration.name) declaration.typeName)
      (resultOf whole owner (typePath ++ "." ++ declaration.name) declaration.typeName) := by
    cases declaration.typeName with
    | none => exact .ok rfl
    | some name =>
      exact .ite Iff.rfl (fun _ => .ok rfl) fun _ => (types name).map fun _ _ => congrArg some
  have arguments : Follows (· = ·)
      (declaration.arguments.mapM
        (resolveArgument part owner (typePath ++ "." ++ declaration.name)))
      (declaration.arguments.mapM
        (resolveArgument whole owner (typePath ++ "." ++ declaration.name))) := by
    refine .mapM_eq fun argument _ => ?_
    refine (Follows.optionMapM_eq fun name _ => types name).bind fun type _ _ _ same => .ok ?_
    rw [same]
  have bodies : Follows (· = ·)
      (bodyOf (exprContext part owner (typePath ++ "." ++ declaration.name)) declaration)
      (bodyOf (exprContext whole owner (typePath ++ "." ++ declaration.name)) declaration) := by
    rw [exprContext_within aligned.toWithin inside]
    exact .refl _
  refine .guarded rfl fun _ => results.bind fun result _ _ _ same => ?_
  subst same
  refine arguments.bind fun arguments _ _ _ same => ?_
  subst same
  refine bodies.bind fun body _ _ _ same => ?_
  subst same
  refine (Follows.refl (accessOf _ declaration.access)).bind fun access _ _ _ same => ?_
  subst same
  refine (addMethod_extends aligned closed ?_ _).bind fun _ _ _ _ later => .ok later
  rw [owner_tagged]
  exact inside

end Methods

theorem resolveMethods_extends (aligned : Aligned move part whole) (sound : part.Sound)
    {pending : Pending RecordId Declaration.Record} (inside : pending.id.index < part.records.size) :
    Follows (Aligned move) (resolveMethods part pending) (resolveMethods whole pending) := by
  refine (Follows.foldlM_keeping (Step part) ?_ ?_ (.refl sound) aligned).imp
    fun _ _ _ both => both.2
  · exact fun _ _ _ _ step taken =>
      step.trans (addDeclaredMethod_step step.sound (step.records.symm ▸ inside) taken)
  · exact fun _ _ declaration _ step still => addDeclaredMethod_extends still step.sound.closed
      (step.records.symm ▸ inside) pending.path declaration

/-- The methods of a type that the larger model has alone. -/
theorem resolveMethods_within {after : Model} (within : Within move part whole)
    {pending : Pending RecordId Declaration.Record} (outside : part.records.size ≤ pending.id.index)
    (accepted : resolveMethods whole pending = .ok after) : Within move part after := by
  refine foldlM_preserves accepted (Within move part) within
    fun declaration _ state after still taken => ?_
  obtain ⟨result, arguments, body, access, _, _, _, rfl⟩ := addDeclaredMethod_ok taken
  refine still.withMethod ?_
  rw [owner_tagged]
  exact outside

/-!
## Constructors
-/

section Constructors

variable (within : Within move part whole) (closed : part.Closed) {owner : RecordId}
  (inside : owner.index < part.records.size)

include within closed inside

private theorem destinationOf_within (path name : String) :
    destinationOf whole owner path name = destinationOf part owner path name := by
  rw [destinationOf, within.findDestination? closed inside]
  rfl

private theorem resolveConstructorArgument_extends (path : String)
    (declaration : Declaration.ConstructorArgument) :
    Follows (· = ·) (resolveConstructorArgument part owner path declaration)
      (resolveConstructorArgument whole owner path declaration) := by
  have destinations : destinationOf whole owner path = destinationOf part owner path :=
    funext (destinationOf_within within closed inside path)
  rw [resolveConstructorArgument, resolveConstructorArgument, destinations,
    exprContext_within within inside]
  refine (Follows.refl (declaration.destination.mapM (destinationOf part owner path))).bind
    fun destination _ found _ same => ?_
  subst same
  cases declaration.typeName with
  | some name =>
    refine (within.lookupType_follows closed inside path name).bind fun type _ _ _ same => ?_
    subst same
    exact .refl _
  | none =>
    cases destination with
    | none => exact .error
    | some destination =>
      obtain ⟨name, _, named⟩ := option_mapM_ok found destination rfl
      have known := destinationOf_inRange closed named
      have type : whole.destinationType destination = part.destinationType destination := by
        cases destination with
        | attr id =>
          rw [destinationType, within.attr id known]
          rfl
        | bitfield id =>
          rw [destinationType, within.bitfield id known]
          rfl
      dsimp only
      rw [type]
      exact .refl _

private theorem resolveConstructor_extends (path : String) (declaration : Declaration.Constructor) :
    Follows (· = ·) (resolveConstructor part owner path declaration)
      (resolveConstructor whole owner path declaration) := by
  refine (Follows.mapM_eq fun argument _ =>
    resolveConstructorArgument_extends within closed inside path argument).bind
      fun arguments _ _ _ same => ?_
  subst same
  have initializers : resolveInitializer whole owner path = resolveInitializer part owner path := by
    funext initializer
    rw [resolveInitializer, destinationOf_within within closed inside,
      exprContext_within within inside]
    rfl
  rw [initializers]
  exact .refl _

private theorem resolveConstructorsFrom_extends (path : String) (position : Nat)
    (declarations : List Declaration.Constructor) :
    Follows (· = ·) (resolveConstructorsFrom part owner path position declarations)
      (resolveConstructorsFrom whole owner path position declarations) := by
  induction declarations generalizing position with
  | nil => exact .ok rfl
  | cons declaration rest ih =>
    refine (resolveConstructor_extends within closed inside _ declaration).bind
      fun constructor _ _ _ same => ?_
    subst same
    refine (ih (position + 1)).bind fun others _ _ _ same => ?_
    subst same
    exact .refl _

end Constructors

theorem resolveConstructors_extends {state state' : Model × List Warning}
    (within : Within move state.1 state'.1) (closed : state.1.Closed)
    {pending : Pending RecordId Declaration.Record}
    (inside : pending.id.index < state.1.records.size) :
    Follows (fun after after' => Within move after.1 after'.1) (resolveConstructors state pending)
      (resolveConstructors state' pending) := by
  refine (resolveConstructorsFrom_extends within closed inside pending.path 0
    pending.declaration.constructors).bind fun result _ _ _ same => ?_
  subst same
  exact .ok (within.modifyRecords pending.id fun _ => rfl)

/-- The constructors of a type that the larger model has alone. -/
theorem resolveConstructors_within {state' after : Model × List Warning}
    (within : Within move part state'.1) {pending : Pending RecordId Declaration.Record}
    (outside : part.records.size ≤ pending.id.index)
    (accepted : resolveConstructors state' pending = .ok after) : Within move part after.1 := by
  simp only [resolveConstructors] at accepted
  obtain ⟨_, _, accepted⟩ := bind_ok accepted
  cases accepted
  exact within.modifyRecord outside _

end Resolution

end RecordSchema
