import Mathlib.Logic.Function.Basic
import RecordSchema.Proofs.Backend.Classes
import RecordSchema.Proofs.Backend.ConfigArgument
import RecordSchema.Proofs.Layout.Unconfigured

/-!
# Storage members that a class mentions

The storage members of a type are private in the class of the type. Accessors of attributes and of
bitfields stand in the class that has the storage, so what they mention is their own. An expression shows a
storage member where it reads the value of a stored attribute, inherited or not, and a constructor wherever
it assigns to one.
-/

set_option autoImplicit false

namespace RecordSchema.Accessors

open Cpp

/-!
## What is mentioned
-/

/-- The spelling of operands in the class of a record type with given names for storage members. -/
def spellingFields (field : AttributeId → String) (model : Model) (owner : RecordId) :
    Operand.Spelling :=
  { spelling model owner with
    member := fun name =>
      match model.findAttribute? owner name with
      | some id =>
        if (model.attr id).stored then thisObject ++ field id
        else attributeValue model (model.attr id)
      | none => thisObject ++ name }

/-- The text of an expression shows the storage member of an attribute: it depends on what the member is
called. -/
def ShowsStorage (model : Model) (owner : RecordId) (expr : Expr) (attr : AttributeId) : Prop :=
  ∃ word,
    expr.render (spellingFields
        (Function.update (fun id => (model.attr id).fieldName) attr word) model owner) ≠
      expr.render (spelling model owner)

/-- What a constructor assigns, in order. An argument without an expression is assigned itself. -/
def assignmentSources (constructor : Constructor) : List (Destination × Expr) :=
  constructor.arguments.filterMap (fun argument => argument.destination.map
      (·, argument.expression.getD (.operand (.text argument.name)))) ++
    constructor.initializers.map fun init => (init.destination, init.expression)

/-- The attribute that an assignment reaches. -/
def reachedAttribute (model : Model) : Destination → AttributeId
  | .attr id => id
  | .bitfield id => (model.bitfield id).attr

/-- The texts of values where they are assigned. -/
def sourceTexts (model : Model) (owner : RecordId) (sources : List (Destination × Expr)) :
    List (Destination × String) :=
  sources.map fun source => (source.1, source.2.render (spelling model owner))

/-- What comes of assigning texts one after the other. -/
def assembled (model : Model) (owner : RecordId) (texts : List (Destination × String)) :
    Option Assignments := do
  let direct ← texts.foldlM (assign model owner) {}
  some (direct.bits.foldl (assignJoined model owner) direct)

/-- Between other assignments, the value for a destination has a part in what is written: another text
for it makes a difference. (A scalar that is assigned again later loses its first value.) -/
def Counts (model : Model) (owner : RecordId) (front : List (Destination × Expr))
    (destination : Destination) (back : List (Destination × Expr)) : Prop :=
  ∃ one other : String,
    assembled model owner
        (sourceTexts model owner front ++ (destination, one) :: sourceTexts model owner back) ≠
      assembled model owner
        (sourceTexts model owner front ++ (destination, other) :: sourceTexts model owner back)

/-- The code of a class mentions the storage member of an attribute. -/
inductive MentionsField (model : Model) (id : RecordId) (attr : AttributeId) : Prop where
  /-- The accessor of a stored attribute. -/
  | accessor {method : MethodId} : method ∈ (model.record id).methods →
      (model.method method).body = .attr attr → (model.attr attr).stored = true → MentionsField model id attr
  /-- The accessor of bits of a stored attribute. -/
  | bits {method : MethodId} {bitfield : BitfieldId} : method ∈ (model.record id).methods →
      (model.method method).body = .bitfield bitfield → (model.bitfield bitfield).attr = attr →
      (model.attr attr).stored = true → MentionsField model id attr
  /-- An expression in the body of a method. -/
  | body {method : MethodId} {expr : Expr} : method ∈ (model.record id).methods →
      expr ∈ bodyExprs model (model.method method) → ShowsStorage model id expr attr →
      MentionsField model id attr
  | size : (model.record id).noSizeof = false → ShowsStorage model id (model.record id).size attr →
      MentionsField model id attr
  /-- A value that a constructor assigns. -/
  | value {constructor : Constructor} {front back : List (Destination × Expr)}
      {destination : Destination} {expr : Expr} : constructor ∈ (model.record id).constructors →
      isDefined model constructor = true →
      assignmentSources constructor = front ++ (destination, expr) :: back →
      Counts model id front destination back → ShowsStorage model id expr attr →
      MentionsField model id attr
  /-- What a constructor assigns to. -/
  | destination {constructor : Constructor} {destination : Destination} :
      constructor ∈ (model.record id).constructors → isDefined model constructor = true →
      destination ∈ (assignmentSources constructor).map Prod.fst →
      reachedAttribute model destination = attr → (model.attr attr).stored = true →
      MentionsField model id attr

/-- An expression reads the values of no stored attributes but those of the type itself. -/
def ReadsOwn (model : Model) (owner : RecordId) (expr : Expr) : Prop :=
  ∀ name, .member name ∈ expr.requests → ∀ attr, model.findAttribute? owner name = some attr →
    (model.attr attr).stored = true → (model.attr attr).owner = owner

/-- Neither expressions nor constructors of a class reach for storage that the type inherits. -/
structure KeepsOwn (model : Model) (id : RecordId) : Prop where
  bodies : ∀ method ∈ (model.record id).methods, ∀ expr ∈ bodyExprs model (model.method method),
    ReadsOwn model id expr
  size : (model.record id).noSizeof = false → ReadsOwn model id (model.record id).size
  values : ∀ constructor ∈ (model.record id).constructors, isDefined model constructor = true →
    ∀ front destination expr back, assignmentSources constructor = front ++ (destination, expr) :: back →
      Counts model id front destination back → ReadsOwn model id expr
  destinations : ∀ constructor ∈ (model.record id).constructors, isDefined model constructor = true →
    ∀ destination ∈ (assignmentSources constructor).map Prod.fst, reachesStorage model destination →
      (destinationAttribute model destination).owner = id

section Expressions

variable {model : Model} {owner : RecordId}

/-- Where the stored attribute of a name keeps its storage member, the member is spelled as before. -/
theorem spellingFields_member {field : AttributeId → String} {name : String}
    (same : ∀ id, model.findAttribute? owner name = some id → (model.attr id).stored = true →
      field id = (model.attr id).fieldName) :
    (spellingFields field model owner).member name = (spelling model owner).member name := by
  simp only [spellingFields, spelling]
  cases found : model.findAttribute? owner name with
  | none => rfl
  | some id =>
    cases stored : (model.attr id).stored with
    | false => simp [stored]
    | true => simp [stored, attributeValue, same id found stored]

/-- An expression shows the storage member of an attribute exactly where it reads the value of the
attribute, and that is stored. -/
theorem showsStorage_iff {expr : Expr} {attr : AttributeId} :
    ShowsStorage model owner expr attr ↔
      ∃ name, .member name ∈ expr.requests ∧ model.findAttribute? owner name = some attr ∧
        (model.attr attr).stored = true := by
  constructor
  · rintro ⟨word, different⟩
    by_contra unread
    refine different (Expr.render_congr fun request asked => ?_)
    cases request with
    | member name =>
      refine spellingFields_member fun id found stored => Function.update_of_ne ?_ _ _
      rintro rfl
      exact unread ⟨name, asked, found, stored⟩
    | call | static | config => rfl
  · rintro ⟨name, asked, found, stored⟩
    refine Expr.exists_render_ne asked (fun word => spellingFields
      (Function.update (fun id => (model.attr id).fieldName) attr word) model owner)
      (fun word => ?_) _
    simp only [Operand.Spelling.answerLength, spellingFields, found, stored, if_true,
      Function.update_self, String.length_append]
    omega

private theorem readsOwn_iff {expr : Expr} : ReadsOwn model owner expr ↔
    ∀ attr, ShowsStorage model owner expr attr → (model.attr attr).owner = owner := by
  constructor
  · intro own attr shows
    obtain ⟨name, asked, found, stored⟩ := showsStorage_iff.mp shows
    exact own name asked attr found stored
  · intro own name asked attr found stored
    exact own attr (showsStorage_iff.mpr ⟨name, asked, found, stored⟩)

private theorem destinationAttribute_eq (destination : Destination) :
    destinationAttribute model destination = model.attr (reachedAttribute model destination) := by
  cases destination <;> rfl

private theorem assignmentTexts_eq (constructor : Constructor) :
    assignmentTexts model owner constructor =
      sourceTexts model owner (assignmentSources constructor) := by
  simp only [assignmentTexts, sourceTexts, assignmentSources, List.map_append, List.map_map,
    List.map_filterMap]
  congr 1
  refine List.filterMap_congr fun argument _ => ?_
  cases argument.destination <;> cases argument.expression <;> rfl

/-- A constructor writes what comes of assigning its sources. -/
theorem assignments_eq_assembled (constructor : Constructor) :
    assignments model owner constructor =
      assembled model owner (sourceTexts model owner (assignmentSources constructor)) := by
  rw [← assignmentTexts_eq]
  rfl

end Expressions

/-- In the class of a type, accessors of attributes and of bitfields mention only storage of the type. All
that the class mentions is of the type if and only if nothing else in it reaches for storage that is
inherited. What its constructors write comes of the expressions that are assigned. -/
theorem build_ownStorage {units : List SourceUnit} {built : Built}
    (accepted : build units = .ok built) (id : RecordId) :
    ((∀ attr, MentionsField built.model id attr → (built.model.attr attr).owner = id) ↔
        KeepsOwn built.model id) ∧
      ∀ constructor ∈ (built.model.record id).constructors, assignments built.model id constructor =
        assembled built.model id (sourceTexts built.model id (assignmentSources constructor)) := by
  obtain ⟨stages⟩ := build_stages accepted
  have sound := stages.sound
  refine ⟨?_, fun constructor _ => assignments_eq_assembled constructor⟩
  constructor
  · intro own
    constructor
    case bodies =>
      intro method listed expr written
      exact readsOwn_iff.mpr fun attr shows => own attr (.body listed written shows)
    case size =>
      intro sized
      exact readsOwn_iff.mpr fun attr shows => own attr (.size sized shows)
    case values =>
      intro constructor listed defined front destination expr back split counts
      exact readsOwn_iff.mpr fun attr shows => own attr (.value listed defined split counts shows)
    case destinations =>
      intro constructor listed defined destination among stored
      rw [reachesStorage, destinationAttribute_eq] at stored
      rw [destinationAttribute_eq]
      exact own _ (.destination listed defined among rfl stored)
  · intro keeps attr mentions
    cases mentions with
    | accessor listed body stored => exact sound.owner (sound.attribute_of_reader listed body)
    | @bits method bitfield listed body reads stored =>
      have inside := sound.closed.recordMethods id method listed
      rw [← reads, stages.bitfield method bitfield body]
      exact (sound.methods.mem_iff inside).mp listed
    | body listed written shows => exact readsOwn_iff.mp (keeps.bodies _ listed _ written) attr shows
    | size sized shows => exact readsOwn_iff.mp (keeps.size sized) attr shows
    | value listed defined split counts shows =>
      exact readsOwn_iff.mp (keeps.values _ listed defined _ _ _ _ split counts) attr shows
    | destination listed defined among reaches stored =>
      have own := keeps.destinations _ listed defined _ among
      rw [reachesStorage, destinationAttribute_eq, reaches] at own
      exact own stored

/-- Types that extend another: one goes through an accessor for what it inherits, one reads it, and one
has a constructor that assigns to it. -/
def reachingUnits : List SourceUnit :=
  let own : List Declaration.Attribute := [{ name := "y", typeName := some "uint32_t" }]
  let base : Declaration.Record :=
    { name := "Base", attributes := [{ name := "x", typeName := some "uint32_t" }] }
  let twice (text : String) : Declaration.Method :=
    { name := "twice", typeName := some "uint32_t", expressions := [("Any", text)] }
  let polite : Declaration.Record :=
    { name := "Polite", base := some "Base", attributes := own
      methods := [twice "\x7bself\x7d.x()*2"]
      constructors := [{ arguments := [{ name := "value", destination := some "y" }] }] }
  let reading : Declaration.Record :=
    { name := "Reading", base := some "Base", attributes := own
      methods := [twice "\x7bself\x7d.x*2"] }
  let assigning : Declaration.Record :=
    { name := "Assigning", base := some "Base", attributes := own
      constructors := [{ arguments := [{ name := "value", destination := some "x" }] }] }
  [{ document := { packages := [.mk "Sample" none [] [] [] [] [base, polite, reading, assigning]] } }]

theorem build_ownStorage_sample : ∃ built, build reachingUnits = .ok built ∧
    MentionsField built.model ⟨1⟩ ⟨1⟩ ∧
    ∀ attr, MentionsField built.model ⟨1⟩ attr → (built.model.attr attr).owner = ⟨1⟩ := by
  have computed : ∃ built, build reachingUnits = .ok built ∧
      (built.model.attr ⟨1⟩).stored = true ∧
      (∃ method ∈ (built.model.record ⟨1⟩).methods, (built.model.method method).body = .attr ⟨1⟩) ∧
      (∀ method ∈ (built.model.record ⟨1⟩).methods,
        ∀ expr ∈ bodyExprs built.model (built.model.method method),
          ∀ request ∈ expr.requests, request = .call "x") ∧
      (built.model.record ⟨1⟩).size = .const 8 ∧
      ∀ constructor ∈ (built.model.record ⟨1⟩).constructors,
        ∀ source ∈ assignmentSources constructor, source.2.requests = [] ∧
          (destinationAttribute built.model source.1).owner = ⟨1⟩ := exists_built (by decide +kernel)
  obtain ⟨built, accepted, stored, ⟨method, listed, body⟩, calls, size, plain⟩ := computed
  refine ⟨built, accepted, .accessor listed body stored, (build_ownStorage accepted ⟨1⟩).1.mpr ?_⟩
  constructor
  case bodies =>
    intro method listed expr written name asked
    cases calls method listed expr written _ asked
  case size =>
    intro _ name asked
    rw [size] at asked
    cases asked
  case values =>
    intro constructor listed _ front destination expr back split _ name asked
    rw [(plain constructor listed (destination, expr) (by simp [split])).1] at asked
    cases asked
  case destinations =>
    intro constructor listed _ destination among _
    obtain ⟨source, one, rfl⟩ := List.mem_map.mp among
    exact (plain constructor listed source one).2

/-- A method whose text reads a storage member of the base, where the member is private, and a
constructor that assigns to it. -/
theorem build_not_ownStorage : ∃ built text base, build reachingUnits = .ok built ∧
    ⟨2⟩ ∈ built.model.emittedRecords ∧ classOf built.model ⟨2⟩ = some text ∧
    (text.members.any fun member =>
      match member with
      | (.publicly, .method _ _ body _) => body == some "return this->_x*2;"
      | _ => false) = true ∧
    classOf built.model ⟨0⟩ = some base ∧
    (base.members.any fun member =>
      match member with
      | (.privately, .field _ name _ _) => name == "_x"
      | _ => false) = true ∧
    MentionsField built.model ⟨2⟩ ⟨0⟩ ∧ MentionsField built.model ⟨3⟩ ⟨0⟩ ∧
    (built.model.attr ⟨0⟩).owner = ⟨0⟩ := by
  have computed : ∃ built, build reachingUnits = .ok built ∧
      ⟨2⟩ ∈ built.model.emittedRecords ∧
      ((classOf built.model ⟨2⟩).any fun text => text.members.any fun member =>
        match member with
        | (.publicly, .method _ _ body _) => body == some "return this->_x*2;"
        | _ => false) = true ∧
      ((classOf built.model ⟨0⟩).any fun base => base.members.any fun member =>
        match member with
        | (.privately, .field _ name _ _) => name == "_x"
        | _ => false) = true ∧
      (∃ method ∈ (built.model.record ⟨2⟩).methods,
        ∃ expr ∈ bodyExprs built.model (built.model.method method), .member "x" ∈ expr.requests) ∧
      built.model.findAttribute? ⟨2⟩ "x" = some ⟨0⟩ ∧
      (∃ constructor ∈ (built.model.record ⟨3⟩).constructors,
        isDefined built.model constructor = true ∧
          .attr ⟨0⟩ ∈ (assignmentSources constructor).map Prod.fst) ∧
      (built.model.attr ⟨0⟩).stored = true ∧ (built.model.attr ⟨0⟩).owner = ⟨0⟩ :=
    exists_built (by decide +kernel)
  obtain ⟨built, accepted, emitted, body, field, ⟨method, listed, expr, written, asked⟩, found,
    ⟨constructor, listedToo, defined, among⟩, stored, owner⟩ := computed
  obtain ⟨text, made, body⟩ := (Option.any_eq_true _ _).mp body
  obtain ⟨base, madeToo, field⟩ := (Option.any_eq_true _ _).mp field
  exact ⟨built, text, base, accepted, emitted, made, body, madeToo, field,
    .body listed written (showsStorage_iff.mpr ⟨"x", asked, found, stored⟩),
    .destination listedToo defined among rfl stored, owner⟩

end RecordSchema.Accessors
