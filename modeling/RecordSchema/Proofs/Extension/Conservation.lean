import RecordSchema.Proofs.Extension.Declarations
import RecordSchema.Proofs.Extension.Placement
import RecordSchema.Proofs.Extension.Values
import RecordSchema.Proofs.Layout.Storage
import RecordSchema.Proofs.Renaming.Flags

/-!
# Units that are added

Units whose outermost packages have new names add to a model and change nothing of what is there: no name
is hidden, no type is laid out in another way, and no mark or schema becomes another one. Expressions of a
type name members of the type and of its bases, so a round raises the flags of the smaller model alike in
the larger one, which may need more rounds. Whether attributes are stored follows from the type and from
its base.
-/

set_option autoImplicit false

namespace RecordSchema

open Model Outcome

namespace Layout

variable {move : MethodId → MethodId} {part whole : Model}

/-!
## Flags
-/

section Round

variable (within : Within move part whole) (closed : part.Closed)

include within closed

private theorem memberDepends_within {owner : RecordId} (inside : owner.index < part.records.size) :
    memberDepends whole owner = memberDepends part owner := by
  funext name
  rw [memberDepends, memberDepends, within.findAttribute? closed inside,
    within.findMethod? closed inside]
  cases owned : part.findAttribute? owner name with
  | some attr =>
    simp only [within.attr attr (closed.findAttribute? owned)]
    rfl
  | none =>
    cases named : part.findMethod? owner name with
    | some method => simp only [Option.map_some, (within.method method (closed.findMethod? named)).2]
    | none => rfl

private theorem exprDepends_within {owner : RecordId} (inside : owner.index < part.records.size) :
    exprDepends whole owner = exprDepends part owner := by
  funext expr
  rw [exprDepends, memberDepends_within within closed inside]
  rfl

private theorem attributeDepends_within {id : AttributeId} (inside : id.index < part.attributes.size) :
    attributeDepends whole ((part.attr id).renumber move) = attributeDepends part (part.attr id) := by
  have held := closed.attr inside
  have embeds : embedsDependent whole (part.attr id) = embedsDependent part (part.attr id) := by
    have types := held.type
    unfold embedsDependent
    cases known : (part.attr id).type with
    | record target =>
      rw [known] at types
      simp only [within.record target (inRange_cons.mp types).1]
      rfl
    | enumeration _ | builtin _ => rfl
  change attributeDepends whole (part.attr id) = _
  rw [attributeDepends, exprDepends_within within closed held.owner, embeds]
  rfl

private theorem methodDepends_within {id : MethodId} (inside : id.index < part.methods.size) :
    methodDepends whole (part.method id) = methodDepends part (part.method id) := by
  have held : InRange part.census (part.method id).references := closed.methods.getD inside default
  have owner : (part.method id).owner.index < part.records.size := by
    simp only [Method.references, inRange_append, inRange_cons] at held
    exact held.1.1.1
  rw [methodDepends_eq, methodDepends_eq, exprDepends_within within closed owner]
  have reads : whole.readBy (part.method id).body = part.readBy (part.method id).body := by
    have body := closed.methodBody inside
    unfold readBy
    cases known : (part.method id).body with
    | bitfield bitfield =>
      rw [known] at body
      simp only [within.bitfield bitfield (inRange_cons.mp body).1]
      rfl
    | attr _ | expressions _ | code _ | external => rfl
  rw [reads]
  cases read : part.readBy (part.method id).body with
  | none => rfl
  | some attr =>
    simp only [within.attr attr (closed.readBy inside attr read)]
    rfl

private theorem raiseFlags_within : Within move (raiseFlags part) (raiseFlags whole) := by
  refine within.derive (agree_raiseFlags part) (agree_raiseFlags whole) ?_ ?_ ?_
  · intro id inside
    rw [record_raiseFlags, record_raiseFlags, within.record id inside,
      exprDepends_within within closed inside]
    rfl
  · intro id inside
    rw [attr_raiseFlags, attr_raiseFlags, within.attr id inside,
      attributeDepends_within within closed inside]
    rfl
  · intro id inside
    rw [method_raiseFlags, method_raiseFlags, (within.method id inside).2,
      methodDepends_within within closed inside]

private theorem rounds_within (count : Nat) :
    Within move (raiseFlags^[count] part) (raiseFlags^[count] whole) := by
  induction count generalizing part whole with
  | zero => exact within
  | succ count ih =>
    have agree : Agree .marks part (raiseFlags part) :=
      (agree_raiseFlags part).coarsen (fun _ => rfl) (fun _ => rfl) fun _ => rfl
    refine ih (raiseFlags_within within closed) ?_
    rw [Closed, agree.census]
    exact agree.closed closed

/-- However many rounds there are, the same flags are raised. -/
theorem withDependence_within : Within move (withDependence part) (withDependence whole) := by
  obtain ⟨enough, same⟩ := withDependence_eq part
  obtain ⟨enough', same'⟩ := withDependence_eq whole
  rw [same (max enough enough') (Nat.le_max_left ..), same' (max enough enough') (Nat.le_max_right ..)]
  exact rounds_within within closed _

end Round

/-!
## Storage
-/

/-- The marks of stored attributes. -/
def stores : Forget where
  attr item := { item with stored := false }
  record item := item
  method item := item

private theorem eq_of_stores {attr other : Attribute} (same : stores.attr other = stores.attr attr)
    (stored : other.stored = attr.stored) : other = attr :=
  calc other
      = { stores.attr other with stored := other.stored } := rfl
    _ = { stores.attr attr with stored := attr.stored } := by rw [same, stored]
    _ = attr := rfl

private theorem marksOf_within {ids : List AttributeId}
    (same : ∀ id ∈ ids, stores.attr (whole.attr id) = stores.attr ((part.attr id).renumber move))
    (storing : Bool) (stop : Option Int) :
    marksOf storing stop (ids.map whole.attr) = marksOf storing stop (ids.map part.attr) := by
  induction ids generalizing storing stop with
  | nil => rfl
  | cons id rest ih =>
    obtain ⟨here, later⟩ := List.forall_mem_cons.mp same
    have range : fixedRange (whole.attr id) = fixedRange (part.attr id) := (congrArg fixedRange here :)
    have next : storedStop (whole.attr id) = storedStop (part.attr id) := (congrArg storedStop here :)
    simp only [List.map_cons, marksOf, range, next, ih later, List.length_map]

/-- What the marks of a type follow from is the same in both models if its base is. -/
theorem storage_within {id : RecordId} (record : whole.record id = (part.record id).renumber move)
    (based : ∀ base, (part.record id).base = some base → SameType move part whole base) :
    baseStored whole (whole.record id) = baseStored part (part.record id) ∧
      storageStart whole (whole.record id) = storageStart part (part.record id) := by
  have base : (whole.record id).base = (part.record id).base := (congrArg Record.base record :)
  simp only [baseStored, storageStart, base]
  cases found : (part.record id).base with
  | none => exact ⟨rfl, rfl⟩
  | some target =>
    have same := based target found
    have attributes : (whole.record target).attributes = (part.record target).attributes :=
      (congrArg Record.attributes same.record :)
    have size : (whole.record target).size = (part.record target).size :=
      (congrArg Record.size same.record :)
    simp only [Option.all_some, attributes, size, and_true]
    rw [Bool.eq_iff_iff, List.all_eq_true, List.all_eq_true]
    refine forall₂_congr fun attr listed => ?_
    rw [same.attributes attr listed]
    rfl

/-- There is one way to mark the attributes of a type. -/
theorem Marked.determined {id : RecordId} (marked : Marked part id) (marked' : Marked whole id)
    (record : whole.record id = (part.record id).renumber move)
    (same : ∀ attr ∈ (part.record id).attributes,
      stores.attr (whole.attr attr) = stores.attr ((part.attr attr).renumber move))
    (based : ∀ base, (part.record id).base = some base → SameType move part whole base) :
    SameType move part whole id where
  record := record
  attributes attr listed := by
    obtain ⟨storing, start⟩ := storage_within record based
    have attributes : (whole.record id).attributes = (part.record id).attributes :=
      (congrArg Record.attributes record :)
    rw [Marked, storing, start, attributes, marksOf_within same, marked] at marked'
    have stored := List.map_inj_left.mp (Option.some.inj marked') attr listed
    exact eq_of_stores (same attr listed) stored.symm

/-- Types of the smaller model have the same marks in the larger one. -/
theorem withStorage_within {resolved resolved' stored stored' : Model} (within : Within move part whole)
    (linked : resolved.Linked) (linked' : resolved'.Linked) {order order' : List RecordId}
    (isOrder : IsOrder resolved order) (isOrder' : IsOrder resolved' order')
    (derived : Agree .derived resolved part) (derived' : Agree .derived resolved' whole)
    (unstored : ∀ id, (part.attr id).stored = false) (unstored' : ∀ id, (whole.attr id).stored = false)
    (accepted : withStorage part order = some stored)
    (accepted' : withStorage whole order' = some stored') : Within move stored stored' := by
  have agree : Agree stores part stored := agree_withStorage (fun _ => rfl) accepted
  have agree' : Agree stores whole stored' := agree_withStorage (fun _ => rfl) accepted'
  have marked := withStorage_marked linked isOrder derived unstored accepted
  have marked' := withStorage_marked linked' isOrder' derived' unstored' accepted'
  have attributes : ∀ id, (stored.record id).attributes = (resolved.record id).attributes := fun id =>
    (congrArg Record.attributes (agree.record id) :).trans
      (derived.recordField Record.attributes (fun _ => rfl) id)
  have bases : ∀ id, (stored.record id).base = (resolved.record id).base := fun id =>
    (congrArg Record.base (agree.record id) :).trans (derived.base id)
  have same : ∀ id : RecordId, id.index < resolved.records.size → SameType move stored stored' id := by
    refine isOrder.induction linked.closed fun id inside earlier => ?_
    have here : id.index < part.records.size := derived.recordCount.symm ▸ inside
    have there : id.index < resolved'.records.size :=
      derived'.recordCount ▸ Nat.lt_of_lt_of_le here within.census.records
    have record := within.recordForgotten agree agree' id here fun _ => rfl
    refine (marked id inside).determined (marked' id there) record (fun attr listed => ?_)
      fun base found => earlier base (dependsOn_base (bases id ▸ found))
    have held := linked.closed.recordAttributes id attr (attributes id ▸ listed)
    exact within.attrForgotten agree agree' attr (derived.attributeCount.symm ▸ held) fun _ => rfl
  refine within.derive agree agree' (fun id inside => ?_) (fun id inside => ?_)
    fun id inside => within.methodForgotten agree agree' id inside
  · exact (same id (derived.recordCount ▸ inside)).record
  · have known : id.index < resolved.attributes.size := derived.attributeCount ▸ inside
    have listed := (linked.attributes.mem_iff known).mpr rfl
    rw [← attributes] at listed
    exact (same _ (linked.closed.attr known).owner).attributes id listed

end Layout

/-!
## Units with new names
-/

theorem Model.Within.isEmitted {move : MethodId → MethodId} {part whole : Model}
    (within : Within move part whole) (closed : part.Closed) {id : RecordId}
    (inside : id.index < part.records.size) : whole.isEmitted id = part.isEmitted id := by
  have package := (closed.record inside).package
  have around : ((part.enclosing (part.record id).package).all fun outer =>
      !(whole.package outer).external) =
        (part.enclosing (part.record id).package).all fun outer => !(part.package outer).external := by
    rw [Bool.eq_iff_iff, List.all_eq_true, List.all_eq_true]
    refine forall₂_congr fun outer listed => ?_
    rw [within.package outer (closed.enclosing package outer listed)]
  have enclosing := within.enclosing closed package
  simp only [Model.isEmitted, within.record id inside, Record.renumber, enclosing, around]

namespace Stages

variable {units added : List SourceUnit} {built extended : Built} (stages : Stages units built)
  (stages' : Stages (units ++ added) extended)
  (apart : ∀ source ∈ added, ∀ declaration ∈ source.document.packages,
    ∀ name ∈ declaration.outermost?, built.model.outermost? name = none)

include stages stages' apart

theorem beyond : stages.draft.Beyond stages'.draft := by
  have roots := stages.retained.roots
  refine Draft.ofUnits_beyond stages.named stages'.named fun source listed declaration held name head => ?_
  rw [Model.outermost?, ← roots, ← Model.outermost?]
  exact apart source listed declaration held name head

/-- Each stage leaves what is built of the first units within what is built of all. -/
theorem within : ∃ move : MethodId → MethodId, Function.Injective move ∧
    built.model.Within move extended.model := by
  have beyond := stages.beyond stages' apart
  have consistent := Draft.ofUnits_consistent stages.named
  have linked := stages.isResolved.sound.toLinked
  have linked' := stages'.isResolved.sound.toLinked
  obtain ⟨passes⟩ := Resolution.resolveDeclarations_passes stages.resolution
  obtain ⟨passes'⟩ := Resolution.resolveDeclarations_passes stages'.resolution
  obtain ⟨move, injective, resolved⟩ := Resolution.resolved_within beyond consistent
    (Draft.ofUnits_consistent stages'.named) passes passes'
  refine ⟨move, injective, ?_⟩
  have placed := Layout.placeRecords_within resolved linked linked' (Layout.order_ok stages.ordered)
    (Layout.order_ok stages'.ordered) stages.placement stages'.placement
  have placedClosed : stages.placed.Closed := by
    rw [Closed, stages.agree_placed.census]
    exact Layout.placeRecords_closed linked.closed stages.placement
  have flagged := Layout.withDependence_within placed placedClosed
  have derived : ∀ {units : List SourceUnit} {built : Built} (stages : Stages units built),
      Agree .derived stages.resolved (Layout.withDependence stages.placed) := fun stages =>
    .trans (stages.agree_placed.coarsen (fun _ => rfl) (fun _ => rfl) fun _ => rfl)
      ((Layout.agree_withDependence _).coarsen (fun _ => rfl) (fun _ => rfl) fun _ => rfl)
  have stored := Layout.withStorage_within flagged linked linked' (Layout.order_ok stages.ordered)
    (Layout.order_ok stages'.ordered) (derived stages) (derived stages') stages.unstored
    stages'.unstored stages.storage stages'.storage
  obtain ⟨more, split, outside⟩ := beyond.records
  have records := stages.retained.records
  have recordCount := stages.agree_stored.recordCount
  refine Resolution.pass_within split (.refl stages.stored_sound) stages.schemas stages'.schemas stored
    (fun _ _ _ _ kept taken => Resolution.resolveSchemas_step kept.sound taken)
    (fun pending waits state _ kept here => ?_) (fun _ here => here)
    fun pending listed _ _ here taken => Resolution.resolveSchemas_within here
      (records ▸ outside pending listed) taken
  have inside := consistent.records pending (Array.mem_toList_iff.mp waits)
  rw [← records, recordCount, ← kept.records] at inside
  exact Resolution.resolveSchemas_extends here kept.sound.closed inside

end Stages

/-- Units whose outermost packages are named like no outermost package before and like no built-in type
change nothing of what is declared before: its references, its layout, its marks, its schemas and what is
emitted of it. -/
theorem build_extended {units added : List SourceUnit} {built extended : Built}
    (accepted : build units = .ok built) (accepted' : build (units ++ added) = .ok extended)
    (apart : ∀ source ∈ added, ∀ declaration ∈ source.document.packages,
      ∀ name ∈ declaration.outermost?,
        built.model.roots.lookup name = none ∧ Builtin.ofName? name = none) :
    ∃ move : MethodId → MethodId, Function.Injective move ∧ built.model.Within move extended.model ∧
      ∀ id : RecordId, id.index < built.model.records.size →
        extended.model.isEmitted id = built.model.isEmitted id := by
  obtain ⟨stages⟩ := build_stages accepted
  obtain ⟨stages'⟩ := build_stages accepted'
  obtain ⟨move, injective, within⟩ := stages.within stages' fun source listed declaration held name head =>
    Model.outermost?_eq_none.mpr (apart source listed declaration held name head)
  exact ⟨move, injective, within, fun id inside => within.isEmitted stages.sound.closed inside⟩

/-- A type with a table whose number of rows is an expression of its own. -/
def plantUnits : List SourceUnit :=
  let frame : Declaration.Record :=
    { name := "Frame",
      attributes :=
        [{ name := "count", typeName := some "uint16_t" },
          { name := "rows", typeName := some "uint32_t", shape := ["\x7bself\x7d.count()"] }],
      methods :=
        [{ name := "size", typeName := some "uint16_t",
           expressions := [("Any", "\x7bself\x7d.count()*4")] }] }
  [{ document := { packages := [.mk "Plant" none [] [] [] [] [frame]] } }]

/-- A type of the same name in another package, and one that extends the first. -/
def addedUnits : List SourceUnit :=
  let frame : Declaration.Record :=
    { name := "Frame", attributes := [{ name := "count", typeName := some "uint8_t" }] }
  let scan : Declaration.Record :=
    { name := "Scan", base := some "Plant.Frame",
      attributes := [{ name := "frame", typeName := some "Frame" }] }
  [{ document := { packages := [.mk "Survey" none [] [] [] [] [frame, scan]] } }]

theorem build_extended_sample :
    ∃ built extended, build plantUnits = .ok built ∧ build (plantUnits ++ addedUnits) = .ok extended ∧
      (built.model.record ⟨0⟩).methods = [⟨0⟩, ⟨1⟩, ⟨2⟩] ∧
      (extended.model.record ⟨0⟩).methods = [⟨0⟩, ⟨1⟩, ⟨4⟩] ∧
      ∃ move : MethodId → MethodId, Function.Injective move ∧ built.model.Within move extended.model ∧
        ∀ id : RecordId, id.index < built.model.records.size →
          extended.model.isEmitted id = built.model.isEmitted id := by
  have computed : ∃ built, build plantUnits = .ok built ∧
      (built.model.record ⟨0⟩).methods = [⟨0⟩, ⟨1⟩, ⟨2⟩] ∧
      ∀ source ∈ addedUnits, ∀ declaration ∈ source.document.packages,
        ∀ name ∈ declaration.outermost?,
          built.model.roots.lookup name = none ∧ Builtin.ofName? name = none :=
    exists_built (by decide +kernel)
  obtain ⟨built, accepted, methods, apart⟩ := computed
  have computed : ∃ extended, build (plantUnits ++ addedUnits) = .ok extended ∧
      (extended.model.record ⟨0⟩).methods = [⟨0⟩, ⟨1⟩, ⟨4⟩] :=
    exists_built (by decide +kernel)
  obtain ⟨extended, accepted', methods'⟩ := computed
  exact ⟨built, extended, accepted, accepted', methods, methods',
    build_extended accepted accepted' apart⟩

end RecordSchema
