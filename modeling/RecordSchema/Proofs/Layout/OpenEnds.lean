import RecordSchema.Proofs.Layout.Consecutive
import RecordSchema.Proofs.Model.Inheritance

/-!
# Ends without bound

No attribute of a type comes after one with a dimension without bound. That dimension does not
count, however, where the type is extended or embedded: the type ends where the attribute starts, and
so what is laid out behind the type starts there too.
-/

set_option autoImplicit false

namespace RecordSchema.Layout

open Model Outcome

/-- Nothing follows an attribute without bound in its own type. -/
def EndsOwn (model : Model) : Prop :=
  ∀ (id : RecordId) before tail rest, (model.record id).attributes = before ++ tail :: rest →
    isUnbounded (model.attr tail).shape = true → rest = []

/-- A type that extends, at any depth, a type with an attribute without bound declares where each of
its own attributes lies. -/
def EndsExtended (model : Model) : Prop :=
  ∀ (id holder : RecordId) tail, holder ∈ model.lineage id → holder ≠ id →
    tail ∈ (model.record holder).attributes → isUnbounded (model.attr tail).shape = true →
      ∀ attr ∈ (model.record id).attributes, (model.attr attr).declaredOffset ≠ none

/-- An attribute is part of a type: of its own, of its base, or of the type of an attribute of it. -/
inductive Contains (model : Model) : RecordId → AttributeId → Prop where
  | own {id : RecordId} {part : AttributeId} :
      part ∈ (model.record id).attributes → Contains model id part
  | inherited {id base : RecordId} {part : AttributeId} :
      (model.record id).base = some base → Contains model base part → Contains model id part
  | embedded {id target : RecordId} {attr part : AttributeId} :
      attr ∈ (model.record id).attributes → (model.attr attr).type = .record target →
      Contains model target part → Contains model id part

/-- What follows an attribute whose type contains one without bound declares where it lies. -/
def EndsEmbedded (model : Model) : Prop :=
  ∀ (id target : RecordId) before attr rest tail,
    (model.record id).attributes = before ++ attr :: rest → (model.attr attr).type = .record target →
      Contains model target tail → isUnbounded (model.attr tail).shape = true →
        ∀ next ∈ rest, (model.attr next).declaredOffset ≠ none

/-- The last part of a type has no bound and starts at a byte. The part may be that of the base, or
that of the last element of an attribute. -/
inductive OpensAt (model : Model) (valuation : Valuation) : RecordId → Int → Prop where
  | own {id : RecordId} {before : List AttributeId} {tail : AttributeId} :
      (model.record id).attributes = before ++ [tail] → isUnbounded (model.attr tail).shape = true →
      OpensAt model valuation id ((model.attr tail).offset.eval valuation)
  | inherited {id base : RecordId} {start : Int} :
      (model.record id).attributes = [] → (model.record id).base = some base →
      OpensAt model valuation base start → OpensAt model valuation id start
  | embedded {id target : RecordId} {before : List AttributeId} {attr : AttributeId} {start : Int} :
      (model.record id).attributes = before ++ [attr] → isUnbounded (model.attr attr).shape = false →
      0 < elements valuation (model.attr attr).shape → (model.attr attr).type = .record target →
      (model.record target).size.isConstant = true → OpensAt model valuation target start →
      OpensAt model valuation id ((model.attr attr).offset.eval valuation +
        start * elements valuation (model.attr attr).shape)

/-- An attribute of a type starts at a byte, or where alignment puts it after that if the type is
packed. -/
def Behind (model : Model) (valuation : Valuation) (id : RecordId) (attr : AttributeId)
    (place : Int) : Prop :=
  place ≤ (model.attr attr).offset.eval valuation ∧
    ((model.record id).pack = none → (model.attr attr).offset.eval valuation = place)

/-- What lies behind a type whose last part has no bound starts where the part does: the first
attribute of a type that extends it, and the attribute after one that holds such types. Where such a
type ends at no number, its elements are asked for their sizes. -/
structure EndsOpen (model : Model) (valuation : Valuation) (id : RecordId) (start : Int) : Prop where
  tail : ∃ tail, Contains model id tail ∧ isUnbounded (model.attr tail).shape = true
  size : (model.record id).size.eval valuation = start
  extended : ∀ derived attr rest, (model.record derived).base = some id →
    (model.record derived).attributes = attr :: rest → (model.attr attr).declaredOffset = none →
      Behind model valuation derived attr start
  embedded : ∀ outer before attr next rest,
    (model.record outer).attributes = before ++ attr :: next :: rest →
      (model.attr attr).type = .record id → (model.attr next).declaredOffset = none →
        ∃ bytes, Behind model valuation outer next ((model.attr attr).offset.eval valuation +
            bytes * elements valuation (model.attr attr).shape) ∧
          if (model.record id).size.isConstant then bytes = start
          else bytes = (dynamicSize model (model.attr attr)).eval valuation

theorem OpensAt.contains {model : Model} {valuation : Valuation} {id : RecordId} {start : Int}
    (opens : OpensAt model valuation id start) :
    ∃ tail, Contains model id tail ∧ isUnbounded (model.attr tail).shape = true := by
  induction opens with
  | @own id before tail listed unbounded => exact ⟨tail, .own (by simp [listed]), unbounded⟩
  | inherited _ extended _ ih =>
    obtain ⟨tail, part, unbounded⟩ := ih
    exact ⟨tail, .inherited extended part, unbounded⟩
  | @embedded id target before attr start listed _ _ type _ _ ih =>
    obtain ⟨tail, part, unbounded⟩ := ih
    exact ⟨tail, .embedded (by simp [listed]) type part, unbounded⟩

/-!
## What is laid out
-/

section Values

variable {model : Model} {valuation : Valuation} {pack : Option UInt32} {cursor next : Cursor}
  {id : RecordId} {attr : AttributeId}

variable (valuation) in
theorem Places.behind (places : Places model (model.record id).pack cursor attr next)
    (plain : (model.attr attr).declaredOffset = none) :
    Behind model valuation id attr (cursor.stop.eval valuation) :=
  ⟨places.stop_le valuation plain, fun unpacked => by rw [places.exact plain (.inl unpacked)]⟩

theorem Places.bounded (places : Places model pack cursor attr next)
    (notLast : next.openEnded = none) : isUnbounded (model.attr attr).shape = false := by
  refine Bool.eq_false_iff.mpr fun unbounded => ?_
  rw [places.openEnded, if_pos unbounded] at notLast
  cases notLast

private theorem LaidOut.endsOwn (laidOut : LaidOut model id) {before rest : List AttributeId}
    (listed : (model.record id).attributes = before ++ attr :: rest)
    (unbounded : isUnbounded (model.attr attr).shape = true) : rest = [] := by
  obtain ⟨final, places, _⟩ := laidOut
  rw [listed] at places
  obtain ⟨_, _, _, one, behind⟩ := places.split
  cases behind with
  | nil => rfl
  | cons first _ =>
    rw [one.bounded first.notLast] at unbounded
    cases unbounded

theorem LaidOut.bounded (laidOut : LaidOut model id) {before rest : List AttributeId}
    {following : AttributeId}
    (listed : (model.record id).attributes = before ++ attr :: following :: rest) :
    isUnbounded (model.attr attr).shape = false :=
  Bool.eq_false_iff.mpr fun unbounded => nomatch laidOut.endsOwn listed unbounded

/-- The size of an element of some type, as it is laid out. -/
theorem LaidOut.elementSize (laidOut : LaidOut model id) {target : RecordId}
    (listed : attr ∈ (model.record id).attributes)
    (type : (model.attr attr).type = .record target) :
    (model.attr attr).elementSize = if (model.record target).size.isConstant
      then (model.record target).size else dynamicSize model (model.attr attr) := by
  obtain ⟨_, _, one⟩ := laidOut.exists_places listed
  rw [one.elementSize, elementLayout, type]
  dsimp only
  split <;> rfl

private theorem LaidOut.eval_size (laidOut : LaidOut model id) :
    (model.record id).size.eval valuation =
      endOf model valuation (model.record id) (model.record id).attributes := by
  obtain ⟨final, places, size, _⟩ := laidOut
  rw [size, eval_runningEnd valuation places.runningEnd]

private theorem LaidOut.eval_size_of_concat (laidOut : LaidOut model id) {before : List AttributeId}
    (listed : (model.record id).attributes = before ++ [attr]) :
    (model.record id).size.eval valuation =
      (model.attr attr).offset.eval valuation + extent valuation (model.attr attr) := by
  rw [laidOut.eval_size, endOf, listed, List.getLast?_concat]

/-- The first attribute of a type lies behind its base. -/
theorem LaidOut.behind_base (laidOut : LaidOut model id) {base : RecordId} {rest : List AttributeId}
    (extended : (model.record id).base = some base)
    (listed : (model.record id).attributes = attr :: rest)
    (plain : (model.attr attr).declaredOffset = none) :
    Behind model valuation id attr ((model.record base).size.eval valuation) := by
  obtain ⟨final, places, _⟩ := laidOut
  rw [listed] at places
  cases places with
  | cons first _ =>
    have behind := first.behind valuation plain
    rwa [initialCursor, extended] at behind

variable (valuation) in
/-- An attribute lies behind the one before it. -/
theorem LaidOut.behind_attr (laidOut : LaidOut model id) {before rest : List AttributeId}
    {following : AttributeId}
    (listed : (model.record id).attributes = before ++ attr :: following :: rest)
    (plain : (model.attr following).declaredOffset = none) :
    Behind model valuation id following
      ((model.attr attr).offset.eval valuation + extent valuation (model.attr attr)) := by
  obtain ⟨final, places, _⟩ := laidOut
  rw [listed] at places
  obtain ⟨_, middle, _, one, places⟩ := places.split
  cases places with
  | cons two _ =>
    rw [← eval_stopAfter valuation one.stop]
    exact two.behind valuation plain

end Values

section Types

variable {model : Model} {valuation : Valuation} {id : RecordId} {start : Int}
  (laidOut : ∀ id : RecordId, id.index < model.records.size → LaidOut model id)

include laidOut

private theorem endsOwn_of_laidOut : EndsOwn model := by
  intro id before tail rest listed unbounded
  have inside : id.index < model.records.size :=
    inside_of_mem Record.attributes rfl (listed ▸ List.mem_append_right before List.mem_cons_self)
  exact (laidOut id inside).endsOwn listed unbounded

/-- A type whose last part has no bound ends where the part starts. -/
theorem OpensAt.size (opens : OpensAt model valuation id start) :
    (model.record id).size.eval valuation = start := by
  induction opens with
  | @own id before tail listed unbounded =>
    have inside := inside_of_mem Record.attributes rfl
      (listed ▸ List.mem_append_right before List.mem_cons_self)
    rw [(laidOut id inside).eval_size_of_concat listed, extent, if_pos unbounded, Int.add_zero]
  | @inherited id base start none extended _ ih =>
    have inside : id.index < model.records.size := inside_of_ne Record.base (extended ▸ nofun)
    rw [(laidOut id inside).eval_size, endOf, none, extended]
    exact ih
  | @embedded id target before attr start listed bounded _ type constant _ ih =>
    have held : attr ∈ (model.record id).attributes :=
      listed ▸ List.mem_append_right before List.mem_cons_self
    have laidOut := laidOut id (inside_of_mem Record.attributes rfl held)
    rw [laidOut.eval_size_of_concat listed, extent, if_neg (Bool.eq_false_iff.mp bounded),
      laidOut.elementSize held type, if_pos constant, ih]

private theorem OpensAt.endsOpen (opens : OpensAt model valuation id start) :
    EndsOpen model valuation id start := by
  have size := opens.size laidOut
  constructor
  case tail => exact opens.contains
  case size => exact size
  case extended =>
    intro derived attr rest extended listed plain
    have inside : derived.index < model.records.size := inside_of_ne Record.base (extended ▸ nofun)
    exact size ▸ (laidOut derived inside).behind_base extended listed plain
  case embedded =>
    intro outer before attr next rest listed type plain
    have held : attr ∈ (model.record outer).attributes :=
      listed ▸ List.mem_append_right before List.mem_cons_self
    have laidOut := laidOut outer (inside_of_mem Record.attributes rfl held)
    have behind := laidOut.behind_attr valuation listed plain
    rw [extent, if_neg (Bool.eq_false_iff.mp (laidOut.bounded listed))] at behind
    refine ⟨_, behind, ?_⟩
    rw [laidOut.elementSize held type]
    split
    · exact size
    · rfl

end Types

/-!
## What is refused
-/

/-- An attribute comes right after one without bound. -/
def FollowsOpen (model : Model) (id : RecordId) (previous next : AttributeId) : Prop :=
  isUnbounded (model.attr previous).shape = true ∧
    ∃ before rest, (model.record id).attributes = before ++ previous :: next :: rest

/-- The refusal of such an attribute. -/
def followError (model : Model) (id : RecordId) (previous next : AttributeId) : SchemaError :=
  .invalidShape (model.recordPath id ++ "." ++ (model.attr next).name)
    (.afterUnbounded (model.attr previous).name)

section Refusal

variable {model : Model} {fault : Fault}

private theorem placeAttribute_error {pack : Option UInt32} {path : String} {cursor : Cursor}
    {attr : AttributeId} (failed : placeAttribute pack path (model, cursor) attr = .error fault) :
    fault = .overflow ∨ ∃ previous, cursor.openEnded = some previous ∧
      fault = .schema
        (.invalidShape (path ++ "." ++ (model.attr attr).name) (.afterUnbounded previous)) := by
  simp only [placeAttribute, bind, Except.bind] at failed
  cases last : cursor.openEnded with
  | some previous =>
    simp only [last, refuse] at failed
    cases failed
    exact .inr ⟨previous, rfl, rfl⟩
  | none =>
    simp only [last] at failed
    left
    rcases bind_error failed with failed | ⟨offset, _, failed⟩
    · exact orOverflow_error failed
    rcases bind_error failed with failed | ⟨stop, _, failed⟩
    · exact orOverflow_error failed
    · cases failed

/-- The name that a cursor has for an attribute without bound is that of the last one placed. -/
theorem openEnded_of_placed {after : Model} {pack : Option UInt32} {path : String}
    {cursor final : Cursor} {ids : List AttributeId} {name : String}
    (accepted : ids.foldlM (placeAttribute pack path) (model, cursor) = .ok (after, final))
    (start : cursor.openEnded = none) (last : final.openEnded = some name) :
    ∃ before previous, ids = before ++ [previous] ∧
      isUnbounded (model.attr previous).shape = true ∧ (model.attr previous).name = name := by
  rcases List.eq_nil_or_concat ids with rfl | ⟨before, previous, rfl⟩
  · cases accepted
    rw [start] at last
    cases last
  · rw [List.concat_eq_append, List.foldlM_append] at accepted
    obtain ⟨⟨state, reached⟩, earlier, accepted⟩ := bind_ok accepted
    rw [List.foldlM_cons] at accepted
    obtain ⟨⟨placed, next⟩, taken, accepted⟩ := bind_ok accepted
    cases accepted
    have agree := placeAttributes_agree earlier
    obtain ⟨_, _, _, _, _, _, _, openEnded, _⟩ := placeAttribute_ok taken
    rw [agree.attrField Attribute.shape fun _ => rfl, agree.attrField Attribute.name fun _ => rfl,
      last] at openEnded
    split at openEnded
    · rename_i unbounded
      cases openEnded
      exact ⟨before, previous, List.concat_eq_append, unbounded, rfl⟩
    · cases openEnded

private theorem placeRecord_error {id : RecordId} (failed : placeRecord model id = .error fault) :
    fault = .overflow ∨
      ∃ previous next, FollowsOpen model id previous next ∧
        fault = .schema (followError model id previous next) := by
  simp only [placeRecord] at failed
  rcases bind_error failed with failed | ⟨_, _, failed⟩
  · obtain ⟨seen, next, rest, ⟨state, cursor⟩, split, taken, failed⟩ := foldlM_error failed
    rcases placeAttribute_error failed with overflow | ⟨name, last, refused⟩
    · exact .inl overflow
    · have start : (initialCursor model (model.record id)).openEnded = none := by
        unfold initialCursor
        split <;> rfl
      obtain ⟨before, previous, rfl, unbounded, rfl⟩ := openEnded_of_placed taken start last
      refine .inr ⟨previous, next, ⟨unbounded, before, rest, by simp [split]⟩, ?_⟩
      rw [refused, followError, (placeAttributes_agree taken).attrField Attribute.name fun _ => rfl]
  · cases failed

section Agreement

variable {before after : Model} (agree : Agree .layout before after) (id : RecordId)
  (previous next : AttributeId)

include agree

private theorem followsOpen_agree :
    FollowsOpen after id previous next ↔ FollowsOpen before id previous next := by
  rw [FollowsOpen, FollowsOpen, agree.attrField Attribute.shape fun _ => rfl,
    agree.recordField Record.attributes fun _ => rfl]

private theorem followError_agree :
    followError after id previous next = followError before id previous next := by
  have derived : Agree .derived before after :=
    agree.coarsen (fun _ => rfl) (fun _ => rfl) fun _ => rfl
  have names := agree.attrField Attribute.name fun _ => rfl
  simp only [followError, derived.recordPath, names]

end Agreement

/-- Placement refuses a model for an attribute that comes after one without bound, and otherwise only
for a number that is no word. -/
theorem placeRecords_error {order : List RecordId}
    (failed : order.foldlM placeRecord model = .error fault) :
    fault = .overflow ∨
      ∃ id previous next, FollowsOpen model id previous next ∧
        fault = .schema (followError model id previous next) := by
  obtain ⟨_, id, _, state, _, taken, failed⟩ := foldlM_error failed
  have agree := placeRecords_agree taken
  rcases placeRecord_error failed with overflow | ⟨previous, next, follows, refused⟩
  · exact .inl overflow
  · rw [followsOpen_agree agree] at follows
    rw [followError_agree agree] at refused
    exact .inr ⟨id, previous, next, follows, refused⟩

/-- The model of some units before placement, and the order in which its types are placed. -/
def ReachesPlacement (units : List SourceUnit) (resolved : Model) (ordered : List RecordId) : Prop :=
  ∃ draft warnings, Draft.ofUnits units = .ok draft ∧
    Resolution.resolveDeclarations draft = .ok ⟨resolved, warnings⟩ ∧ order resolved = .ok ordered

theorem build_of_placement_error {units : List SourceUnit} {resolved : Model}
    {ordered : List RecordId} (reached : ReachesPlacement units resolved ordered)
    (failed : ordered.foldlM placeRecord resolved = .error fault) : build units = .error fault := by
  obtain ⟨draft, warnings, named, resolution, sorted⟩ := reached
  simp only [build, named, resolution, Resolution.layOut, orderOrRefuse, sorted, bind, Except.bind,
    failed, orRefuse]

end Refusal

/-- In a built model nothing follows an attribute without bound in its own type, but what extends or
follows a type that ends with such an attribute starts where the attribute starts. Units with a type
in which something follows such an attribute are refused for that, unless a number is no word. -/
theorem build_openEnds (units : List SourceUnit) :
    (∀ built, build units = .ok built →
      EndsOwn built.model ∧
        ∀ valuation id start, OpensAt built.model valuation id start →
          EndsOpen built.model valuation id start) ∧
      ∀ resolved ordered, ReachesPlacement units resolved ordered →
        (∃ id previous next, FollowsOpen resolved id previous next) →
          build units = .error .overflow ∨
            ∃ id previous next, FollowsOpen resolved id previous next ∧
              build units = .error (.schema (followError resolved id previous next)) := by
  constructor
  · intro built accepted
    obtain ⟨stages⟩ := build_stages accepted
    have laidOut : ∀ id : RecordId, id.index < built.model.records.size → LaidOut built.model id :=
      fun _ inside => stages.laidOut inside
    exact ⟨endsOwn_of_laidOut laidOut, fun _ _ _ opens => opens.endsOpen laidOut⟩
  · rintro resolved ordered reached ⟨id, previous, next, follows⟩
    cases placement : ordered.foldlM placeRecord resolved with
    | error fault =>
      rw [build_of_placement_error reached placement]
      rcases placeRecords_error placement with rfl | ⟨id, previous, next, follows, rfl⟩
      · exact .inl rfl
      · exact .inr ⟨id, previous, next, follows, rfl⟩
    | ok placed =>
      exfalso
      obtain ⟨draft, warnings, named, resolution, sorted⟩ := reached
      have isResolved :=
        Resolution.resolveDeclarations_ok (Draft.ofUnits_consistent named) resolution
      obtain ⟨agree, laidOut⟩ := placeRecords_laidOut isResolved.sound.toLinked (order_ok sorted)
        placement
      rw [← agree.recordCount] at laidOut
      obtain ⟨unbounded, before, rest, listed⟩ :=
        (followsOpen_agree agree id previous next).mpr follows
      cases endsOwn_of_laidOut laidOut id before previous (next :: rest) listed unbounded

/-- A type that ends with an attribute without bound, and some other types. -/
def openUnits (others : List Declaration.Record) : List SourceUnit :=
  let first : Declaration.Record :=
    { name := "Open"
      attributes := [{ name := "head", typeName := some "uint32_t" },
        { name := "tail", typeName := some "uint8_t", shape := ["*"] }] }
  [{ document := { packages := [.mk "Sample" none [] [] [] [] (first :: others)] } }]

/-- One type extends the type by an attribute, and one has an attribute behind two of it. -/
def behindUnits : List SourceUnit :=
  openUnits
    [{ name := "Extended", base := some "Open"
       attributes := [{ name := "own", typeName := some "uint8_t" }] },
      { name := "Embedding"
        attributes := [{ name := "parts", typeName := some "Open", shape := ["2"] },
          { name := "after", typeName := some "uint8_t" }] }]

/-- A type has an attribute behind its own attribute without bound. -/
def followedUnits : List SourceUnit :=
  openUnits
    [{ name := "Followed"
       attributes := [{ name := "tail", typeName := some "uint8_t", shape := ["*"] },
         { name := "after", typeName := some "uint8_t" }] }]

theorem build_openEnds_sample :
    (∃ built, build behindUnits = .ok built ∧
      OpensAt built.model ⟨fun _ => 0, fun _ => 0⟩ ⟨0⟩ 4 ∧
      Behind built.model ⟨fun _ => 0, fun _ => 0⟩ ⟨1⟩ ⟨2⟩ 4 ∧
      Behind built.model ⟨fun _ => 0, fun _ => 0⟩ ⟨2⟩ ⟨4⟩ 8) ∧
    ∃ resolved ordered, ReachesPlacement followedUnits resolved ordered ∧
      FollowsOpen resolved ⟨1⟩ ⟨2⟩ ⟨3⟩ ∧ ∃ fault, build followedUnits = .error fault := by
  constructor
  · have computed : ∃ built, build behindUnits = .ok built ∧
        (built.model.record ⟨0⟩).attributes = [⟨0⟩] ++ [⟨1⟩] ∧
        isUnbounded (built.model.attr ⟨1⟩).shape = true ∧
        (built.model.attr ⟨1⟩).offset = .const 4 ∧
        ((built.model.record ⟨1⟩).base = some ⟨0⟩ ∧ (built.model.record ⟨1⟩).attributes = [⟨2⟩] ∧
          (built.model.attr ⟨2⟩).declaredOffset = none) ∧
        (built.model.record ⟨2⟩).attributes = [] ++ ⟨3⟩ :: ⟨4⟩ :: [] ∧
        (built.model.attr ⟨3⟩).type = .record ⟨0⟩ ∧
        (built.model.record ⟨0⟩).size.isConstant = true ∧
        (built.model.attr ⟨4⟩).declaredOffset = none ∧ (built.model.attr ⟨3⟩).offset = .const 0 ∧
        elements ⟨fun _ => 0, fun _ => 0⟩ (built.model.attr ⟨3⟩).shape = 2 :=
      exists_built (by decide +kernel)
    obtain ⟨built, accepted, listed, unbounded, start, ⟨extended, own, plain⟩, others, type, constant,
      plain', first, count⟩ := computed
    have opens : OpensAt built.model ⟨fun _ => 0, fun _ => 0⟩ ⟨0⟩ 4 := by
      have opens : OpensAt built.model ⟨fun _ => 0, fun _ => 0⟩ ⟨0⟩ _ := .own listed unbounded
      rwa [start] at opens
    have ends := ((build_openEnds behindUnits).1 built accepted).2 _ ⟨0⟩ 4 opens
    obtain ⟨bytes, behind, each⟩ := ends.embedded ⟨2⟩ [] ⟨3⟩ ⟨4⟩ [] others type plain'
    rw [if_pos constant] at each
    rw [first, count, each] at behind
    exact ⟨built, accepted, opens, ends.extended ⟨1⟩ ⟨2⟩ [] extended own plain, behind⟩
  · have computed : ((Draft.ofUnits followedUnits).toOption.any fun draft =>
        (Resolution.resolveDeclarations draft).toOption.any fun resolved =>
          (order resolved.model).toOption.any fun _ =>
            decide (isUnbounded (resolved.model.attr ⟨2⟩).shape = true ∧
              (resolved.model.record ⟨1⟩).attributes = [] ++ ⟨2⟩ :: ⟨3⟩ :: [])) = true := by
      decide +kernel
    simp only [Option.any_eq_true, toOption_eq_some, decide_eq_true_eq] at computed
    obtain ⟨draft, named, resolved, resolution, ordered, sorted, unbounded, listed⟩ := computed
    have reached : ReachesPlacement followedUnits resolved.model ordered :=
      ⟨draft, resolved.warnings, named, resolution, sorted⟩
    have follows : FollowsOpen resolved.model ⟨1⟩ ⟨2⟩ ⟨3⟩ := ⟨unbounded, [], [], listed⟩
    refine ⟨resolved.model, ordered, reached, follows, ?_⟩
    rcases (build_openEnds followedUnits).2 _ _ reached ⟨_, _, _, follows⟩ with
      refused | ⟨_, _, _, _, refused⟩
    · exact ⟨_, refused⟩
    · exact ⟨_, refused⟩

/-- Attributes that do not declare where they lie can be laid out behind a type without bound. -/
theorem build_not_openEnds : ∃ built, build behindUnits = .ok built ∧
    ¬ EndsExtended built.model ∧ ¬ EndsEmbedded built.model := by
  have computed : ∃ built, build behindUnits = .ok built ∧
      ⟨1⟩ ∈ (built.model.record ⟨0⟩).attributes ∧ isUnbounded (built.model.attr ⟨1⟩).shape = true ∧
      (⟨0⟩ ∈ built.model.lineage ⟨1⟩ ∧ ⟨2⟩ ∈ (built.model.record ⟨1⟩).attributes ∧
        (built.model.attr ⟨2⟩).declaredOffset = none) ∧
      (built.model.record ⟨2⟩).attributes = [] ++ ⟨3⟩ :: [⟨4⟩] ∧
      (built.model.attr ⟨3⟩).type = .record ⟨0⟩ ∧ (built.model.attr ⟨4⟩).declaredOffset = none :=
    exists_built (by decide +kernel)
  obtain ⟨built, accepted, listed, unbounded, ⟨on, own, plain⟩, others, type, plain'⟩ := computed
  refine ⟨built, accepted, fun all => ?_, fun all => ?_⟩
  · exact all ⟨1⟩ ⟨0⟩ ⟨1⟩ on (by decide) listed unbounded ⟨2⟩ own plain
  · exact all ⟨2⟩ ⟨0⟩ [] ⟨3⟩ [⟨4⟩] ⟨1⟩ others type (.own listed) unbounded ⟨4⟩ List.mem_cons_self
      plain'

end RecordSchema.Layout
