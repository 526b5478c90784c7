import RecordSchema.Cpp.Operands
import RecordSchema.Proofs.Expr.Requests
import RecordSchema.Proofs.Layout.Consecutive
import RecordSchema.Proofs.Model.Inheritance

/-!
# Inherited sizes

The size of a base is copied into the types that extend it, and the members that it names are looked up
there again. Nothing keeps such a type from declaring one of these names a second time, and then the
offsets that start with the size no longer mean what the size means in the base. Without that they do.
-/

set_option autoImplicit false

namespace RecordSchema

open Model

namespace Model

private theorem mem_of_findAttribute? {model : Model} {id : RecordId} {name : String} {attr : AttributeId}
    (found : model.findAttribute? id name = some attr) :
    ∃ holder ∈ model.lineage id, attr ∈ (model.record holder).attributes := by
  obtain ⟨holder, on, own⟩ := List.exists_of_findSome?_eq_some found
  exact ⟨holder, on, List.mem_of_find?_eq_some own⟩

theorem mem_of_findMethod? {model : Model} {id : RecordId} {name : String} {method : MethodId}
    (found : model.findMethod? id name = some method) :
    ∃ holder ∈ model.lineage id, method ∈ (model.record holder).methods := by
  obtain ⟨holder, on, own⟩ := List.exists_of_findSome?_eq_some found
  exact ⟨holder, on, List.mem_of_find?_eq_some own⟩

/-- No method belongs to two types. -/
theorem Linked.listedMethodOnce {model : Model} (linked : model.Linked) {left right : RecordId}
    {method : MethodId} (one : method ∈ (model.record left).methods)
    (other : method ∈ (model.record right).methods) : left = right := by
  have inRange := linked.closed.recordMethods left method one
  exact ((linked.methods.mem_iff inRange).mp one).symm.trans ((linked.methods.mem_iff inRange).mp other)

/-- A name means the same in two types: the same attribute and the same method, if any. -/
def MeansSame (model : Model) (first second : RecordId) (name : String) : Prop :=
  model.findAttribute? first name = model.findAttribute? second name ∧
    model.findMethod? first name = model.findMethod? second name

namespace Intact

variable {model : Model} (intact : model.Intact) {id base : RecordId}
  (inside : id.index < model.records.size) (extended : (model.record id).base = some base)

include intact inside extended

private theorem not_mem_lineage_of_base : id ∉ model.lineage base := by
  have distinct := (intact.lineage id inside).1.nodup
  rw [intact.lineage_of_base inside extended] at distinct
  exact (List.nodup_cons.mp distinct).1

/-- What a type that extends another declares itself is none of what the other has or inherits. -/
theorem meansSame_iff (name : String) : model.MeansSame id base name ↔ name ∉ model.ownNames id := by
  have apart := intact.not_mem_lineage_of_base inside extended
  rw [MeansSame, intact.findAttribute?_of_base inside extended,
    intact.findMethod?_of_base inside extended, ← own_eq_none_iff]
  constructor
  · rintro ⟨attributes, methods⟩
    constructor
    · by_contra declared
      obtain ⟨attr, own⟩ := Option.ne_none_iff_exists'.mp declared
      rw [own, Option.some_or] at attributes
      obtain ⟨holder, on, listed⟩ := mem_of_findAttribute? attributes.symm
      have same := intact.toLinked.listedOnce (List.mem_of_find?_eq_some own) listed
      exact apart (same ▸ on)
    · by_contra declared
      obtain ⟨method, own⟩ := Option.ne_none_iff_exists'.mp declared
      rw [own, Option.some_or] at methods
      obtain ⟨holder, on, listed⟩ := mem_of_findMethod? methods.symm
      have same := intact.toLinked.listedMethodOnce (List.mem_of_find?_eq_some own) listed
      exact apart (same ▸ on)
  · rintro ⟨attributes, methods⟩
    rw [attributes, methods, Option.none_or, Option.none_or]
    exact ⟨rfl, rfl⟩

end Intact

end Model

namespace Layout

variable {model : Model} {first second : RecordId}

private theorem exprDepends_congr {expr : Expr}
    (same : ∀ name ∈ expr.members, model.MeansSame first second name) :
    exprDepends model first expr = exprDepends model second expr := by
  have each : ∀ name ∈ expr.members, memberDepends model first name = memberDepends model second name := by
    intro name named
    obtain ⟨attributes, methods⟩ := same name named
    rw [memberDepends, attributes, methods, memberDepends]
  have members : expr.members.any (memberDepends model first) =
      expr.members.any (memberDepends model second) := by
    rw [Bool.eq_iff_iff, List.any_eq_true, List.any_eq_true]
    exact exists_congr fun name => and_congr_right fun named => by rw [each name named]
  rw [exprDepends, members, exprDepends]

private theorem render_spelling_congr {expr : Expr}
    (same : ∀ name ∈ expr.members, model.MeansSame first second name) :
    expr.render (Cpp.spelling model first) = expr.render (Cpp.spelling model second) := by
  refine Expr.render_congr fun request asked => ?_
  have mentioned := Expr.operand_of_mem_requests asked
  cases request with
  | member name =>
    obtain ⟨attributes, _⟩ := same name (Expr.mem_members.mpr mentioned)
    change (Cpp.spelling model first).member name = (Cpp.spelling model second).member name
    simp only [Cpp.spelling, attributes]
  | call name =>
    obtain ⟨_, methods⟩ := same name (Expr.mem_members.mpr mentioned)
    have needs : Cpp.callNeedsConfig model first name = Cpp.callNeedsConfig model second name := by
      rw [Cpp.callNeedsConfig, methods, Cpp.callNeedsConfig]
    change (Cpp.spelling model first).call name = (Cpp.spelling model second).call name
    simp only [Cpp.spelling, needs]
  | static | config => rfl

/-- A size that is no number is where the own attributes of an extending type start, as it stands. -/
theorem LaidOut.inherits {id base : RecordId} (laidOut : LaidOut model id)
    (extended : (model.record id).base = some base)
    (symbolic : (model.record base).size.isConstant = false) :
    ((model.record id).attributes = [] → (model.record id).size = (model.record base).size) ∧
      ∀ attr rest, (model.record id).attributes = attr :: rest →
        (model.attr attr).declaredOffset = none →
          (model.attr attr).offset = (model.record base).size := by
  obtain ⟨final, places, size, _⟩ := laidOut
  have start : (initialCursor model (model.record id)).stop = (model.record base).size := by
    rw [initialCursor, extended]
  constructor
  · intro none
    rw [none] at places
    cases places
    rw [size, start]
  · intro attr rest listed plain
    rw [listed] at places
    cases places with
    | cons first _ => rw [first.exact plain (.inr (start ▸ symbolic)), start]

/-- A type that extends another starts with the other's size. A name means the same in both if and only
if the extending type does not declare it itself; if it declares none that the size names, the size
depends on a config object in both or in none, and is written alike in both classes. -/
theorem build_inheritedSize {units : List SourceUnit} {built : Built}
    (accepted : build units = .ok built) {id base : RecordId}
    (inside : id.index < built.model.records.size)
    (extended : (built.model.record id).base = some base) :
    ((built.model.record base).size.isConstant = false →
      ((built.model.record id).attributes = [] →
        (built.model.record id).size = (built.model.record base).size) ∧
      ∀ attr rest, (built.model.record id).attributes = attr :: rest →
        (built.model.attr attr).declaredOffset = none →
          (built.model.attr attr).offset = (built.model.record base).size) ∧
    (∀ name, built.model.MeansSame id base name ↔ name ∉ built.model.ownNames id) ∧
    ((∀ name ∈ (built.model.record base).size.members, name ∉ built.model.ownNames id) →
      exprDepends built.model id (built.model.record base).size =
          exprDepends built.model base (built.model.record base).size ∧
        (built.model.record base).size.render (Cpp.spelling built.model id) =
          (built.model.record base).size.render (Cpp.spelling built.model base)) := by
  obtain ⟨stages⟩ := build_stages accepted
  have intact := stages.sound.intact fun _ inside => stages.basesEnd inside
  have means := intact.meansSame_iff inside extended
  refine ⟨(stages.laidOut inside).inherits extended, means, fun fresh => ?_⟩
  have same : ∀ name ∈ (built.model.record base).size.members,
      built.model.MeansSame id base name := fun name named => (means name).mpr (fresh name named)
  exact ⟨exprDepends_congr same, render_spelling_congr same⟩

/-- A type with as many bytes as its first attribute says, and one that extends it by an attribute and
some methods. -/
def extendedUnits (methods : List Declaration.Method) : List SourceUnit :=
  let first : Declaration.Record :=
    { name := "First"
      attributes := [{ name := "count", typeName := some "uint16_t" },
        { name := "data", typeName := some "uint8_t", shape := ["\x7bself\x7d.count()"] }] }
  let second : Declaration.Record :=
    { name := "Second", base := some "First", methods
      attributes := [{ name := "tail", typeName := some "uint32_t" }] }
  [{ document := { packages := [.mk "Sample" none [] [] [] [] [first, second]] } }]

theorem build_inheritedSize_sample : ∃ built, build (extendedUnits []) = .ok built ∧
    (built.model.attr ⟨2⟩).offset = (built.model.record ⟨0⟩).size ∧
    "count" ∈ (built.model.record ⟨0⟩).size.members ∧ built.model.MeansSame ⟨1⟩ ⟨0⟩ "count" ∧
    (built.model.record ⟨0⟩).size.render (Cpp.spelling built.model ⟨1⟩) =
      (built.model.record ⟨0⟩).size.render (Cpp.spelling built.model ⟨0⟩) := by
  have computed : ∃ built, build (extendedUnits []) = .ok built ∧ 1 < built.model.records.size ∧
      (built.model.record ⟨1⟩).base = some ⟨0⟩ ∧
      (built.model.record ⟨0⟩).size.isConstant = false ∧
      (built.model.record ⟨1⟩).attributes = [⟨2⟩] ∧ (built.model.attr ⟨2⟩).declaredOffset = none ∧
      "count" ∈ (built.model.record ⟨0⟩).size.members ∧
      ∀ name ∈ (built.model.record ⟨0⟩).size.members, name ∉ built.model.ownNames ⟨1⟩ :=
    exists_built (by decide +kernel)
  obtain ⟨built, accepted, inside, extended, symbolic, listed, plain, named, fresh⟩ := computed
  obtain ⟨starts, means, alike⟩ := build_inheritedSize accepted inside extended
  exact ⟨built, accepted, (starts symbolic).2 ⟨2⟩ [] listed plain, named,
    (means "count").mpr (fresh "count" named), (alike fresh).2⟩

/-- The extending type declares a method with the name that the size of its base names. -/
def capturedUnits : List SourceUnit :=
  extendedUnits [{ name := "count", typeName := some "uint32_t", expressions := [("Any", "5")] }]

/-- A name in the size of a base can mean something else in a type that extends it. -/
theorem build_not_inheritedSize : ∃ built, build capturedUnits = .ok built ∧
    ¬ ∀ id base : RecordId, id.index < built.model.records.size →
      (built.model.record id).base = some base →
        ∀ name ∈ (built.model.record base).size.members, built.model.MeansSame id base name := by
  have computed : ∃ built, build capturedUnits = .ok built ∧ 1 < built.model.records.size ∧
      (built.model.record ⟨1⟩).base = some ⟨0⟩ ∧
      "count" ∈ (built.model.record ⟨0⟩).size.members ∧
      built.model.findMethod? ⟨1⟩ "count" ≠ built.model.findMethod? ⟨0⟩ "count" :=
    exists_built (by decide +kernel)
  obtain ⟨built, accepted, inside, extended, named, different⟩ := computed
  exact ⟨built, accepted, fun all => different (all ⟨1⟩ ⟨0⟩ inside extended "count" named).2⟩

end Layout

end RecordSchema
