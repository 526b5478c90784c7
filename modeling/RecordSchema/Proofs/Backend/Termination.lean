import RecordSchema.Proofs.Backend.ConfigArgument
import RecordSchema.Proofs.Backend.Overflow
import RecordSchema.Proofs.Layout.InheritedSizes
import RecordSchema.Proofs.Layout.Requests
import RecordSchema.Proofs.Walks

/-!
# Accessors that read each other

The address of an attribute that is not stored is computed from other members, by calls of their
accessors and of methods. Nothing keeps declarations from naming members in a circle, and then a read
does not end. Nothing else makes circles, as long as no elements of an array are asked for their size:
an accessor calls what the declarations of its attribute and of those before it name.
-/

set_option autoImplicit false

namespace RecordSchema

open Model Layout

namespace Accessors

/-!
## Calls
-/

/-- The method that gives the value of a whole attribute in the class of a type, if it is not
stored. -/
def valueMethod? (model : Model) (owner : RecordId) (attr : Attribute) : Option MethodId :=
  if attr.stored then none else model.findMethod? owner (model.accessorName attr)

/-- The method that is run for a request in the class of a type. -/
def requestMethod? (model : Model) (owner : RecordId) : Request → Option MethodId
  | .call name => model.findMethod? owner name
  | .member name =>
    (model.findAttribute? owner name).bind fun id => valueMethod? model owner (model.attr id)
  | .static _ _ => none
  | .config _ _ => none

/-- The methods that are run for some requests and for the values that a method takes. -/
def methodsFor (model : Model) (method : Method) (requests : List Request) : List MethodId :=
  requests.filterMap (requestMethod? model method.owner) ++
    (bodyValues model method).filterMap (valueMethod? model method.owner)

/-- The methods that the body written for a method calls. -/
def calledMethods (model : Model) (method : Method) : List MethodId :=
  methodsFor model method ((bodyExprs model method).flatMap Expr.requests)

def Calls (model : Model) (caller callee : MethodId) : Prop :=
  callee ∈ calledMethods model (model.method caller)

/-- A read of what a method gives comes to an end: every chain of calls within the instance does. -/
def Terminates (model : Model) (id : MethodId) : Prop :=
  Acc (fun callee caller => Calls model caller callee) id

/-- What the declarations of an attribute and of those before it ask for. -/
def addressRequests (model : Model) (id : AttributeId) : List Request :=
  offsetRequests model id ++ countRequests (model.attr id) (model.attr id).shape.tail

/-- What the declarations behind the body of a method ask for. All but addresses is written out as it is
declared. -/
def declaredRequests (model : Model) (method : Method) : List Request :=
  match method.body with
  | .attr id => if (model.attr id).stored then [] else addressRequests model id
  | _ => (bodyExprs model method).flatMap Expr.requests

/-- The methods that the declarations behind the body of a method name. -/
def mentionedMethods (model : Model) (method : Method) : List MethodId :=
  methodsFor model method (declaredRequests model method)

def Mentions (model : Model) (caller callee : MethodId) : Prop :=
  callee ∈ mentionedMethods model (model.method caller)

/-- Whether a method gives an element of an array whose elements are asked for their size. -/
def asksElements (model : Model) (method : Method) : Bool :=
  match method.body with
  | .attr id => decide (0 < (model.attr id).rank) && !(model.attr id).elementSize.isConstant
  | _ => false

/-- Whether a body can be written for a method, if it has one, and does not ask the elements of an
array for their size. -/
def isRegular (model : Model) (id : MethodId) : Bool :=
  let method := model.method id
  (methodBody model method.owner method).isSome && !asksElements model method

section Addresses

variable {elementSize offset address : Expr} {position : Nat} {dimensions : List Dimension}

/-- Strides ask for the dimensions behind the first one, unless elements have no extent. The strides of
later indices ask for fewer. -/
theorem mem_requests_addStrides {request : Request}
    (computed : addStrides elementSize position offset dimensions = some address)
    (silent : elementSize.requests = [])
    (nonzero : ∀ count ∈ dimensions.filterMap Dimension.count?, count ≠ .const 0) :
    request ∈ address.requests ↔ request ∈ offset.requests ∨
      elementSize ≠ .const 0 ∧
        request ∈ (dimensions.tail.filterMap Dimension.count?).flatMap Expr.requests := by
  induction dimensions generalizing position offset with
  | nil =>
    cases computed
    simp
  | cons dimension rest ih =>
    rw [addStrides] at computed
    obtain ⟨step, strided, computed⟩ := Option.bind_eq_some_iff.mp computed
    obtain ⟨distance, multiplied, computed⟩ := Option.bind_eq_some_iff.mp computed
    obtain ⟨reached, added, computed⟩ := Option.bind_eq_some_iff.mp computed
    have others : ∀ count ∈ rest.filterMap Dimension.count?, count ≠ .const 0 :=
      fun count listed => nonzero count (filterMap_count_tail listed)
    obtain ⟨zero, counts⟩ := Expr.requests_foldlM_product strided others
    have steps : distance.requests = if elementSize = .const 0 then []
        else (rest.filterMap Dimension.count?).flatMap Expr.requests := by
      rw [Expr.requests_product multiplied, counts, silent, List.nil_append]
      simp only [reduceCtorEq, false_or, zero]
      split <;> rfl
    have nearer : ∀ asked ∈ (rest.tail.filterMap Dimension.count?).flatMap Expr.requests,
        asked ∈ (rest.filterMap Dimension.count?).flatMap Expr.requests := by
      intro asked inner
      obtain ⟨count, listed, asked⟩ := List.mem_flatMap.mp inner
      have sublist := (List.tail_sublist rest).filterMap Dimension.count?
      exact List.mem_flatMap.mpr ⟨count, sublist.subset listed, asked⟩
    rw [ih computed others, Expr.requests_sum added, steps, List.mem_append, List.tail_cons]
    by_cases empty : elementSize = .const 0
    · simp [empty]
    · simp only [empty, ne_eq, if_false, not_false_eq_true, true_and, or_assoc]
      exact or_congr_right (or_iff_left_of_imp (nearer request))

private theorem mem_requests_elementOffset {attr : Attribute} {request : Request}
    (computed : elementOffset attr = some address) (numbered : attr.Numbered)
    (silent : attr.shape = [] ∨ attr.elementSize.requests = []) :
    request ∈ address.requests ↔
      request ∈ attr.offset.requests ∨ request ∈ countRequests attr attr.shape.tail := by
  rw [elementOffset] at computed
  unfold countRequests
  rcases silent with scalar | silent
  · rw [scalar] at computed ⊢
    cases computed
    simp
  · rw [mem_requests_addStrides computed silent numbered.nonzero]
    by_cases empty : attr.elementSize = .const 0 <;> simp [empty]

end Addresses

private theorem silent_of_not_asksElements {model : Model} {method : Method} {attr : AttributeId}
    (body : method.body = .attr attr) (fixed : asksElements model method = false) :
    (model.attr attr).shape = [] ∨ (model.attr attr).elementSize.requests = [] := by
  refine or_iff_not_imp_left.mpr fun array => ?_
  have ranked : 0 < (model.attr attr).rank := List.length_pos_iff.mpr array
  have constant : (model.attr attr).elementSize.isConstant = true := by
    simpa [asksElements, body, ranked] using fixed
  obtain ⟨value, same⟩ := Option.isSome_iff_exists.mp constant
  rw [Expr.constant?_eq_some_iff.mp same]
  rfl

section Bodies

variable {model : Model} (intact : model.Intact)

include intact

private theorem mem_attributes_of_body {caller : MethodId} {attr : AttributeId}
    (body : (model.method caller).body = .attr attr) :
    attr ∈ (model.record (model.method caller).owner).attributes := by
  have inside : caller.index < model.methods.size := by
    by_contra outside
    rw [model.method_eq_default outside] at body
    cases body
  exact intact.attribute_of_reader ((intact.methods.mem_iff inside).mpr rfl) body

variable (numbered : model.Numbered)
  (laidOut : ∀ id : RecordId, id.index < model.records.size → LaidOut model id)

include numbered laidOut

private theorem mem_requests_address {id : RecordId} {attr : AttributeId}
    (listed : attr ∈ (model.record id).attributes)
    (silent : (model.attr attr).shape = [] ∨ (model.attr attr).elementSize.requests = [])
    {address : Expr} (computed : elementOffset (model.attr attr) = some address)
    {request : Request} : request ∈ address.requests ↔ request ∈ addressRequests model attr := by
  have inside : id.index < model.records.size := inside_of_mem Record.attributes rfl listed
  rw [mem_requests_elementOffset computed (numbered attr) silent,
    offset_requests intact inside numbered laidOut listed, addressRequests, List.mem_append]

/-- The text of a body asks for what the declarations behind it ask for. -/
theorem mem_requests_body {caller : MethodId} (regular : isRegular model caller = true)
    {request : Request} :
    request ∈ (bodyExprs model (model.method caller)).flatMap Expr.requests ↔
      request ∈ declaredRequests model (model.method caller) := by
  obtain ⟨written, fixed⟩ := Bool.and_eq_true_iff.mp regular
  cases body : (model.method caller).body with
  | attr attr =>
    cases stored : (model.attr attr).stored with
    | true => simp [bodyExprs, declaredRequests, body, stored]
    | false =>
      have exists_address : ∃ address, elementOffset (model.attr attr) = some address := by
        refine Option.ne_none_iff_exists'.mp fun failed => ?_
        rw [(methodBody_attr_eq_none_iff body).mpr ⟨stored, failed⟩] at written
        cases written
      obtain ⟨address, computed⟩ := exists_address
      have silent := silent_of_not_asksElements body ((Bool.not_eq_true' _).mp fixed)
      have listed := mem_attributes_of_body intact body
      have same := @mem_requests_address model intact numbered laidOut _ _ listed silent _ computed
        request
      simpa [bodyExprs, declaredRequests, body, stored, computed] using same
  | expressions | code | bitfield | external => simp only [declaredRequests, body]

/-- The body that is written for a method calls what the declarations behind it name. -/
theorem calls_iff_mentions {caller callee : MethodId} (regular : isRegular model caller = true) :
    Calls model caller callee ↔ Mentions model caller callee := by
  have same : ∀ request, request ∈ (bodyExprs model (model.method caller)).flatMap Expr.requests ↔
      request ∈ declaredRequests model (model.method caller) :=
    fun _ => mem_requests_body intact numbered laidOut regular
  simp only [Calls, Mentions, calledMethods, mentionedMethods, methodsFor, List.mem_append,
    List.mem_filterMap, same]

end Bodies

section Reach

variable {model : Model}

private theorem inside_of_findMethod? (closed : model.Closed) {owner : RecordId} {name : String}
    {method : MethodId} (found : model.findMethod? owner name = some method) :
    method.index < model.methods.size := by
  obtain ⟨holder, _, listed⟩ := mem_of_findMethod? found
  exact closed.recordMethods holder method listed

private theorem inside_of_mentions (closed : model.Closed) {caller callee : MethodId}
    (mentions : Mentions model caller callee) : callee.index < model.methods.size := by
  have value : ∀ {owner attr}, valueMethod? model owner attr = some callee →
      callee.index < model.methods.size := by
    intro owner attr found
    unfold valueMethod? at found
    split at found
    · cases found
    · exact inside_of_findMethod? closed found
  rcases List.mem_append.mp mentions with asked | taken
  · obtain ⟨request, _, found⟩ := List.mem_filterMap.mp asked
    cases request with
    | call name => exact inside_of_findMethod? closed found
    | member name =>
      obtain ⟨_, _, found⟩ := Option.bind_eq_some_iff.mp found
      exact value found
    | static | config => cases found
  · obtain ⟨_, _, found⟩ := List.mem_filterMap.mp taken
    exact value found

/-- Only finitely many methods are mentioned, directly or not. -/
theorem finite_mentioned (closed : model.Closed) (start : MethodId) :
    {id | Relation.ReflTransGen (Mentions model) start id}.Finite :=
  finite_reached (fun _ _ same => MethodId.ext same) (fun _ _ => inside_of_mentions closed) start

end Reach

/-- A read ends if and only if the declarations that it leads to name no member in a circle. This is of
reads that lead to methods whose bodies can be written and that ask no elements of arrays for their
size. -/
theorem build_terminates_iff {units : List SourceUnit} {built : Built}
    (accepted : build units = .ok built) {id : MethodId}
    (regular : ∀ other, Relation.ReflTransGen (Mentions built.model) id other →
      isRegular built.model other = true) :
    Terminates built.model id ↔ ∀ other, Relation.ReflTransGen (Mentions built.model) id other →
      ¬ Relation.TransGen (Mentions built.model) other other := by
  obtain ⟨stages⟩ := build_stages accepted
  have intact := stages.sound.intact fun _ inside => stages.basesEnd inside
  have laidOut : ∀ record : RecordId, record.index < built.model.records.size →
      LaidOut built.model record := fun _ inside => stages.laidOut inside
  rw [Terminates, ← acc_iff_no_loop (finite_mentioned intact.closed id)]
  exact acc_congr fun other reached callee =>
    calls_iff_mentions intact stages.words.1 laidOut (regular other reached)

/-- A type with a method, and one that extends it by as many bytes as the method says and by an
attribute behind them. -/
def countedUnits : List SourceUnit :=
  let wide : Declaration.Method :=
    { name := "wide", typeName := some "uint32_t",
      expressions := [("Any", "\x7bself\x7d.count()+1")] }
  let first : Declaration.Record :=
    { name := "First", methods := [wide]
      attributes := [{ name := "count", typeName := some "uint16_t" }] }
  let second : Declaration.Record :=
    { name := "Second", base := some "First"
      attributes := [{ name := "data", typeName := some "uint8_t", shape := ["\x7bself\x7d.wide()"] },
        { name := "tail", typeName := some "uint32_t" }] }
  [{ document := { packages := [.mk "Sample" none [] [] [] [] [first, second]] } }]

theorem build_terminates_iff_sample : ∃ built, build countedUnits = .ok built ∧
    (built.model.attr ⟨2⟩).accessor = some ⟨2⟩ ∧ Calls built.model ⟨2⟩ ⟨3⟩ ∧
    Calls built.model ⟨3⟩ ⟨0⟩ ∧ Terminates built.model ⟨2⟩ := by
  let members : List MethodId := [⟨2⟩, ⟨3⟩, ⟨0⟩]
  have computed : ∃ built, build countedUnits = .ok built ∧
      (built.model.attr ⟨2⟩).accessor = some ⟨2⟩ ∧
      ⟨3⟩ ∈ calledMethods built.model (built.model.method ⟨2⟩) ∧
      ⟨0⟩ ∈ calledMethods built.model (built.model.method ⟨3⟩) ∧
      (∀ caller ∈ members, ∀ callee ∈ mentionedMethods built.model (built.model.method caller),
        callee ∈ members ∧ members.idxOf caller < members.idxOf callee) ∧
      ∀ caller ∈ members, isRegular built.model caller = true := exists_built (by decide +kernel)
  obtain ⟨built, accepted, read, first, second, ordered, regular⟩ := computed
  have reach : ∀ {other}, Relation.ReflTransGen (Mentions built.model) ⟨2⟩ other →
      other ∈ members ∧ ¬ Relation.TransGen (Mentions built.model) other other :=
    no_loop_of_order ordered List.mem_cons_self
  refine ⟨built, accepted, read, first, second, (build_terminates_iff accepted ?_).mpr ?_⟩
  · exact fun other reached => regular other (reach reached).1
  · exact fun other reached => (reach reached).2

/-- As many bytes as the attribute behind them says. -/
def circularUnits : List SourceUnit :=
  let table : Declaration.Record :=
    { name := "Table"
      attributes := [{ name := "data", typeName := some "uint8_t", shape := ["\x7bself\x7d.count()"] },
        { name := "count", typeName := some "uint16_t" }] }
  [{ document := { packages := [.mk "Sample" none [] [] [] [] [table]] } }]

/-- Not all reads end. The accessor of the count calls itself. -/
theorem build_not_terminating : ∃ built, build circularUnits = .ok built ∧
    ⟨0⟩ ∈ built.model.emittedRecords ∧ ¬ ∀ attr ∈ (built.model.record ⟨0⟩).attributes,
      ∀ accessor, (built.model.attr attr).accessor = some accessor →
        Terminates built.model accessor := by
  have computed : ∃ built, build circularUnits = .ok built ∧
      ⟨0⟩ ∈ built.model.emittedRecords ∧ ⟨1⟩ ∈ (built.model.record ⟨0⟩).attributes ∧
      (built.model.attr ⟨1⟩).accessor = some ⟨1⟩ ∧
      ⟨1⟩ ∈ calledMethods built.model (built.model.method ⟨1⟩) := exists_built (by decide +kernel)
  obtain ⟨built, accepted, emitted, listed, read, itself⟩ := computed
  refine ⟨built, accepted, emitted, fun all => ?_⟩
  exact no_loop_of_acc (all ⟨1⟩ listed ⟨1⟩ read) .refl (.single itself)

end Accessors

end RecordSchema
