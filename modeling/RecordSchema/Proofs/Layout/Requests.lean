import RecordSchema.Proofs.Expr.Requests
import RecordSchema.Proofs.Layout.Words
import RecordSchema.Proofs.Model.Inheritance

/-!
# What offsets and sizes ask for

Layout writes no member names of its own but one: an element whose size is no number is asked for it.
Everything else that an offset or a size asks for stands in a declaration, either the offset that an
attribute declares or the dimensions of attributes that lie before. So what an offset asks for can be
read off the declarations, back to the last offset that is declared.
-/

set_option autoImplicit false

namespace RecordSchema

theorem Attribute.Numbered.nonzero {attr : Attribute} (numbered : attr.Numbered) :
    ∀ count ∈ attr.shape.filterMap Dimension.count?, count ≠ .const 0 := by
  rintro count listed rfl
  exact absurd (numbered.positive 0 listed) (Int.lt_irrefl 0)

namespace Layout

open Model

/-!
## Reading the declarations
-/

/-- What the size of an element asks for. -/
def elementRequests (model : Model) (attr : Attribute) : List Request :=
  match attr.type with
  | .record target =>
    if (model.record target).size.isConstant then [] else [.call (model.accessorName attr)]
  | _ => []

/-- What some of the dimensions of an attribute ask for. The number of elements without extent does
not count. -/
def countRequests (attr : Attribute) (dimensions : List Dimension) : List Request :=
  if attr.elementSize = .const 0 then []
  else (dimensions.filterMap Dimension.count?).flatMap Expr.requests

/-- What the extent of an attribute asks for; one without bound counts as empty. -/
def extentRequests (model : Model) (attr : Attribute) : List Request :=
  if isUnbounded attr.shape then [] else elementRequests model attr ++ countRequests attr attr.shape

/-- What the place where the first of some attributes ends asks for. The attributes are given
backwards, each with those that lie before it. -/
def endRequests (model : Model) : List AttributeId → List Request
  | [] => []
  | id :: before =>
    ((model.attr id).declaredOffset.map Expr.requests).getD (endRequests model before) ++
      extentRequests model (model.attr id)

/-- The attributes that a type has or inherits, the last one first. -/
def backwards (model : Model) (id : RecordId) : List AttributeId :=
  (model.lineage id).flatMap fun holder => (model.record holder).attributes.reverse

/-- The attributes that lie before another in its type and in the bases of that, the nearest first. -/
def attributesBefore (model : Model) (id : AttributeId) : List AttributeId :=
  ((backwards model (model.attr id).owner).dropWhile (· ≠ id)).tail

/-- What the offset of an attribute asks for. -/
def offsetRequests (model : Model) (id : AttributeId) : List Request :=
  ((model.attr id).declaredOffset.map Expr.requests).getD
    (endRequests model (attributesBefore model id))

/-!
## Layout follows the declarations
-/

section Placement

variable {model : Model} {pack : Option UInt32} {cursor next final : Cursor} {id : AttributeId}

private theorem requests_dynamicSize {attr : Attribute} {accessor : MethodId}
    (read : attr.accessor = some accessor) :
    (dynamicSize model attr).requests = [.call (model.accessorName attr)] := by
  have opening : ("(" ++ ", ".intercalate (List.replicate attr.rank "0") ++ ")._sizeof()").toList.head? =
      some '(' := by
    simp only [String.toList_append]
    rfl
  simp only [dynamicSize, Expr.requests, Expr.requestsOf, opening, if_true, Model.accessorName, read,
    Option.map_some, Option.getD_some, Operand.requests, List.append_nil]

private theorem requests_elementLayout {attr : Attribute} {accessor : MethodId}
    (read : attr.accessor = some accessor) :
    (elementLayout model attr).1.requests = elementRequests model attr := by
  unfold elementLayout elementRequests
  cases attr.type with
  | builtin | enumeration => rfl
  | record target =>
    cases size : (model.record target).size.constant? with
    | some value =>
      rw [Expr.constant?_eq_some_iff] at size
      simp only [size]
      rfl
    | none => simp only [Expr.isConstant, size, Option.isSome_none, Bool.false_eq_true, if_false,
        requests_dynamicSize read]

private theorem requests_offsetAfter {alignment : Nat} {attr : Attribute} {stop offset : Expr}
    (placed : offsetAfter pack alignment attr stop = some offset) :
    offset.requests = (attr.declaredOffset.map Expr.requests).getD stop.requests := by
  unfold offsetAfter at placed
  split at placed
  · rename_i declared found
    cases placed
    rw [found]
    rfl
  · rename_i undeclared
    rw [undeclared]
    split at placed
    · obtain ⟨value, _, rfl⟩ := Option.map_eq_some_iff.mp placed
      rfl
    · cases placed
      rfl

private theorem requests_stopAfter {attr : Attribute} {stop : Expr} (ended : stopAfter attr = some stop)
    (numbered : attr.Numbered) (size : attr.elementSize.requests = elementRequests model attr) :
    stop.requests = attr.offset.requests ++ extentRequests model attr := by
  unfold stopAfter at ended
  unfold extentRequests
  split at ended
  · rename_i unbounded
    cases ended
    rw [if_pos unbounded, List.append_nil]
  · rename_i bounded
    obtain ⟨count, multiplied, ended⟩ := Option.bind_eq_some_iff.mp ended
    obtain ⟨extent, extended, ended⟩ := Option.bind_eq_some_iff.mp ended
    obtain ⟨zero, counts⟩ := Expr.requests_foldlM_product multiplied numbered.nonzero
    have nonzero : count ≠ .const 0 := fun same => absurd (zero.mp same) (by decide)
    rw [if_neg bounded, Expr.requests_sum ended, Expr.requests_product extended, counts,
      countRequests, ← size]
    congr 1
    by_cases empty : attr.elementSize = .const 0
    · simp [empty, Expr.requests]
    · simp [empty, nonzero, Expr.requests]

section Lists

variable (numbered : model.Numbered)

include numbered

private theorem Places.stop_requests (places : Places model pack cursor id next) {accessor : MethodId}
    (read : (model.attr id).accessor = some accessor) :
    next.stop.requests = (model.attr id).offset.requests ++ extentRequests model (model.attr id) :=
  requests_stopAfter places.stop (numbered id)
    (places.elementSize ▸ requests_elementLayout read)

/-- What lies between two cursors adds its own requests to those of the first. -/
theorem PlacesAll.stop_requests {ids before : List AttributeId}
    (places : PlacesAll model pack cursor ids final)
    (read : ∀ id ∈ ids, ∃ accessor, (model.attr id).accessor = some accessor)
    (start : cursor.stop.requests = endRequests model before) :
    final.stop.requests = endRequests model (ids.reverse ++ before) := by
  induction places generalizing before with
  | nil => exact start
  | @cons cursor next final id rest first _ ih =>
    obtain ⟨⟨accessor, found⟩, others⟩ := List.forall_mem_cons.mp read
    rw [List.reverse_cons, List.append_assoc]
    refine ih others ?_
    rw [first.stop_requests numbered found, requests_offsetAfter first.offset, start]
    rfl

end Lists

end Placement

/-!
## All types
-/

section Types

variable {model : Model} (intact : model.Intact) {id : RecordId}
  (inside : id.index < model.records.size)

include intact

private theorem exists_reader {attr : AttributeId} (listed : attr ∈ (model.record id).attributes) :
    ∃ accessor, (model.attr attr).accessor = some accessor := by
  obtain ⟨accessor, _, read, _⟩ := intact.exists_accessor listed
  exact ⟨accessor, read⟩

include inside

private theorem backwards_eq : backwards model id = (model.record id).attributes.reverse ++
    ((model.record id).base.map (backwards model)).getD [] := by
  cases extended : (model.record id).base with
  | none =>
    rw [backwards, intact.lineage_of_root inside extended, List.flatMap_singleton]
    exact (List.append_nil _).symm
  | some base =>
    rw [backwards, intact.lineage_of_base inside extended, List.flatMap_cons]
    rfl

private theorem attributesBefore_eq {attr : AttributeId} {before rest : List AttributeId}
    (listed : (model.record id).attributes = before ++ attr :: rest) :
    attributesBefore model attr =
      before.reverse ++ ((model.record id).base.map (backwards model)).getD [] := by
  have member : attr ∈ (model.record id).attributes := by simp [listed]
  have distinct : (before ++ attr :: rest).Nodup :=
    listed ▸ intact.attributes.nodup (intact.closed.recordAttributes id)
  have behind : ∀ other ∈ rest.reverse, decide (other ≠ attr) = true := by
    intro other later
    refine decide_eq_true ?_
    rintro rfl
    exact (List.nodup_cons.mp (List.nodup_append.mp distinct).2.1).1 (List.mem_reverse.mp later)
  rw [attributesBefore, intact.owner member, backwards_eq intact inside, listed]
  simp only [List.reverse_append, List.reverse_cons, List.append_assoc, List.singleton_append,
    List.dropWhile_append_of_pos behind]
  simp

variable (numbered : model.Numbered)

include numbered

private theorem LaidOut.size_requests (laidOut : LaidOut model id)
    (start : (initialCursor model (model.record id)).stop.requests =
      endRequests model (((model.record id).base.map (backwards model)).getD [])) :
    (model.record id).size.requests = endRequests model (backwards model id) := by
  obtain ⟨final, places, size, _⟩ := laidOut
  rw [size, backwards_eq intact inside]
  exact places.stop_requests numbered (fun _ => exists_reader intact) start

variable (laidOut : ∀ id : RecordId, id.index < model.records.size → LaidOut model id)

include laidOut

/-- The size of a type asks for what the declarations of its attributes and of those in its bases
say. -/
theorem size_requests : (model.record id).size.requests = endRequests model (backwards model id) := by
  refine intact.base_induction (motive := fun id => (model.record id).size.requests =
    endRequests model (backwards model id)) ?_ ?_ inside
  · intro id inside root
    refine (laidOut id inside).size_requests intact inside numbered ?_
    rw [initialCursor, root]
    rfl
  · intro id base inside extended ih
    refine (laidOut id inside).size_requests intact inside numbered ?_
    rw [initialCursor, extended]
    exact ih

omit inside in
private theorem initialCursor_requests : (initialCursor model (model.record id)).stop.requests =
    endRequests model (((model.record id).base.map (backwards model)).getD []) := by
  cases extended : (model.record id).base with
  | none =>
    rw [initialCursor, extended]
    rfl
  | some base =>
    rw [initialCursor, extended]
    exact size_requests intact (intact.inRange_of_base extended) numbered laidOut

/-- The offset of an attribute asks for what the declarations say. -/
theorem offset_requests {attr : AttributeId} (listed : attr ∈ (model.record id).attributes) :
    (model.attr attr).offset.requests = offsetRequests model attr := by
  obtain ⟨before, rest, split⟩ := List.append_of_mem listed
  obtain ⟨final, places, _⟩ := laidOut id inside
  rw [split] at places
  obtain ⟨reached, next, front, one, _⟩ := places.split
  have read : ∀ other ∈ before, ∃ accessor, (model.attr other).accessor = some accessor :=
    fun other earlier => exists_reader intact (split ▸ List.mem_append_left _ earlier)
  have start := front.stop_requests numbered read
    (initialCursor_requests intact numbered laidOut)
  rw [requests_offsetAfter one.offset, start, offsetRequests, attributesBefore_eq intact inside split]

end Types

end Layout

end RecordSchema
