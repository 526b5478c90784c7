import Mathlib.Logic.Relation
import RecordSchema.Proofs.Renaming.Flags

/-!
# Raising flags one at a time

Flags may also be raised in place, one after another, so that a flag counts as soon as it is up. Sweeps
of this kind end whatever the order in which attributes, methods and types are looked at, and always
with the same flags. A flag is up in the end if and only if a chain of mentions, embeddings and
accessors leads to an expression that reads a config object.
-/

set_option autoImplicit false

namespace RecordSchema

open Model

namespace Layout

/-- What has a flag. -/
inductive Bearer where
  | attr (id : AttributeId)
  | method (id : MethodId)
  | record (id : RecordId)
deriving DecidableEq

namespace Bearer

def Inside (model : Model) : Bearer → Prop
  | attr id => id.index < model.attributes.size
  | method id => id.index < model.methods.size
  | record id => id.index < model.records.size

def flag (model : Model) : Bearer → Bool
  | attr id => (model.attr id).configDependent
  | method id => (model.method id).configDependent
  | record id => (model.record id).configDependent

/-- Whether the flags that are up are a reason to raise this one. -/
def depends (model : Model) : Bearer → Bool
  | attr id => attributeDepends model (model.attr id)
  | method id => methodDepends model (model.method id)
  | record id => exprDepends model id (model.record id).size

def raise (model : Model) : Bearer → Model
  | attr id => model.modifyAttribute id fun current => { current with configDependent := true }
  | method id =>
    { model with
      methods := model.methods.modify id.index fun current =>
        { current with configDependent := true } }
  | record id => model.modifyRecord id fun current => { current with configDependent := true }

/-- The type within which the names of instance members are looked up. -/
def owner (model : Model) : Bearer → RecordId
  | attr id => (model.attr id).owner
  | method id => (model.method id).owner
  | record id => id

def texts (model : Model) : Bearer → List Expr
  | attr id =>
    (model.attr id).shape.filterMap Dimension.count? ++
      [(model.attr id).offset, (model.attr id).elementSize]
  | method id => (model.method id).body.texts
  | record id => [(model.record id).size]

end Bearer

/-!
## Sweeps
-/

/-- Raises a flag that is down if there is a reason, and marks that one was raised. -/
def visit (state : Model × Bool) (bearer : Bearer) : Model × Bool :=
  if !bearer.flag state.1 && bearer.depends state.1 then (bearer.raise state.1, true) else state

def sweep (order : List Bearer) (model : Model) : Model × Bool :=
  order.foldl visit (model, false)

/-- Sweeps follow one another until one of them raises no flag. -/
inductive SweepsTo (order : List Bearer) : Nat → Model → Model → Prop where
  | last {model after : Model} (still : sweep order model = (after, false)) :
      SweepsTo order 1 model after
  | more {rounds : Nat} {model swept after : Model} (raised : sweep order model = (swept, true))
      (further : SweepsTo order rounds swept after) : SweepsTo order (rounds + 1) model after

/-- A sweep in this order leaves nothing out. It may look at the same flag more than once. -/
def VisitsAll (model : Model) (order : List Bearer) : Prop :=
  ∀ bearer, bearer.Inside model → bearer ∈ order

/-- The attributes, then the methods, then the types, each as they are numbered. -/
def arenaOrder (model : Model) : List Bearer :=
  (List.range model.attributes.size).map (fun index => Bearer.attr ⟨index⟩) ++
    (List.range model.methods.size).map (fun index => Bearer.method ⟨index⟩) ++
    (List.range model.records.size).map fun index => Bearer.record ⟨index⟩

private theorem mem_arenaOrder {model : Model} {bearer : Bearer} :
    bearer ∈ arenaOrder model ↔ bearer.Inside model := by
  cases bearer with
  | attr id => simp [arenaOrder, Bearer.Inside, AttributeId.ext_iff]
  | method id => simp [arenaOrder, Bearer.Inside, MethodId.ext_iff]
  | record id => simp [arenaOrder, Bearer.Inside, RecordId.ext_iff]

theorem visitsAll_arenaOrder (model : Model) : VisitsAll model (arenaOrder model) :=
  fun _ inside => mem_arenaOrder.mpr inside

theorem length_arenaOrder (model : Model) : (arenaOrder model).length = flagLimit model := by
  simp [arenaOrder, flagLimit, Nat.add_assoc]

/-!
## One flag more
-/

section Raise

variable {model : Model} {bearer : Bearer}

theorem Bearer.inside_of_depends (needed : bearer.depends model = true) : bearer.Inside model := by
  by_contra outside
  cases bearer with
  | attr id =>
    rw [Bearer.depends, model.attr_eq_default outside] at needed
    cases needed
  | method id =>
    rw [Bearer.depends, model.method_eq_default outside] at needed
    cases needed
  | record id =>
    rw [Bearer.depends, model.record_eq_default outside] at needed
    cases needed

private theorem method_raise (id other : MethodId) :
    ((Bearer.method id).raise model).method other =
      if id = other ∧ other.index < model.methods.size then
        { model.method other with configDependent := true }
      else model.method other := by
  by_cases inside : other.index < model.methods.size
  · simp [Bearer.raise, Model.method, Array.getD, inside, Array.getElem_modify, MethodId.ext_iff]
  · simp [Bearer.raise, Model.method, Array.getD, inside]

theorem Bearer.flag_raise (inside : bearer.Inside model) (other : Bearer) :
    other.flag (bearer.raise model) = (decide (other = bearer) || other.flag model) := by
  cases bearer with
  | attr id =>
    cases other with
    | attr found =>
      by_cases same : id = found
      · subst same
        simp_all [Bearer.flag, Bearer.raise, Bearer.Inside]
      · simp [Bearer.flag, Bearer.raise, same, Ne.symm same]
    | method _ | record _ => rfl
  | method id =>
    cases other with
    | method found =>
      by_cases same : id = found
      · subst same
        simp_all [Bearer.flag, method_raise, Bearer.Inside]
      · simp [Bearer.flag, method_raise, same, Ne.symm same]
    | attr _ | record _ => rfl
  | record id =>
    cases other with
    | record found =>
      by_cases same : id = found
      · subst same
        simp_all [Bearer.flag, Bearer.raise, Bearer.Inside]
      · simp [Bearer.flag, Bearer.raise, same, Ne.symm same]
    | attr _ | method _ => rfl

private theorem Bearer.agree_raise (model : Model) (bearer : Bearer) :
    Agree .flags model (bearer.raise model) := by
  cases bearer with
  | attr id => exact .modifyAttribute model id fun _ => rfl
  | record id => exact .modifyRecord model id fun _ => rfl
  | method id =>
    exact { (Agree.refl model : Agree .flags model model) with
      methodCount := Array.size_modify ..
      method := fun other => by
        rw [method_raise]
        split <;> rfl }

private theorem Bearer.inside_iff {after : Model} (agree : Agree .flags model after) (bearer : Bearer) :
    bearer.Inside after ↔ bearer.Inside model := by
  cases bearer with
  | attr id => rw [Bearer.Inside, Bearer.Inside, agree.attributeCount]
  | method id => rw [Bearer.Inside, Bearer.Inside, agree.methodCount]
  | record id => rw [Bearer.Inside, Bearer.Inside, agree.recordCount]

private theorem Bearer.useHeaders_raise (model : Model) (bearer : Bearer) :
    (bearer.raise model).useHeaders = model.useHeaders := by
  cases bearer <;> rfl

end Raise

/-- One flag that was down is raised for a reason. -/
inductive Raises (model : Model) : Model → Prop where
  | intro (bearer : Bearer) (down : bearer.flag model = false)
      (needed : bearer.depends model = true) : Raises model (bearer.raise model)

/-!
## What every flag that is raised keeps
-/

section Bearers

variable {model state top : Model}

theorem settled_iff :
    Settled model ↔ ∀ bearer : Bearer, bearer.depends model = true → bearer.flag model = true := by
  constructor
  · intro settled bearer
    cases bearer with
    | attr id => exact settled.attr id
    | method id => exact settled.method id
    | record id => exact settled.record id
  · intro each
    exact ⟨fun id => each (.attr id), fun id => each (.method id), fun id => each (.record id)⟩

theorem below_iff : Below state top ↔ Agree .later state top ∧
    ∀ bearer : Bearer, bearer.flag state = true → bearer.flag top = true := by
  constructor
  · intro below
    refine ⟨below.agree, fun bearer => ?_⟩
    cases bearer with
    | attr id => exact below.attr id
    | method id => exact below.method id
    | record id => exact below.record id
  · intro ⟨agree, each⟩
    exact ⟨agree, fun id => each (.attr id), fun id => each (.method id), fun id => each (.record id)⟩

theorem Below.depends (below : Below state top) {bearer : Bearer}
    (needed : bearer.depends state = true) : bearer.depends top = true := by
  cases bearer with
  | attr id => exact below.attributeDepends needed
  | method id => exact below.methodDepends needed
  | record id => exact below.size needed

theorem ofFlags_later (agree : Agree .flags model state) : Agree .later model state :=
  agree.coarsen (fun _ => rfl) (fun _ => rfl) fun _ => rfl

/-- Flags that are raised for a reason stay below those of a model that has no more to raise. -/
theorem Below.raise (below : Below model top) (settled : Settled top) {bearer : Bearer}
    (needed : bearer.depends model = true) : Below (bearer.raise model) top := by
  obtain ⟨agree, flags⟩ := below_iff.mp below
  apply below_iff.mpr
  constructor
  · exact (ofFlags_later (bearer.agree_raise model)).symm.trans agree
  · intro other up
    rw [Bearer.flag_raise (Bearer.inside_of_depends needed), Bool.or_eq_true,
      decide_eq_true_eq] at up
    rcases up with rfl | up
    · exact settled_iff.mp settled other (below.depends needed)
    · exact flags other up

theorem Below.raises (below : Below model top) (settled : Settled top)
    (chain : Relation.ReflTransGen Raises model state) : Below state top := by
  induction chain with
  | refl => exact below
  | tail _ step ih =>
    cases step with
    | intro bearer _ needed => exact ih.raise settled needed

theorem agree_of_raises (chain : Relation.ReflTransGen Raises model state) :
    Agree .flags model state ∧ state.useHeaders = model.useHeaders := by
  induction chain with
  | refl => exact ⟨.refl model, rfl⟩
  | tail _ step ih =>
    cases step with
    | intro bearer _ _ =>
      exact ⟨ih.1.trans (bearer.agree_raise _), (bearer.useHeaders_raise _).trans ih.2⟩

end Bearers

/-!
## Sweeps end
-/

/-- How many flags are down. -/
def downCount (model : Model) : Nat :=
  (arenaOrder model).countP fun bearer => !bearer.flag model

private theorem countP_lt_of_mem {α : Type} {items : List α} {few many : α → Bool} (item : α)
    (implied : ∀ other, few other = true → many other = true) (listed : item ∈ items)
    (more : many item = true) (less : few item = false) : items.countP few < items.countP many := by
  obtain ⟨before, behind, rfl⟩ := List.append_of_mem listed
  have first : before.countP few ≤ before.countP many :=
    List.countP_mono_left fun other _ => implied other
  have last : behind.countP few ≤ behind.countP many :=
    List.countP_mono_left fun other _ => implied other
  simp only [List.countP_append, List.countP_cons, more, less]
  simp only [Bool.false_eq_true, ↓reduceIte]
  omega

section Ends

variable {model after : Model} {order : List Bearer}

private theorem downCount_lt (step : Raises model after) : downCount after < downCount model := by
  cases step with
  | intro bearer down needed =>
    have inside := Bearer.inside_of_depends needed
    have agree := bearer.agree_raise model
    have same : arenaOrder (bearer.raise model) = arenaOrder model := by
      simp only [arenaOrder, agree.attributeCount, agree.methodCount, agree.recordCount]
    rw [downCount, downCount, same]
    apply countP_lt_of_mem bearer
    · intro other still
      rw [Bearer.flag_raise inside] at still
      simp_all
    · exact mem_arenaOrder.mpr inside
    · simp [down]
    · simp [Bearer.flag_raise inside]

private theorem downCount_lt_of_chain (chain : Relation.TransGen Raises model after) :
    downCount after < downCount model := by
  induction chain with
  | single step => exact downCount_lt step
  | tail _ step ih => exact (downCount_lt step).trans ih

private theorem visit_cases (state : Model × Bool) (bearer : Bearer) :
    (visit state bearer = state ∧ (bearer.depends state.1 = true → bearer.flag state.1 = true)) ∨
      (visit state bearer).2 = true ∧ Raises state.1 (visit state bearer).1 := by
  unfold visit
  split
  · rename_i raised
    simp only [Bool.and_eq_true, Bool.not_eq_true'] at raised
    exact .inr ⟨rfl, .intro bearer raised.1 raised.2⟩
  · rename_i still
    refine .inl ⟨rfl, fun needed => ?_⟩
    by_contra down
    exact still (by simp [needed, down])

/-- A run over some flags either changes nothing, as there is nothing to raise, or is a chain of flags
raised one by one. -/
theorem foldl_visit_cases (order : List Bearer) (state : Model × Bool) :
    (order.foldl visit state = state ∧
        ∀ bearer ∈ order, bearer.depends state.1 = true → bearer.flag state.1 = true) ∨
      (order.foldl visit state).2 = true ∧
        Relation.TransGen Raises state.1 (order.foldl visit state).1 := by
  induction order generalizing state with
  | nil => exact .inl ⟨rfl, by simp⟩
  | cons bearer rest ih =>
    rw [List.foldl_cons]
    rcases visit_cases state bearer with ⟨same, quiet⟩ | ⟨marked, step⟩
    · rw [same]
      rcases ih state with ⟨still, settled⟩ | chain
      · exact .inl ⟨still, List.forall_mem_cons.mpr ⟨quiet, settled⟩⟩
      · exact .inr chain
    · apply Or.inr
      rcases ih (visit state bearer) with ⟨still, _⟩ | ⟨raised, chain⟩
      · rw [still]
        exact ⟨marked, .single step⟩
      · exact ⟨raised, .head step chain⟩

private theorem sweep_still (still : sweep order model = (after, false)) : after = model ∧
    ∀ bearer ∈ order, bearer.depends model = true → bearer.flag model = true := by
  rcases foldl_visit_cases order (model, false) with ⟨same, settled⟩ | ⟨raised, _⟩
  · have pair : (model, false) = (after, false) := same.symm.trans still
    exact ⟨(congrArg Prod.fst pair).symm, settled⟩
  · have marked : (sweep order model).2 = true := raised
    rw [still] at marked
    cases marked

private theorem sweep_raised (raised : sweep order model = (after, true)) :
    Relation.TransGen Raises model after := by
  rcases foldl_visit_cases order (model, false) with ⟨same, _⟩ | ⟨_, chain⟩
  · have pair : (model, false) = (after, true) := same.symm.trans raised
    cases congrArg Prod.snd pair
  · have result : (order.foldl visit (model, false)).1 = after := congrArg Prod.fst raised
    exact result ▸ chain

theorem SweepsTo.chain {rounds : Nat} (sweeps : SweepsTo order rounds model after) :
    Relation.ReflTransGen Raises model after ∧
      ∀ bearer ∈ order, bearer.depends after = true → bearer.flag after = true := by
  induction sweeps with
  | last still =>
    obtain ⟨rfl, settled⟩ := sweep_still still
    exact ⟨.refl, settled⟩
  | more raised _ ih => exact ⟨(sweep_raised raised).to_reflTransGen.trans ih.1, ih.2⟩

/-- Each sweep but the last raises a flag at least. -/
theorem exists_sweepsTo (order : List Bearer) (model : Model) :
    ∃ rounds ≤ downCount model + 1, ∃ after, SweepsTo order rounds model after := by
  induction count : downCount model using Nat.strong_induction_on generalizing model with
  | _ count ih =>
    cases swept : sweep order model with
    | mk next mark =>
      cases mark with
      | false => exact ⟨1, by omega, next, .last swept⟩
      | true =>
        have fewer := downCount_lt_of_chain (sweep_raised swept)
        obtain ⟨rounds, bound, after, further⟩ := ih (downCount next) (by omega) next rfl
        exact ⟨rounds + 1, by omega, after, .more swept further⟩

end Ends

/-!
## Sweeps end alike
-/

section Alike

variable {model after : Model}

private theorem eq_of_forgotten {α : Type} {forget : α → α} {flag : α → Bool}
    (restore : α → Bool → α) (whole : ∀ item, restore (forget item) (flag item) = item)
    {left right : α} (same : forget right = forget left) (flags : flag right = flag left) :
    right = left := by
  rw [← whole right, same, flags, whole]

/-- Models that agree but for their flags are the same if their flags are. -/
theorem eq_of_flags {left right : Model} (agree : Agree .flags left right)
    (headers : right.useHeaders = left.useHeaders)
    (flags : ∀ bearer : Bearer, bearer.flag right = bearer.flag left) : right = left := by
  have attributes : right.attributes = left.attributes :=
    eq_of_getD default agree.attributeCount fun index =>
      eq_of_forgotten (fun item flag => { item with configDependent := flag })
        (fun _ => rfl) (agree.attr ⟨index⟩) (flags (.attr ⟨index⟩))
  have methods : right.methods = left.methods :=
    eq_of_getD default agree.methodCount fun index =>
      eq_of_forgotten (fun item flag => { item with configDependent := flag })
        (fun _ => rfl) (agree.method ⟨index⟩) (flags (.method ⟨index⟩))
  have records : right.records = left.records :=
    eq_of_getD default agree.recordCount fun index =>
      eq_of_forgotten (fun item flag => { item with configDependent := flag })
        (fun _ => rfl) (agree.record ⟨index⟩) (flags (.record ⟨index⟩))
  cases left
  cases right
  simp only [Model.mk.injEq]
  exact ⟨agree.packages, records, attributes, agree.bitfields, methods, agree.enumerations,
    agree.constants, agree.roots, headers⟩

private theorem useHeaders_raiseAll (fuel : Nat) (model : Model) :
    (raiseAll fuel model).useHeaders = model.useHeaders := by
  induction fuel generalizing model with
  | zero => rfl
  | succ fuel ih =>
    rw [raiseAll]
    split
    · rfl
    · exact ih _

/-- Flags that are raised in rounds are below all that raise no others. -/
theorem below_withDependence {top : Model} (unflagged : Unflagged model)
    (agree : Agree .later model top) (settled : Settled top) : Below (withDependence model) top :=
  raiseAll_induction (Below · top) settled (unflagged.below agree) (unflagged.below agree)
    (fun _ below _ => below.raiseFlags settled) _

private theorem settled_of_sweeps {order : List Bearer} (all : VisitsAll after order)
    (quiet : ∀ bearer ∈ order, bearer.depends after = true → bearer.flag after = true) :
    Settled after :=
  settled_iff.mpr fun bearer needed =>
    quiet bearer (all bearer (Bearer.inside_of_depends needed)) needed

/-- Sweeps end with the flags that are raised in rounds. -/
theorem SweepsTo.eq {order : List Bearer} {rounds : Nat} (unflagged : Unflagged model)
    (all : VisitsAll model order) (sweeps : SweepsTo order rounds model after) :
    after = withDependence model := by
  obtain ⟨chain, quiet⟩ := sweeps.chain
  obtain ⟨agree, headers⟩ := agree_of_raises chain
  have rounds := agree_withDependence model
  have allAfter : VisitsAll after order := by
    intro bearer inside
    exact all bearer ((bearer.inside_iff agree).mp inside)
  have settled : Settled after := settled_of_sweeps allAfter quiet
  have up := (unflagged.below (ofFlags_later rounds)).raises (withDependence_settled model) chain
  have down := below_withDependence unflagged (ofFlags_later agree) settled
  apply eq_of_flags (rounds.symm.trans agree)
  · exact headers.trans (useHeaders_raiseAll _ _).symm
  · intro bearer
    exact Bool.eq_iff_iff.mpr ⟨(below_iff.mp up).2 bearer, (below_iff.mp down).2 bearer⟩

end Alike

end Layout

end RecordSchema
