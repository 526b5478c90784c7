import RecordSchema.Proofs.Build

/-!
# Which attributes are stored

The marks of a type are a function of its attributes, of whether its base stores all of its own, and
of where the base ends. A type comes after its base and no attribute has two owners, so marks that
are set stay, and in a built model the marks of every type are the value of that function.
-/

set_option autoImplicit false

namespace RecordSchema.Layout

open Model Outcome

/-- The marks of attributes in their order, after a byte where those before them end. -/
def marksOf (storing : Bool) (stop : Option Int) : List Attribute → Option (List Bool)
  | [] => some []
  | attr :: rest => do
    let range ← fixedRange attr
    match if storing then storedStop attr stop range else none with
    | none => some (List.replicate (rest.length + 1) false)
    | some next => (marksOf true (some next) rest).map (true :: ·)

/-- Whether a type stores anything if its first attribute lies behind its base. -/
def baseStored (model : Model) (record : Record) : Bool :=
  record.base.all fun base => (model.record base).attributes.all fun attr => (model.attr attr).stored

/-- Where the attributes of a type start at the earliest, if that is a number. -/
def storageStart (model : Model) (record : Record) : Option Int :=
  match record.base with
  | none => some 0
  | some base => (model.record base).size.constant?

/-- The attributes of a type have the marks that follow from its base. -/
def Marked (model : Model) (id : RecordId) : Prop :=
  marksOf (baseStored model (model.record id)) (storageStart model (model.record id))
      ((model.record id).attributes.map model.attr) =
    some ((model.record id).attributes.map fun attr => (model.attr attr).stored)

theorem storeRecord_eq (model : Model) (id : RecordId) :
    storeRecord model id =
      storeAttributes model (baseStored model (model.record id))
        (storageStart model (model.record id)) (model.record id).attributes := by
  simp only [storeRecord, baseStored, storageStart]
  cases (model.record id).base <;> rfl

private theorem marksOf_congr {before after : Model} {ids : List AttributeId}
    (same : ∀ id ∈ ids, Forget.storage.attr (after.attr id) = Forget.storage.attr (before.attr id))
    (storing : Bool) (stop : Option Int) :
    marksOf storing stop (ids.map after.attr) = marksOf storing stop (ids.map before.attr) := by
  induction ids generalizing storing stop with
  | nil => rfl
  | cons id rest ih =>
    have first := same id List.mem_cons_self
    have range : fixedRange (after.attr id) = fixedRange (before.attr id) :=
      (congrArg fixedRange first :)
    have next : storedStop (after.attr id) = storedStop (before.attr id) :=
      (congrArg storedStop first :)
    have others := ih fun other member => same other (List.mem_cons_of_mem _ member)
    simp only [List.map_cons, marksOf, range, next, others, List.length_map]

/-!
## Numbers
-/

/-- An attribute with a range has numbers, and words come of them. -/
theorem fixedRange_words {attr : Attribute} {start stop : Int}
    (fixed : fixedRange attr = some (some (start, stop))) :
    ∃ size count extent, attr.offset = .const start ∧ attr.elementSize = .const size ∧
      fixedCount 1 attr.shape = some (some count) ∧ Word.mul size count = some extent ∧
        Word.add start extent = some stop := by
  unfold fixedRange at fixed
  split at fixed
  · rename_i offset size offsetEq sizeEq
    obtain ⟨count, counted, fixed⟩ := Option.bind_eq_some_iff.mp fixed
    cases count with
    | none => cases fixed
    | some count =>
      obtain ⟨extent, multiplied, fixed⟩ := Option.bind_eq_some_iff.mp fixed
      obtain ⟨reached, added, fixed⟩ := Option.bind_eq_some_iff.mp fixed
      cases fixed
      exact ⟨size, count, extent, offsetEq, sizeEq, counted, multiplied, added⟩
  · cases fixed

private theorem productOf_fixedCount {shape : List Dimension} {start count : Int}
    (fixed : fixedCount start shape = some (some count)) :
    isUnbounded shape = false ∧
      (shape.filterMap Dimension.count?).foldlM Expr.product (.const start) = some (.const count) := by
  induction shape generalizing start with
  | nil =>
    cases fixed
    exact ⟨rfl, rfl⟩
  | cons dimension rest ih =>
    cases dimension with
    | unbounded => cases fixed
    | bounded factor =>
      cases factor with
      | const value =>
        rw [fixedCount] at fixed
        obtain ⟨next, multiplied, fixed⟩ := Option.bind_eq_some_iff.mp fixed
        obtain ⟨bounded, computed⟩ := ih fixed
        have first : Expr.product (.const start) (.const value) = some (.const next) := by
          rw [Expr.product, multiplied]
          rfl
        have split : (Dimension.bounded (.const value) :: rest).filterMap Dimension.count? =
            .const value :: rest.filterMap Dimension.count? := rfl
        refine ⟨bounded, ?_⟩
        rw [split, List.foldlM_cons, first]
        exact computed
      | operand | concat | add | mul => cases fixed

/-- An attribute with a range ends at its number. -/
theorem stopAfter_of_fixedRange {attr : Attribute} {start stop : Int}
    (fixed : fixedRange attr = some (some (start, stop))) : stopAfter attr = some (.const stop) := by
  obtain ⟨size, count, extent, offset, bytes, counted, multiplied, added⟩ := fixedRange_words fixed
  obtain ⟨bounded, computed⟩ := productOf_fixedCount counted
  rw [stopAfter, if_neg (Bool.eq_false_iff.mp bounded), Expr.productOf, computed, offset, bytes]
  simp only [Option.bind_eq_bind, Option.bind_some, Expr.product, Expr.sum, multiplied, added,
    Option.map_some]

/-!
## The attributes of one type
-/

/-- Marks touch the attributes of the list only. -/
theorem storeAttributes_others {model after : Model} {ids : List AttributeId} {storing : Bool}
    {stop : Option Int} (accepted : storeAttributes model storing stop ids = some after) :
    ∀ other, other ∉ ids → after.attr other = model.attr other := by
  induction ids generalizing model storing stop with
  | nil =>
    cases accepted
    exact fun _ _ => rfl
  | cons id rest ih =>
    rw [storeAttributes] at accepted
    obtain ⟨range, _, accepted⟩ := Option.bind_eq_some_iff.mp accepted
    split at accepted
    · cases accepted
      exact fun _ _ => rfl
    · intro other unlisted
      obtain ⟨different, later⟩ := not_or.mp (mt List.mem_cons.mpr unlisted)
      rw [ih accepted other later, attr_modifyAttribute, if_neg fun both => different both.1.symm]

/-- Marks are those that follow from the attributes. -/
theorem storeAttributes_marks {model after : Model} {ids : List AttributeId} {storing : Bool}
    {stop : Option Int} (distinct : ids.Nodup)
    (inside : ∀ id ∈ ids, id.index < model.attributes.size)
    (unstored : ∀ id ∈ ids, (model.attr id).stored = false)
    (accepted : storeAttributes model storing stop ids = some after) :
    marksOf storing stop (ids.map model.attr) = some (ids.map fun id => (after.attr id).stored) := by
  induction ids generalizing model storing stop with
  | nil =>
    cases accepted
    rfl
  | cons id rest ih =>
    obtain ⟨apart, distinct⟩ := List.nodup_cons.mp distinct
    rw [storeAttributes] at accepted
    obtain ⟨range, fixed, accepted⟩ := Option.bind_eq_some_iff.mp accepted
    simp only [List.map_cons, marksOf, fixed, Option.bind_eq_bind, Option.bind_some]
    cases goesOn : if storing then storedStop (model.attr id) stop range else none with
    | none =>
      rw [goesOn] at accepted
      have same := Option.some.inj accepted
      subst same
      have kept : (id :: rest).map (fun other => (model.attr other).stored) =
          List.replicate (rest.length + 1) false :=
        List.eq_replicate_iff.mpr ⟨by simp, by simpa using unstored⟩
      simp only [List.length_map, ← kept, List.map_cons]
    | some next =>
      rw [goesOn] at accepted
      have view : ∀ other, other ≠ id →
          (model.modifyAttribute id fun current => { current with stored := true }).attr other =
            model.attr other := by
        intro other different
        rw [attr_modifyAttribute, if_neg fun both => different both.1.symm]
      have others : ∀ other ∈ rest, other ≠ id := fun other member same => apart (same ▸ member)
      have marks := ih distinct
        (fun other member => by
          simpa [modifyAttribute] using inside other (List.mem_cons_of_mem _ member))
        (fun other member => by
          rw [view other (others other member)]
          exact unstored other (List.mem_cons_of_mem _ member)) accepted
      have first : (after.attr id).stored = true := by
        rw [storeAttributes_others accepted id apart, attr_modifyAttribute,
          if_pos ⟨rfl, inside id List.mem_cons_self⟩]
      have same : rest.map
          (model.modifyAttribute id fun current => { current with stored := true }).attr =
            rest.map model.attr :=
        List.map_congr_left fun other member => view other (others other member)
      rw [same] at marks
      simp only [marks, first, Option.map_some]

theorem storeAttributes_agree {model after : Model} {ids : List AttributeId} {storing : Bool}
    {stop : Option Int} (accepted : storeAttributes model storing stop ids = some after) :
    Agree .storage model after :=
  storeAttributes_preserves accepted
    (fun state id _ (agree : Agree .storage model state) => agree.trans (.modifyAttribute state id fun _ => rfl)) (.refl model)

section Congruence

variable {before after : Model} (agree : Agree .storage before after) {id : RecordId}

include agree

private theorem storageStart_congr :
    storageStart after (after.record id) = storageStart before (before.record id) := by
  have base := agree.recordField Record.base (fun _ => rfl) id
  have size := agree.recordField Record.size fun _ => rfl
  simp only [storageStart, base, size]

private theorem baseStored_congr
    (kept : ∀ base, (before.record id).base = some base →
      ∀ attr ∈ (before.record base).attributes, after.attr attr = before.attr attr) :
    baseStored after (after.record id) = baseStored before (before.record id) := by
  have base := agree.recordField Record.base (fun _ => rfl) id
  have attributes := agree.recordField Record.attributes fun _ => rfl
  simp only [baseStored, base, attributes]
  cases found : (before.record id).base with
  | none => rfl
  | some other =>
    rw [Option.all_some, Option.all_some, Bool.eq_iff_iff, List.all_eq_true, List.all_eq_true]
    refine forall₂_congr fun attr listed => ?_
    rw [kept other found attr listed]

/-- Marks of a type hold on where its attributes, and those of its base, keep theirs. -/
theorem Marked.congr (marked : Marked before id)
    (own : ∀ attr ∈ (before.record id).attributes, after.attr attr = before.attr attr)
    (based : ∀ base, (before.record id).base = some base →
      ∀ attr ∈ (before.record base).attributes, after.attr attr = before.attr attr) :
    Marked after id := by
  have attributes := agree.recordField Record.attributes fun _ => rfl
  have marks : (before.record id).attributes.map (fun attr => (after.attr attr).stored) =
      (before.record id).attributes.map fun attr => (before.attr attr).stored :=
    List.map_congr_left fun attr listed => by rw [own attr listed]
  rw [Marked, baseStored_congr agree based, storageStart_congr agree, attributes, marks,
    marksOf_congr fun attr _ => agree.attr attr]
  exact marked

end Congruence

/-!
## All types
-/

/-- The types that are through have their marks, and the attributes of all others are as they were. -/
structure MarkedUpTo (resolved model : Model) (seen : List RecordId) (state : Model) : Prop where
  agree : Agree .storage model state
  marked : ∀ id ∈ seen, Marked state id
  waiting : ∀ id, id ∉ seen → ∀ attr ∈ (resolved.record id).attributes,
    state.attr attr = model.attr attr

section Orders

variable {resolved model : Model} (linked : resolved.Linked) {order : List RecordId}
  (isOrder : IsOrder resolved order) (derived : Agree .derived resolved model)
  (unstored : ∀ id, (model.attr id).stored = false)

include linked isOrder derived unstored

/-- A type that comes next gets its marks, and what is marked already keeps them: bases come earlier, and
types share no attributes. -/
theorem MarkedUpTo.step {seen rest : List RecordId} {id : RecordId} {state next : Model}
    (upTo : MarkedUpTo resolved model seen state) (split : order = seen ++ id :: rest)
    (taken : storeRecord state id = some next) : MarkedUpTo resolved model (seen ++ [id]) next := by
  have known := linked.closed.recordAttributes
  have earlier : ∀ {other target : RecordId}, (resolved.record other).base = some target →
      ∀ {front back : List RecordId}, order = front ++ other :: back → target ∈ front :=
    fun found _ _ place =>
      isOrder.before place _ (mem_dependencies_of_dependsOn linked.closed (dependsOn_base found))
  have fresh : id ∉ seen := by
    have distinct := isOrder.distinct
    rw [split, List.nodup_append] at distinct
    exact fun old => distinct.2.2 id old id List.mem_cons_self rfl
  have links : Agree .derived resolved state :=
    derived.trans (upTo.agree.coarsen (fun _ => rfl) (fun _ => rfl) fun _ => rfl)
  have attributes := links.recordField Record.attributes fun _ => rfl
  have bases := links.base
  rw [storeRecord_eq] at taken
  have same := storeAttributes_agree taken
  have untouched := storeAttributes_others taken
  have marks := storeAttributes_marks
    (by rw [attributes]; exact linked.attributes.nodup (known id))
    (by rw [attributes, links.attributeCount]; exact known id)
    (by
      rw [attributes]
      intro attr listed
      rw [upTo.waiting id fresh attr listed]
      exact unstored attr) taken
  rw [attributes] at untouched
  have foreign : ∀ other, other ≠ id → ∀ attr ∈ (resolved.record other).attributes,
      next.attr attr = state.attr attr :=
    fun other different attr listed => untouched attr fun own => different (linked.listedOnce listed own)
  refine ⟨upTo.agree.trans same, fun other listed => ?_, fun other absent attr listed => ?_⟩
  · rcases List.mem_append.mp listed with old | last
    · have different : other ≠ id := fun equal => fresh (equal ▸ old)
      refine (upTo.marked other old).congr same (attributes other ▸ foreign other different) ?_
      intro base found
      rw [bases] at found
      rw [attributes]
      obtain ⟨front, back, splitSeen⟩ := List.append_of_mem old
      have before : base ∈ front :=
        earlier found (by simp [split, splitSeen] : order = front ++ other :: (back ++ id :: rest))
      exact foreign base fun equal => fresh (equal ▸ by simp [splitSeen, before])
    · cases List.mem_singleton.mp last
      have sameBase : ∀ base, (state.record id).base = some base →
          ∀ attr ∈ (state.record base).attributes, next.attr attr = state.attr attr := by
        intro base found
        rw [bases] at found
        rw [attributes]
        exact foreign base fun equal => fresh (equal ▸ earlier found split)
      rw [Marked, baseStored_congr same sameBase, storageStart_congr same,
        same.recordField Record.attributes fun _ => rfl, marksOf_congr fun attr _ => same.attr attr]
      exact marks
  · have different : other ≠ id := fun equal => absent (by simp [equal])
    rw [foreign other different attr listed]
    exact upTo.waiting other (fun old => absent (by simp [old])) attr listed

theorem withStorage_marked {after : Model} (accepted : withStorage model order = some after) :
    ∀ id : RecordId, id.index < resolved.records.size → Marked after id := by
  have all : MarkedUpTo resolved model order after :=
    foldlM_invariant_option accepted (MarkedUpTo resolved model)
      ⟨.refl model, by simp, fun _ _ _ _ => rfl⟩
      fun _ _ _ _ _ split upTo taken => upTo.step linked isOrder derived unstored split taken
  exact fun id inside => all.marked id ((isOrder.complete id).mpr inside)

end Orders

end RecordSchema.Layout

namespace RecordSchema

open Model

/-- A built model has no marks but those that follow from the bases. -/
theorem Stages.marked {units : List SourceUnit} {built : Built} (stages : Stages units built)
    {id : RecordId} (inside : id.index < built.model.records.size) :
    Layout.Marked built.model id := by
  have derived : Agree .derived stages.resolved (Layout.withDependence stages.placed) :=
    .trans (stages.agree_placed.coarsen (fun _ => rfl) (fun _ => rfl) fun _ => rfl)
      ((Layout.agree_withDependence stages.placed).coarsen (fun _ => rfl) (fun _ => rfl) fun _ => rfl)
  have stored := Layout.withStorage_marked stages.isResolved.sound.toLinked
    (Layout.order_ok stages.ordered) derived stages.unstored stages.storage id
    (stages.agree_derived.recordCount ▸ inside)
  have same : ∀ attr, built.model.attr attr = stages.stored.attr attr := stages.agree_stored.attr
  exact stored.congr (stages.agree_stored.coarsen (fun _ => rfl) (fun _ => rfl) fun _ => rfl)
    (fun attr _ => same attr) fun _ _ attr _ => same attr

end RecordSchema
