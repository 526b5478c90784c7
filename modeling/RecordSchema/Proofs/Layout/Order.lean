import Mathlib.Data.List.Nodup
import Mathlib.Data.List.Perm.Subperm
import RecordSchema.Layout.Order
import RecordSchema.Proofs.Model.Paths

/-!
# The order of layout is an order

While turns are given, the number kept for a type is the number of its dependencies that have not
had their turn, and only types without open dependencies wait. So every type comes after the types
that it depends on, and an order of full length has all types, each once.
-/

set_option autoImplicit false

namespace RecordSchema.Layout

variable {model : Model}

theorem mem_recordIds {id : RecordId} : id ∈ model.recordIds ↔ id.index < model.records.size := by
  simp only [Model.recordIds, List.mem_map, List.mem_range]
  constructor
  · rintro ⟨index, inside, rfl⟩
    exact inside
  · intro inside
    exact ⟨id.index, inside, rfl⟩

theorem recordIds_nodup (model : Model) : model.recordIds.Nodup := by
  exact List.Nodup.map (fun _ _ same => congrArg RecordId.index same) List.nodup_range

theorem mem_dependencies {record target : RecordId} :
    target ∈ dependencies model record ↔
      target.index < model.records.size ∧ dependsOn model record target = true := by
  rw [dependencies, List.mem_filter, mem_recordIds]

private theorem mem_dependents {record other : RecordId} :
    other ∈ dependents model record ↔
      other.index < model.records.size ∧ dependsOn model other record = true := by
  rw [dependents, List.mem_filter, mem_recordIds]

/-- The number kept for a type. -/
def Progress.count (progress : Progress) (id : RecordId) : Nat :=
  progress.openCount.getD id.index 0

/-!
## Releasing types
-/

private theorem release_eq (progress : Progress) (record : RecordId) :
    release progress record =
      if progress.count record - 1 = 0 then
        { progress with
          openCount := progress.openCount.setIfInBounds record.index (progress.count record - 1)
          waiting := progress.waiting ++ [record] }
      else
        { progress with
          openCount := progress.openCount.setIfInBounds record.index (progress.count record - 1) } :=
  rfl

private theorem count_release (progress : Progress) (record id : RecordId)
    (inside : record.index < progress.openCount.size) :
    (release progress record).count id =
      if record = id then progress.count id - 1 else progress.count id := by
  have reduced : (progress.openCount.setIfInBounds record.index
      (progress.count record - 1)).getD id.index 0 =
      if record = id then progress.count id - 1 else progress.count id := by
    by_cases same : record = id
    · subst same
      simp [Array.getD, inside]
    · have different : record.index ≠ id.index := fun equal => same (RecordId.ext equal)
      simp only [if_neg same, Progress.count, Array.getD_eq_getD_getElem?,
        Array.getElem?_setIfInBounds_ne different]
  rw [release_eq]
  split <;> exact reduced

private theorem release_done (progress : Progress) (record : RecordId) :
    (release progress record).done = progress.done := by
  rw [release_eq]
  split <;> rfl

private theorem release_size (progress : Progress) (record : RecordId) :
    (release progress record).openCount.size = progress.openCount.size := by
  rw [release_eq]
  split <;> exact Array.size_setIfInBounds ..

private theorem release_waiting (progress : Progress) (record : RecordId) :
    (release progress record).waiting =
      progress.waiting ++ if progress.count record - 1 = 0 then [record] else [] := by
  rw [release_eq]
  split
  · rfl
  · exact (List.append_nil _).symm

/-- Releasing several distinct types takes one off each, and those that had one left wait. -/
theorem foldl_release {ids : List RecordId} (distinct : ids.Nodup) (progress : Progress)
    (inside : ∀ id ∈ ids, id.index < progress.openCount.size) :
    (ids.foldl release progress).done = progress.done ∧
      (ids.foldl release progress).openCount.size = progress.openCount.size ∧
      (∀ id, (ids.foldl release progress).count id =
        if id ∈ ids then progress.count id - 1 else progress.count id) ∧
      (ids.foldl release progress).waiting =
        progress.waiting ++ ids.filter fun id => progress.count id - 1 = 0 := by
  induction ids generalizing progress with
  | nil => simp
  | cons record rest ih =>
    obtain ⟨fresh, distinct⟩ := List.nodup_cons.mp distinct
    have bound := inside record List.mem_cons_self
    have insideLater : ∀ id ∈ rest, id.index < (release progress record).openCount.size := by
      intro id member
      rw [release_size]
      exact inside id (List.mem_cons_of_mem _ member)
    obtain ⟨done, size, counts, waiting⟩ := ih distinct (release progress record) insideLater
    have sameCount : ∀ id ∈ rest, (release progress record).count id = progress.count id := by
      intro id member
      rw [count_release progress record id bound, if_neg]
      exact fun same => fresh (same ▸ member)
    refine ⟨done.trans (release_done ..), size.trans (release_size ..), ?_, ?_⟩
    · intro id
      rw [List.foldl_cons, counts, count_release progress record id bound]
      by_cases same : record = id
      · subst same
        simp [fresh]
      · simp [same, Ne.symm same]
    · rw [List.foldl_cons, waiting, release_waiting, List.filter_cons, List.append_assoc]
      congr 1
      have sameFilter : (rest.filter fun id => (release progress record).count id - 1 = 0) =
          rest.filter fun id => progress.count id - 1 = 0 :=
        List.filter_congr fun id member => by rw [sameCount id member]
      rw [sameFilter]
      by_cases last : progress.count record - 1 = 0 <;> simp [last]

/-!
## Turns
-/

/-- Every type of the list comes after the types that it depends on; the latest stands first. -/
inductive Ordered (model : Model) : List RecordId → Prop where
  | nil : Ordered model []
  | cons {record : RecordId} {earlier : List RecordId} :
      (∀ target ∈ dependencies model record, target ∈ earlier) → Ordered model earlier →
      Ordered model (record :: earlier)

/-- What holds before and after each turn. -/
structure Progress.Good (model : Model) (progress : Progress) : Prop where
  size : progress.openCount.size = model.records.size
  counts : ∀ id : RecordId, id.index < model.records.size →
    progress.count id = (dependencies model id).countP (· ∉ progress.done)
  ready : ∀ id ∈ progress.waiting ++ progress.done, progress.count id = 0
  inside : ∀ id ∈ progress.waiting ++ progress.done, id.index < model.records.size
  distinct : (progress.waiting ++ progress.done).Nodup
  ordered : Ordered model progress.done

/-- A type that waits has had all its dependencies. -/
theorem Progress.Good.complete {progress : Progress} (good : progress.Good model) {id : RecordId}
    (waits : id ∈ progress.waiting) : ∀ target ∈ dependencies model id, target ∈ progress.done := by
  have member := List.mem_append_left progress.done waits
  have none : (dependencies model id).countP (· ∉ progress.done) = 0 := by
    rw [← good.counts id (good.inside id member), good.ready id member]
  intro target needed
  simpa using List.countP_eq_zero.mp none target needed

/-- Taking a type off the open dependencies of another. -/
private theorem countP_notMem_cons {targets done : List RecordId} (distinct : targets.Nodup)
    {record : RecordId} (fresh : record ∉ done) :
    targets.countP (· ∉ record :: done) =
      if record ∈ targets then targets.countP (· ∉ done) - 1 else targets.countP (· ∉ done) := by
  induction targets with
  | nil => simp
  | cons target rest ih =>
    obtain ⟨unlisted, distinct⟩ := List.nodup_cons.mp distinct
    rw [List.countP_cons, List.countP_cons, ih distinct]
    by_cases same : target = record
    · subst same
      simp [unlisted, fresh]
    · by_cases later : record ∈ rest
      · have positive : 0 < rest.countP (· ∉ done) :=
          List.countP_pos_iff.mpr ⟨record, later, by simpa using fresh⟩
        have listed : record ∈ target :: rest := List.mem_cons_of_mem _ later
        have kept : decide (target ∉ record :: done) = decide (target ∉ done) := by simp [same]
        rw [if_pos later, if_pos listed, kept]
        exact (Nat.sub_add_comm positive).symm
      · have unlistedRecord : record ∉ target :: rest := by simp [Ne.symm same, later]
        have kept : decide (target ∉ record :: done) = decide (target ∉ done) := by simp [same]
        rw [if_neg later, if_neg unlistedRecord, kept]

/-- The types that wait from a turn on. -/
def released (model : Model) (progress : Progress) (record : RecordId) : List RecordId :=
  (dependents model record).filter fun id => progress.count id - 1 = 0

private theorem advance_eq {progress : Progress} (size : progress.openCount.size = model.records.size)
    (record : RecordId) (rest : List RecordId) :
    (advance model progress record rest).done = record :: progress.done ∧
      (advance model progress record rest).openCount.size = progress.openCount.size ∧
      (∀ id, (advance model progress record rest).count id =
        if id ∈ dependents model record then progress.count id - 1 else progress.count id) ∧
      (advance model progress record rest).waiting = rest ++ released model progress record :=
  foldl_release ((recordIds_nodup model).filter _)
    { progress with waiting := rest, done := record :: progress.done } fun id member => by
      rw [size]
      exact (mem_dependents.mp member).1

/-- A type that loses a dependency has one open before, so it neither waits nor has had its turn. -/
theorem advance_good {progress : Progress} (good : progress.Good model) {record : RecordId}
    {rest : List RecordId} (next : progress.waiting = record :: rest) :
    (advance model progress record rest).Good model := by
  obtain ⟨done, size, counts, waiting⟩ := advance_eq good.size record rest
  have distinct := good.distinct
  have ready := good.ready
  have inside := good.inside
  rw [next] at distinct ready inside
  rw [List.cons_append, List.nodup_cons, List.mem_append, not_or] at distinct
  obtain ⟨⟨notWaiting, fresh⟩, distinct⟩ := distinct
  have bound := inside record List.mem_cons_self
  have unsettled : ∀ id ∈ dependents model record, id ∉ record :: rest ++ progress.done := by
    intro id member settled
    obtain ⟨there, depends⟩ := mem_dependents.mp member
    have positive : 0 < progress.count id := by
      rw [good.counts id there]
      refine List.countP_pos_iff.mpr ⟨record, ?_, by simpa using fresh⟩
      exact mem_dependencies.mpr ⟨bound, depends⟩
    exact Nat.ne_of_gt positive (ready id settled)
  have free : ∀ id ∈ released model progress record,
      id ∈ dependents model record ∧ progress.count id - 1 = 0 := by
    intro id member
    simpa using List.mem_filter.mp member
  constructor
  case size => exact size.trans good.size
  case counts =>
    intro id there
    have both : id ∈ dependents model record ↔ record ∈ dependencies model id := by
      rw [mem_dependents, mem_dependencies]
      simp only [bound, there, true_and]
    rw [counts, done, good.counts id there]
    simp only [both]
    exact (countP_notMem_cons ((recordIds_nodup model).filter _) fresh).symm
  case ready =>
    intro id member
    rw [done, waiting] at member
    rw [counts]
    split
    · rename_i dependent
      have unlisted := unsettled id dependent
      have last : id ∈ released model progress record := by grind
      exact (free id last).2
    · rename_i independent
      exact ready id (by grind)
  case inside =>
    intro id member
    rw [done, waiting] at member
    by_cases dependent : id ∈ dependents model record
    · exact (mem_dependents.mp dependent).1
    · exact inside id (by grind)
  case distinct =>
    have releasedDistinct : (released model progress record).Nodup :=
      ((recordIds_nodup model).filter _).filter _
    have apart : ∀ id ∈ released model progress record, id ∉ record :: rest ++ progress.done :=
      fun id member => unsettled id (free id member).1
    rw [done, waiting]
    grind [List.nodup_append]
  case ordered =>
    rw [done]
    have waits : record ∈ progress.waiting := by simp [next]
    exact .cons (good.complete waits) good.ordered

theorem run_good (fuel : Nat) {progress : Progress} (good : progress.Good model) :
    (run model fuel progress).Good model := by
  induction fuel generalizing progress with
  | zero => exact good
  | succ fuel ih =>
    rw [run]
    split
    · exact good
    · rename_i record rest next
      exact ih (advance_good good next)

theorem start_good (model : Model) : (start model).Good model := by
  have counts : ∀ id : RecordId, id.index < model.records.size →
      (start model).count id = (dependencies model id).length := by
    intro id inside
    simp [start, Progress.count, Model.recordIds, Array.getD, inside]
  constructor
  case size => simp [start, Model.recordIds]
  case counts =>
    intro id inside
    rw [counts id inside]
    simp [start, List.countP_true]
  case ready =>
    intro id member
    simp only [start, List.append_nil, List.mem_filter, List.isEmpty_iff] at member
    rw [counts id (mem_recordIds.mp member.1), member.2, List.length_nil]
  case inside =>
    intro id member
    simp only [start, List.append_nil, List.mem_filter] at member
    exact mem_recordIds.mp member.1
  case distinct =>
    simp only [start, List.append_nil]
    exact (recordIds_nodup model).filter _
  case ordered => exact .nil

/-- A list of types in which each stands once and after the types that it depends on. -/
structure IsOrder (model : Model) (ids : List RecordId) : Prop where
  distinct : ids.Nodup
  complete : ∀ id : RecordId, id ∈ ids ↔ id.index < model.records.size
  ordered : Ordered model ids.reverse

theorem order_ok {ids : List RecordId} (accepted : order model = .ok ids) : IsOrder model ids := by
  unfold order at accepted
  have good := run_good model.records.size (start_good model)
  dsimp only at accepted
  split at accepted
  · rename_i full
    cases accepted
    generalize run model model.records.size (start model) = final at good full
    have distinct : final.done.Nodup := good.distinct.of_append_right
    have covered : final.done ⊆ model.recordIds := fun id member =>
      mem_recordIds.mpr (good.inside id (List.mem_append_right _ member))
    have few : model.recordIds.length ≤ final.done.length := by
      rw [full]
      simp [Model.recordIds]
    have perm : final.done.Perm model.recordIds :=
      (distinct.subperm covered).perm_of_length_le few
    refine ⟨List.nodup_reverse.mpr distinct, fun id => ?_, ?_⟩
    · rw [List.mem_reverse, ← mem_recordIds, perm.mem_iff]
    · rw [List.reverse_reverse]
      exact good.ordered
  · cases accepted

theorem Ordered.of_append {later earlier : List RecordId} (ordered : Ordered model (later ++ earlier)) :
    Ordered model earlier := by
  induction later with
  | nil => exact ordered
  | cons record rest ih =>
    cases ordered with
    | cons _ tail => exact ih tail

/-- What a type depends on comes before it. -/
theorem IsOrder.before {ids seen rest : List RecordId} {id : RecordId} (isOrder : IsOrder model ids)
    (split : ids = seen ++ id :: rest) : ∀ target ∈ dependencies model id, target ∈ seen := by
  have ordered := isOrder.ordered
  rw [split, List.reverse_append, List.reverse_cons, List.append_assoc] at ordered
  intro target needed
  cases ordered.of_append with
  | cons earlier _ => exact List.mem_reverse.mp (earlier target needed)

/-!
## An order is found if there is one
-/

/-- Whatever has no open dependencies waits or has had its turn. -/
def Progress.Fair (model : Model) (progress : Progress) : Prop :=
  ∀ id : RecordId, id.index < model.records.size → progress.count id = 0 →
    id ∈ progress.waiting ++ progress.done

private theorem advance_fair {progress : Progress} (good : progress.Good model) (fair : progress.Fair model)
    {record : RecordId} {rest : List RecordId} (next : progress.waiting = record :: rest) :
    (advance model progress record rest).Fair model := by
  obtain ⟨done, _, counts, waiting⟩ := advance_eq good.size record rest
  intro id inside none
  rw [done, waiting, List.append_assoc]
  rw [counts] at none
  split at none
  · rename_i dependent
    have last : id ∈ released model progress record :=
      List.mem_filter.mpr ⟨dependent, by simpa using none⟩
    exact List.mem_append_right _ (List.mem_append_left _ last)
  · have settled := fair id inside none
    rw [next] at settled
    grind

theorem start_fair (model : Model) : (start model).Fair model := by
  intro id inside none
  have good := start_good model
  rw [good.counts id inside] at none
  have empty : dependencies model id = [] := by
    refine List.eq_nil_iff_forall_not_mem.mpr fun target needed => ?_
    simpa [start] using List.countP_eq_zero.mp none target needed
  refine List.mem_append_left _ (List.mem_filter.mpr ⟨mem_recordIds.mpr inside, ?_⟩)
  rw [empty]
  rfl

/-- Turns are given until none waits or there have been as many as allowed. -/
theorem run_ends (fuel : Nat) {progress : Progress} (good : progress.Good model)
    (fair : progress.Fair model) :
    (run model fuel progress).Fair model ∧ ((run model fuel progress).waiting = [] ∨
      (run model fuel progress).done.length = progress.done.length + fuel) := by
  induction fuel generalizing progress with
  | zero => exact ⟨fair, .inr rfl⟩
  | succ fuel ih =>
    rw [run]
    split
    · rename_i idle
      exact ⟨fair, .inl idle⟩
    · rename_i record rest next
      obtain ⟨later, ends⟩ := ih (advance_good good next) (advance_fair good fair next)
      have done := (advance_eq good.size record rest).1
      refine ⟨later, ends.imp_right fun full => ?_⟩
      rw [full, done, List.length_cons, Nat.add_assoc, Nat.add_comm 1 fuel]

/-- When none waits, every type that comes after its dependencies has had its turn. -/
theorem Ordered.subset_done {ids : List RecordId} (ordered : Ordered model ids)
    (inside : ∀ id ∈ ids, id.index < model.records.size) {progress : Progress}
    (good : progress.Good model) (fair : progress.Fair model) (idle : progress.waiting = []) :
    ∀ id ∈ ids, id ∈ progress.done := by
  induction ordered with
  | nil => exact fun _ none => nomatch none
  | @cons record earlier needed _ ih =>
    obtain ⟨here, others⟩ := List.forall_mem_cons.mp inside
    have before := ih others
    refine List.forall_mem_cons.mpr ⟨?_, before⟩
    have none : progress.count record = 0 := by
      rw [good.counts record here]
      refine List.countP_eq_zero.mpr fun target depends => ?_
      simpa using before target (needed target depends)
    simpa [idle] using fair record here none

theorem IsOrder.exists_order {ids : List RecordId} (isOrder : IsOrder model ids) :
    ∃ found, order model = .ok found := by
  have good := run_good model.records.size (start_good model)
  obtain ⟨fair, ends⟩ := run_ends model.records.size (start_good model) (start_fair model)
  have full : (run model model.records.size (start model)).done.length = model.records.size := by
    rcases ends with idle | counted
    · have covered : model.recordIds ⊆ (run model model.records.size (start model)).done := by
        intro id listed
        refine isOrder.ordered.subset_done ?_ good fair idle id ?_
        · exact fun other member => (isOrder.complete other).mp (List.mem_reverse.mp member)
        · exact List.mem_reverse.mpr ((isOrder.complete id).mpr (mem_recordIds.mp listed))
      have most : (run model model.records.size (start model)).done.length ≤ model.records.size :=
        Model.length_le_records good.distinct.of_append_right
          fun id member => good.inside id (List.mem_append_right _ member)
      have least := (recordIds_nodup model).length_le_of_subset covered
      rw [Model.recordIds, List.length_map, List.length_range] at least
      exact Nat.le_antisymm most least
    · rw [counted, start]
      exact Nat.zero_add _
  exact ⟨_, if_pos full⟩

end RecordSchema.Layout
