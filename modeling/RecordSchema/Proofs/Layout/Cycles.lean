import RecordSchema.Proofs.Layout.Placement
import RecordSchema.Proofs.Walks

/-!
# Orders and cycles

A type needs its base and the types of its attributes. Turns go on until no type waits, and then those
that have had theirs are the types whose needs come to an end. So an order is found if and only if no
type needs itself, directly or through others, and what is left over leads to a type that does.
-/

set_option autoImplicit false

namespace RecordSchema.Layout

open Relation (ReflTransGen TransGen)

/-- A type has another as its base, or as the type of one of its attributes. -/
def Needs (model : Model) (record target : RecordId) : Prop :=
  (model.record record).base = some target ∨
    ∃ attr ∈ (model.record record).attributes, (model.attr attr).type = .record target

/-- From a type there is a way to one that needs itself. -/
def LeadsToCycle (model : Model) (record : RecordId) : Prop :=
  ∃ place, ReflTransGen (Needs model) record place ∧ TransGen (Needs model) place place

variable {model : Model}

theorem dependsOn_iff {record target : RecordId} :
    dependsOn model record target = true ↔ Needs model record target := by
  simp [dependsOn, Needs]

private theorem mem_dependencies_iff (closed : model.Closed) {record target : RecordId} :
    target ∈ dependencies model record ↔ Needs model record target := by
  rw [← dependsOn_iff]
  exact ⟨fun needed => (mem_dependencies.mp needed).2, mem_dependencies_of_dependsOn closed⟩

/-- The needs of a type come to an end. -/
def Settles (model : Model) (record : RecordId) : Prop :=
  Acc (fun target record => Needs model record target) record

private theorem settles_iff (closed : model.Closed) {record : RecordId} :
    Settles model record ↔ ¬ LeadsToCycle model record := by
  have inside : ∀ place target, Needs model place target → target.index < model.records.size :=
    fun _ _ needed => (mem_dependencies.mp ((mem_dependencies_iff closed).mpr needed)).1
  rw [Settles, acc_iff_no_loop (finite_reached (fun _ _ same => RecordId.ext same) inside record)]
  simp only [LeadsToCycle, not_exists, not_and]

/-!
## The end of the turns
-/

private theorem run_idle {progress : Progress} (idle : progress.waiting = []) (turns : Nat) :
    run model turns progress = progress := by
  cases turns with
  | zero => rfl
  | succ turns => rw [run, idle]

private theorem run_add (turns more : Nat) (progress : Progress) :
    run model (turns + more) progress = run model more (run model turns progress) := by
  induction turns generalizing progress with
  | zero => rw [Nat.zero_add, run]
  | succ turns ih =>
    rw [Nat.add_right_comm, run, run]
    split
    · rename_i idle
      exact (run_idle idle more).symm
    · exact ih _

/-- Nobody waits after as many turns as there are types. -/
theorem run_waiting (model : Model) :
    (run model model.records.size (start model)).waiting = [] := by
  have good := run_good model.records.size (start_good model)
  obtain ⟨-, idle | full⟩ := run_ends model.records.size (start_good model) (start_fair model)
  · exact idle
  · have most := Model.length_le_records good.distinct good.inside
    rw [List.length_append, full] at most
    exact List.eq_nil_of_length_eq_zero (by omega)

theorem Ordered.settles (closed : model.Closed) {ids : List RecordId} (ordered : Ordered model ids) :
    ∀ record ∈ ids, Settles model record := by
  induction ordered with
  | nil => exact fun _ none => nomatch none
  | cons needed _ ih =>
    refine List.forall_mem_cons.mpr ⟨?_, ih⟩
    exact .intro _ fun target needs => ih target (needed target ((mem_dependencies_iff closed).mpr needs))

/-- When none waits, the types that have had their turn are those whose needs come to an end. -/
theorem mem_done_iff (closed : model.Closed) {progress : Progress} (good : progress.Good model)
    (fair : progress.Fair model) (idle : progress.waiting = []) {record : RecordId}
    (inside : record.index < model.records.size) :
    record ∈ progress.done ↔ Settles model record := by
  constructor
  · exact good.ordered.settles closed record
  · intro settles
    induction settles with
    | intro record _ ih =>
      have none : progress.count record = 0 := by
        rw [good.counts record inside]
        refine List.countP_eq_zero.mpr fun target needed => ?_
        have there := (mem_dependencies.mp needed).1
        simpa using ih target ((mem_dependencies_iff closed).mp needed) there
      simpa [idle] using fair record inside none

/-!
## The answer
-/

/-- Ordering ends when none waits; it answers with the types that have had their turn if these are all,
and otherwise with those that have not. -/
theorem order_eq (model : Model) : ∃ final : Progress, final.Good model ∧ final.Fair model ∧
    final.waiting = [] ∧ order model =
      if final.done.length = model.records.size then .ok final.done.reverse
      else .error (model.recordIds.filter (· ∉ final.done)) := by
  have good := run_good model.records.size (start_good model)
  obtain ⟨fair, -⟩ := run_ends model.records.size (start_good model) (start_fair model)
  have idle := run_waiting model
  refine ⟨_, good, fair, idle, ?_⟩
  unfold order
  dsimp only
  generalize run model model.records.size (start model) = final at good fair idle ⊢
  have left : model.recordIds.filter (fun record => 0 < final.openCount.getD record.index 0) =
      model.recordIds.filter (· ∉ final.done) := by
    refine List.filter_congr fun record listed => ?_
    have inside := mem_recordIds.mp listed
    have settled : final.count record = 0 ↔ record ∈ final.done := by
      have ready := good.ready record
      have found := fair record inside
      rw [idle, List.nil_append] at ready found
      exact ⟨found, ready⟩
    rw [decide_eq_decide, ← settled]
    exact Nat.pos_iff_ne_zero
  rw [left]

theorem recordIds_ascending (model : Model) : model.recordIds.Pairwise (·.index < ·.index) :=
  List.pairwise_map.mpr List.pairwise_lt_range

theorem Needs.inside {record target : RecordId} (needed : Needs model record target) :
    record.index < model.records.size := by
  by_contra outside
  rw [Needs, model.record_eq_default outside] at needed
  rcases needed with none | ⟨_, listed, _⟩
  · cases none
  · cases listed

/-- A type that leads anywhere is a type of the model. -/
theorem LeadsToCycle.inside {record : RecordId} (leads : LeadsToCycle model record) :
    record.index < model.records.size := by
  obtain ⟨place, reached, loop⟩ := leads
  have needs : ∃ target, Needs model record target := by
    rcases ReflTransGen.cases_head reached with rfl | ⟨target, needed, -⟩
    · obtain ⟨target, needed, -⟩ := TransGen.head'_iff.mp loop
      exact ⟨target, needed⟩
    · exact ⟨target, needed⟩
  obtain ⟨target, needed⟩ := needs
  exact needed.inside

theorem exists_order_iff (closed : model.Closed) :
    (∃ ids, order model = .ok ids) ↔ ∀ record, ¬ LeadsToCycle model record := by
  constructor
  · rintro ⟨ids, found⟩ record leads
    have isOrder := order_ok found
    have listed := List.mem_reverse.mpr ((isOrder.complete record).mpr leads.inside)
    exact (settles_iff closed).mp (isOrder.ordered.settles closed record listed) leads
  · intro free
    obtain ⟨final, good, fair, idle, answer⟩ := order_eq model
    have covered : model.recordIds ⊆ final.done := fun record listed =>
      (mem_done_iff closed good fair idle (mem_recordIds.mp listed)).mpr
        ((settles_iff closed).mpr (free record))
    have most := Model.length_le_records good.distinct.of_append_right
      fun record member => good.inside record (List.mem_append_right _ member)
    have least := (recordIds_nodup model).length_le_of_subset covered
    rw [Model.recordIds, List.length_map, List.length_range] at least
    exact ⟨_, answer.trans (if_pos (Nat.le_antisymm most least))⟩

/-- What is left over when no order is found. -/
theorem mem_of_order_error (closed : model.Closed) {ids : List RecordId}
    (failed : order model = .error ids) (record : RecordId) :
    record ∈ ids ↔ LeadsToCycle model record := by
  obtain ⟨final, good, fair, idle, answer⟩ := order_eq model
  have done : ∀ record : RecordId, record.index < model.records.size →
      (record ∈ final.done ↔ ¬ LeadsToCycle model record) := fun record inside =>
    (mem_done_iff closed good fair idle inside).trans (settles_iff closed)
  rw [answer] at failed
  split at failed
  · cases failed
  · cases failed
    rw [List.mem_filter, mem_recordIds, decide_eq_true_eq]
    constructor
    · rintro ⟨inside, left⟩
      by_contra free
      exact left ((done record inside).mpr free)
    · intro leads
      exact ⟨leads.inside, fun had => (done record leads.inside).mp had leads⟩

theorem ascending_of_order_error {ids : List RecordId} (failed : order model = .error ids) :
    ids.Pairwise (·.index < ·.index) := by
  obtain ⟨final, -, -, -, answer⟩ := order_eq model
  rw [answer] at failed
  split at failed
  · cases failed
  · cases failed
    exact (recordIds_ascending model).filter _

/-- An order is found exactly if no type needs itself, directly or through others. It has every type once
and each after what it needs. Otherwise the answer is, in ascending order, the types from which there is a
way to a type that needs itself, and these are named in the refusal. In either case no type waits after as
many turns as there are types. -/
theorem order_sorts (closed : model.Closed) :
    ((∃ ids, order model = .ok ids) ↔ ∀ record, ¬ TransGen (Needs model) record record) ∧
    (∀ ids, order model = .ok ids → ids.Perm model.recordIds ∧
      ∀ seen record rest, ids = seen ++ record :: rest →
        ∀ target, Needs model record target → target ∈ seen) ∧
    (∀ ids, order model = .error ids → ids.Pairwise (·.index < ·.index) ∧
      (∀ record, record ∈ ids ↔ LeadsToCycle model record) ∧
        orderOrRefuse model = refuse (.layoutCycle ((ids.map model.recordPath).head?.getD "")
          (ids.map model.recordPath))) ∧
    ∀ turns, model.records.size ≤ turns →
      run model turns (start model) = run model model.records.size (start model) ∧
        (run model turns (start model)).waiting = [] := by
  refine ⟨?_, ?_, fun ids failed =>
    ⟨ascending_of_order_error failed, mem_of_order_error closed failed, ?_⟩, ?_⟩
  · rw [exists_order_iff closed]
    constructor
    · exact fun free record loop => free record ⟨record, .refl, loop⟩
    · rintro acyclic record ⟨place, -, loop⟩
      exact acyclic place loop
  · intro ids found
    have isOrder := order_ok found
    refine ⟨(List.perm_ext_iff_of_nodup isOrder.distinct (recordIds_nodup model)).mpr fun record => ?_, ?_⟩
    · rw [isOrder.complete, mem_recordIds]
    · intro seen record rest split target needs
      exact isOrder.before split target ((mem_dependencies_iff closed).mpr needs)
  · rw [orderOrRefuse, failed]
  · intro turns enough
    obtain ⟨more, rfl⟩ := Nat.exists_eq_add_of_le enough
    have same := @run_idle model _ (run_waiting model) more
    rw [run_add, same]
    exact ⟨rfl, run_waiting model⟩

/-- A type that stands alone, two of which one extends the other and is held by it, and one that holds
the first three. -/
def entangledModel : Model where
  packages := #[{ name := "Sample", members := [("Plain", .record ⟨0⟩), ("Holder", .record ⟨1⟩),
    ("Extension", .record ⟨2⟩), ("User", .record ⟨3⟩)] }]
  records := #[{ name := "Plain" }, { name := "Holder", attributes := [⟨0⟩] },
    { name := "Extension", base := some ⟨1⟩ }, { name := "User", attributes := [⟨1⟩, ⟨2⟩, ⟨3⟩] }]
  attributes := #[{ name := "held", owner := ⟨1⟩, type := .record ⟨2⟩ },
    { name := "plain", owner := ⟨3⟩, type := .record ⟨0⟩ },
    { name := "holder", owner := ⟨3⟩, type := .record ⟨1⟩ },
    { name := "extension", owner := ⟨3⟩, type := .record ⟨2⟩ }]
  roots := [("Sample", ⟨0⟩)]

theorem order_sorts_sample : entangledModel.Closed ∧
    order entangledModel = .error [⟨1⟩, ⟨2⟩, ⟨3⟩] ∧ LeadsToCycle entangledModel ⟨3⟩ ∧
    ¬ LeadsToCycle entangledModel ⟨0⟩ ∧
    orderOrRefuse entangledModel =
      refuse (.layoutCycle "Sample.Holder" ["Sample.Holder", "Sample.Extension", "Sample.User"]) := by
  have inRange : ∀ reference ∈ entangledModel.references,
      reference.InRange entangledModel.census := by decide
  have closed : entangledModel.Closed := Model.closedFor_iff.mpr inRange
  have failed : order entangledModel = .error [⟨1⟩, ⟨2⟩, ⟨3⟩] := rfl
  obtain ⟨-, -, left, -⟩ := order_sorts closed
  obtain ⟨-, leads, refused⟩ := left _ failed
  have named : [⟨1⟩, ⟨2⟩, ⟨3⟩].map entangledModel.recordPath =
      ["Sample.Holder", "Sample.Extension", "Sample.User"] := by decide +kernel
  rw [named] at refused
  exact ⟨closed, failed, (leads ⟨3⟩).mp (by simp), mt (leads ⟨0⟩).mpr (by simp), refused⟩

end RecordSchema.Layout
