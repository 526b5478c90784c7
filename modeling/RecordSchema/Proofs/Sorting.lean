import Mathlib.Data.List.Sort

/-!
# Sorted lists

What sorting by a key leaves as it was, and what comes of dropping repetitions from what is sorted.
-/

set_option autoImplicit false

namespace RecordSchema.Sorting

section Repetitions

variable {α : Type} [DecidableEq α]

private theorem eraseRepsLoop_eq (first : α) (rest found : List α) :
    List.eraseRepsBy.loop (· == ·) first rest found = found.reverse ++ (first :: rest).eraseReps := by
  induction rest generalizing first found with
  | nil => exact List.reverse_cons
  | cons next rest ih =>
    rw [List.eraseReps, List.eraseRepsBy, List.eraseRepsBy.loop.eq_2, List.eraseRepsBy.loop.eq_2]
    by_cases same : first = next
    · subst same
      simp only [beq_self_eq_true]
      exact (ih first found).trans (congrArg _ (ih first []).symm)
    · simp only [beq_false_of_ne same]
      rw [ih next (first :: found), ih next [first], List.reverse_cons, List.append_assoc]
      rfl

private theorem eraseReps_cons_cons (first second : α) (rest : List α) :
    (first :: second :: rest).eraseReps =
      if first = second then (first :: rest).eraseReps
      else first :: (second :: rest).eraseReps := by
  rw [List.eraseReps, List.eraseRepsBy, List.eraseRepsBy.loop.eq_2]
  by_cases same : first = second
  · subst same
    simp only [beq_self_eq_true, if_true]
    exact eraseRepsLoop_eq first rest []
  · simp only [beq_false_of_ne same, if_neg same]
    exact eraseRepsLoop_eq second rest [first]

theorem mem_eraseReps {item : α} {items : List α} : item ∈ items.eraseReps ↔ item ∈ items := by
  cases items with
  | nil => rfl
  | cons first rest =>
    induction rest generalizing first with
    | nil => rfl
    | cons second rest ih =>
      rw [eraseReps_cons_cons]
      split
      · rename_i same
        subst same
        rw [ih first, List.mem_cons, List.mem_cons, List.mem_cons, ← or_assoc, or_self]
      · rw [List.mem_cons, ih second, List.mem_cons (l := second :: rest)]

/-- Without repetitions what is sorted ascends. -/
theorem pairwise_eraseReps [LE α] [LT α] [Std.IsPartialOrder α] [Std.LawfulOrderLT α]
    {items : List α} (sorted : items.Pairwise (· ≤ ·)) : items.eraseReps.Pairwise (· < ·) := by
  cases items with
  | nil => exact .nil
  | cons first rest =>
    induction rest generalizing first with
    | nil => exact List.pairwise_singleton _ _
    | cons second rest ih =>
      obtain ⟨least, later⟩ := List.pairwise_cons.mp sorted
      rw [eraseReps_cons_cons]
      split
      · rename_i same
        subst same
        exact ih first later
      · rename_i different
        refine List.pairwise_cons.mpr ⟨fun other among => ?_, ih second later⟩
        have below := least second List.mem_cons_self
        rcases List.mem_cons.mp (mem_eraseReps.mp among) with rfl | among
        · exact Std.lt_of_le_of_ne below different
        · exact Std.lt_of_lt_of_le (Std.lt_of_le_of_ne below different)
            ((List.pairwise_cons.mp later).1 other among)

end Repetitions

section Keys

variable {α κ : Type} [LE κ] [DecidableLE κ] [Std.IsLinearOrder κ] (key : α → κ)

theorem pairwise_mergeSort (items : List α) :
    (items.mergeSort fun left right => key left ≤ key right).Pairwise
      fun left right => key left ≤ key right := by
  have sorted : (items.mergeSort fun left right => key left ≤ key right).Pairwise
      fun left right => decide (key left ≤ key right) = true :=
    List.pairwise_mergeSort (by simpa using fun _ _ _ => Std.le_trans)
      (by simpa using fun _ _ => Std.le_total) items
  exact sorted.imp of_decide_eq_true

/-- Sorting by a key keeps the order of the items of one key. -/
theorem filter_mergeSort [DecidableEq κ] (items : List α) (value : κ) :
    (items.mergeSort fun left right => key left ≤ key right).filter (key · = value) =
      items.filter (key · = value) := by
  have alike : (items.filter (key · = value)).Pairwise fun left right =>
      decide (key left ≤ key right) = true := by
    refine List.pairwise_of_forall_mem_list fun left one right other => ?_
    simp only [List.mem_filter, decide_eq_true_eq] at one other
    rw [one.2, other.2]
    exact decide_eq_true (Std.le_refl value)
  have sublist := (List.sublist_mergeSort (by simpa using fun _ _ _ => Std.le_trans)
    (by simpa using fun _ _ => Std.le_total) alike List.filter_sublist).filter (key · = value)
  rw [List.filter_filter] at sublist
  simp only [Bool.and_self] at sublist
  exact (sublist.eq_of_length (((List.mergeSort_perm items _).filter _).length_eq.symm)).symm

end Keys

end RecordSchema.Sorting
