import Mathlib.Data.List.Chain
import Mathlib.Data.Set.Finite.Basic
import Mathlib.Logic.Relation
import Mathlib.Order.RelClasses

/-!
# Walks that end and walks that come back

A relation leads from place to place. Where finitely many places are within reach, every walk ends if and
only if there is no loop to be reached. Where there is one way on from each place, a walk that has come back
to a place it passed goes round from there, and what it passed before is on no loop.
-/

set_option autoImplicit false

namespace RecordSchema

variable {α : Type} {next other : α → α → Prop} {start : α}

theorem no_loop_of_acc (ends : Acc (fun later earlier => next earlier later) start) {place : α}
    (reached : Relation.ReflTransGen next start place) : ¬ Relation.TransGen next place place := by
  induction ends with
  | intro start _ ih =>
    intro loop
    rcases Relation.ReflTransGen.cases_head reached with rfl | ⟨first, step, more⟩
    · obtain ⟨first, step, back⟩ := Relation.TransGen.head'_iff.mp loop
      exact ih first step back loop
    · exact ih first step more loop

/-- Where finitely many places can be reached, every walk ends unless there is a loop within reach. Within
reach, going on is then a strict order on finitely many places. -/
theorem acc_iff_no_loop (finite : {place | Relation.ReflTransGen next start place}.Finite) :
    Acc (fun later earlier => next earlier later) start ↔
      ∀ place, Relation.ReflTransGen next start place → ¬ Relation.TransGen next place place := by
  constructor
  · exact fun ends _ reached => no_loop_of_acc ends reached
  · intro noLoop
    let Reached := {place // Relation.ReflTransGen next start place}
    let behind : Reached → Reached → Prop := fun later earlier =>
      Relation.TransGen next earlier.1 later.1
    have : Finite Reached := finite
    have : IsTrans Reached behind := ⟨fun _ _ _ first second => second.trans first⟩
    have : Std.Irrefl behind := ⟨fun place => noLoop place.1 place.2⟩
    have founded : WellFounded behind := Finite.wellFounded_of_trans_of_irrefl behind
    have each : ∀ place : Reached, Acc (fun later earlier => next earlier later) place.1 := by
      intro place
      induction place using founded.induction with
      | _ place ih =>
        exact .intro _ fun later step => ih ⟨later, place.2.tail step⟩ (.single step)
    exact each ⟨start, .refl⟩

/-- Where no step leads beyond a bound, finitely many places can be reached. -/
theorem finite_reached {index : α → Nat} (injective : Function.Injective index) {bound : Nat}
    (inside : ∀ place later, next place later → index later < bound) (start : α) :
    {place | Relation.ReflTransGen next start place}.Finite := by
  have within : {place | index place < bound}.Finite :=
    (Set.finite_lt_nat bound).preimage injective.injOn
  refine (within.insert start).subset fun place reached => ?_
  rcases Relation.ReflTransGen.cases_tail reached with rfl | ⟨_, _, last⟩
  · exact Set.mem_insert _ _
  · exact Set.mem_insert_of_mem _ (inside _ _ last)

/-- Walks with the same steps within reach end alike. -/
theorem acc_congr (same : ∀ place, Relation.ReflTransGen next start place →
      ∀ later, other place later ↔ next place later) :
    Acc (fun later earlier => other earlier later) start ↔
      Acc (fun later earlier => next earlier later) start := by
  constructor
  · intro ends
    induction ends with
    | intro start _ ih =>
      refine .intro _ fun later step => ?_
      exact ih later ((same start .refl later).mpr step) fun place reached =>
        same place (.head step reached)
  · intro ends
    induction ends with
    | intro start _ ih =>
      refine .intro _ fun later step => ?_
      have step := (same start .refl later).mp step
      exact ih later step fun place reached => same place (.head step reached)

/-- Where each place leads only to later ones in a list, walks neither leave the list nor come back. -/
theorem no_loop_of_order [DecidableEq α] {places : List α}
    (ordered : ∀ place ∈ places, ∀ later, next place later →
      later ∈ places ∧ places.idxOf place < places.idxOf later)
    (inside : start ∈ places) {place : α} (reached : Relation.ReflTransGen next start place) :
    place ∈ places ∧ ¬ Relation.TransGen next place place := by
  have within : place ∈ places := by
    induction reached with
    | refl => exact inside
    | tail _ step ih => exact (ordered _ ih _ step).1
  have behind : ∀ {first last}, first ∈ places → Relation.TransGen next first last →
      last ∈ places ∧ places.idxOf first < places.idxOf last := by
    intro first last here walk
    induction walk with
    | single step => exact ordered _ here _ step
    | tail _ step ih =>
      obtain ⟨there, later⟩ := ordered _ ih.1 _ step
      exact ⟨there, ih.2.trans later⟩
  exact ⟨within, fun loop => Nat.lt_irrefl _ (behind within loop).2⟩

/-!
## Walks that come back
-/

section Back

open Relation (ReflTransGen TransGen)

/-- Where there is one way on, a place on a loop is reached again from wherever it leads. -/
theorem back_of_loop (unique : Relator.RightUnique next) {start place : α}
    (loop : TransGen next start start) (reached : ReflTransGen next start place) :
    ReflTransGen next place start := by
  induction reached with
  | refl => exact .refl
  | tail _ step ih =>
    rcases ReflTransGen.cases_head ih with rfl | ⟨after, other, back⟩
    · obtain ⟨after, other, back⟩ := TransGen.head'_iff.mp loop
      rw [unique step other]
      exact back
    · rw [unique step other]
      exact back

/-- A walk that has come back to a place it passed: what it passed before that place, the place, and what
it passed since. -/
structure ComesBack (next : α → α → Prop) (before : List α) (again : α) (loop : List α) : Prop where
  linked : (before ++ again :: loop ++ [again]).IsChain next
  distinct : (before ++ again :: loop).Nodup

namespace ComesBack

variable {before loop : List α} {again : α} (walk : ComesBack next before again loop)

include walk

theorem follows : (before ++ again :: loop ++ [again]).Pairwise (TransGen next) :=
  List.isChain_iff_pairwise.mp (walk.linked.imp fun _ _ step => .single step)

theorem onLoop {place : α} (passed : place ∈ again :: loop) : TransGen next place place := by
  have follows := walk.follows
  rw [List.append_assoc, List.pairwise_append] at follows
  obtain ⟨-, follows, -⟩ := follows
  have back : TransGen next place again :=
    (List.pairwise_append.mp follows).2.2 place passed again (List.mem_singleton_self again)
  rcases List.mem_cons.mp passed with rfl | since
  · exact back
  · have there := (List.pairwise_cons.mp follows).1 place (List.mem_append_left _ since)
    exact back.trans there

/-- From the place it came back to, the walk reaches nothing but the loop. -/
theorem mem_of_reached (unique : Relator.RightUnique next) {place : α}
    (reached : ReflTransGen next again place) : place ∈ again :: loop := by
  have steps := walk.linked
  rw [List.append_assoc] at steps
  have steps := steps.right_of_append
  induction reached with
  | refl => exact List.mem_cons_self
  | @tail here after _ step ih =>
    obtain ⟨front, back, split⟩ := List.append_of_mem ih
    rw [split, List.append_assoc] at steps
    obtain ⟨following, rest, more⟩ : ∃ following rest, back ++ [again] = following :: rest :=
      List.exists_cons_of_ne_nil (by simp)
    have onward : next here following := by
      have steps := steps.right_of_append
      rw [List.cons_append, more] at steps
      exact (List.isChain_cons_cons.mp steps).1
    rw [unique step onward]
    have listed : following ∈ back ++ [again] := more ▸ List.mem_cons_self
    rcases List.mem_append.mp listed with within | last
    · rw [split]
      exact List.mem_append_right _ (List.mem_cons_of_mem _ within)
    · rw [List.mem_singleton.mp last]
      exact List.mem_cons_self

theorem onLoop_iff (unique : Relator.RightUnique next) {place : α}
    (passed : place ∈ before ++ again :: loop) :
    TransGen next place place ↔ place ∈ again :: loop := by
  refine ⟨fun loops => ?_, walk.onLoop⟩
  rcases List.mem_append.mp passed with earlier | within
  · have reached : TransGen next place again := by
      have follows := walk.follows
      rw [List.append_assoc] at follows
      exact (List.pairwise_append.mp follows).2.2 place earlier again (by simp)
    exact walk.mem_of_reached unique (back_of_loop unique loops reached.to_reflTransGen)
  · exact within

/-- The walk starts on the loop only if it comes back to its start. -/
theorem start_onLoop_iff (unique : Relator.RightUnique next) {start : α}
    (first : (before ++ again :: loop).head? = some start) :
    TransGen next start start ↔ before = [] := by
  rw [walk.onLoop_iff unique (List.mem_of_head? first)]
  constructor
  · intro within
    cases before with
    | nil => rfl
    | cons head rest =>
      cases first
      exact absurd (List.mem_append_right rest within) (List.nodup_cons.mp walk.distinct).1
  · rintro rfl
    cases first
    exact List.mem_cons_self

end ComesBack

end Back

end RecordSchema
