import RecordSchema.Proofs.Layout.Cycles
import RecordSchema.Proofs.Resolution.Refusals
import RecordSchema.Proofs.Walks

/-!
# What faults for cycles tell

The check on inheritance takes the record types in order and walks along the bases of each. It blames the
first type from which the walk comes back to where it has been, and that need not be the type it comes back
to. The order of layout names all types that it could not take. So either fault may name types that only
lead to a cycle.
-/

set_option autoImplicit false

namespace RecordSchema

open Model
open Relation (ReflTransGen TransGen)

private theorem mem_front_of_lt {α : Type} {index : α → Nat} {front back : List α} {item other : α}
    (ascending : (front ++ item :: back).Pairwise (index · < index ·))
    (listed : other ∈ front ++ item :: back) (less : index other < index item) : other ∈ front := by
  have after := (List.pairwise_cons.mp (List.pairwise_append.mp ascending).2.1).1
  rcases List.mem_append.mp listed with before | here
  · exact before
  · rcases List.mem_cons.mp here with rfl | later
    · exact absurd less (Nat.lt_irrefl _)
    · exact absurd (after other later) (Nat.lt_asymm less)

/-!
## Bases without end
-/

/-- A record type has another as its base. -/
def Extends (model : Model) (record target : RecordId) : Prop :=
  (model.record record).base = some target

theorem Extends.inside {model : Model} {record target : RecordId}
    (based : Extends model record target) : record.index < model.records.size := by
  by_contra outside
  rw [Extends, model.record_eq_default outside] at based
  cases based

private theorem extends_unique (model : Model) : Relator.RightUnique (Extends model) :=
  fun _ _ _ one other => Option.some.inj (one.symm.trans other)

namespace Resolution

/-- Where bases repeat, the walk is shown up to the type that it comes back to. The chain grows at its end,
so the induction is on the steps that are left. -/
theorem repeatingBases_some {model : Model} {fuel : Nat} {chain found : List RecordId}
    {last : RecordId} (repeats : repeatingBases model fuel (chain ++ [last])
      (model.record last).base = some found)
    (linked : (chain ++ [last]).IsChain (Extends model)) (distinct : (chain ++ [last]).Nodup) :
    ∃ before again loop, found = before ++ again :: loop ++ [again] ∧
      chain ++ [last] <+: before ++ again :: loop ∧ ComesBack (Extends model) before again loop := by
  induction fuel generalizing chain last with
  | zero => cases repeats
  | succ fuel ih =>
    cases based : (model.record last).base with
    | none =>
      rw [based] at repeats
      cases repeats
    | some base =>
      have linked : (chain ++ [last] ++ [base]).IsChain (Extends model) := by
        rw [List.append_assoc, List.singleton_append]
        exact List.isChain_split.mpr ⟨linked, List.isChain_pair.mpr based⟩
      rw [based, repeatingBases] at repeats
      split at repeats
      · rename_i passed
        cases repeats
        obtain ⟨before, loop, split⟩ := List.append_of_mem passed
        exact ⟨before, base, loop, by rw [split], by rw [split], split ▸ linked, split ▸ distinct⟩
      · rename_i fresh
        obtain ⟨before, again, loop, shown, onward, walk⟩ :=
          ih repeats linked (List.concat_eq_append ▸ distinct.concat fresh)
        exact ⟨before, again, loop, shown, (List.prefix_append _ _).trans onward, walk⟩

private theorem checkInheritance_error {model : Model} (closed : model.Closed) {error : SchemaError}
    (failed : checkInheritance model = .error error) :
    ∃ blamed before again loop, error = .inheritanceCycle (model.recordPath blamed)
        ((before ++ again :: loop ++ [again]).map model.recordPath) ∧
      (before ++ again :: loop).head? = some blamed ∧
      ComesBack (Extends model) before again loop ∧
      ∀ other : RecordId, other.index < blamed.index → ∃ ids, model.BaseChain other ids := by
  obtain ⟨seen, blamed, rest, split, passed, fails⟩ := Outcome.forM_error failed
  split at fails
  · cases fails
  · rename_i found repeats
    cases fails
    have single : ([] ++ [blamed]).IsChain (Extends model) := .singleton _
    obtain ⟨before, again, loop, rfl, ⟨rest', onward⟩, walk⟩ :=
      repeatingBases_some repeats single (List.nodup_singleton _)
    refine ⟨blamed, before, again, loop, rfl, by rw [← onward]; rfl, walk, fun other earlier => ?_⟩
    have listed : blamed ∈ model.recordIds := by simp [split]
    have inside : other.index < model.records.size :=
      earlier.trans (Layout.mem_recordIds.mp listed)
    have among : other ∈ seen := mem_front_of_lt (split ▸ Layout.recordIds_ascending model)
      (split ▸ Layout.mem_recordIds.mpr inside) earlier
    have ends := passed other among
    split at ends
    · rename_i endless
      exact baseChain_of_repeatingBases closed inside endless
    · cases ends

private theorem checkIdentities_fails (model : Model) :
    Outcome.FailsOnly (fun error => ∃ typeId version first second,
      error = .duplicateIdentity typeId version first second) (checkIdentities model) := by
  have each : ∀ ids seen, Outcome.FailsOnly (fun error => ∃ typeId version first second,
      error = .duplicateIdentity typeId version first second) (checkIdentitiesFrom model seen ids) := by
    intro ids
    induction ids with
    | nil => exact fun _ => .ok _
    | cons id rest ih =>
      intro seen
      rw [checkIdentitiesFrom]
      split
      · exact ih seen
      · split
        · exact .error ⟨_, _, _, _, rfl⟩
        · exact ih _
  exact each _ _

end Resolution

/-!
## The types that are named
-/

/-- The model of a list of units once the headers of its record types are resolved. -/
def headedModel (units : List SourceUnit) : Except SchemaError Model := do
  let draft ← Draft.ofUnits units
  draft.records.toList.foldlM Resolution.resolveHeader draft.model

/-- The model of a list of units once everything but the layout is resolved. -/
def resolvedModel (units : List SourceUnit) : Except SchemaError Model := do
  let draft ← Draft.ofUnits units
  let resolved ← Resolution.resolveDeclarations draft
  .ok resolved.model

/-- What a fault for bases without end tells: the walk from the type that is blamed, which ends with the
type it comes back to. -/
structure BaseLoop (model : Model) (path : String) (names : List String) (blamed : RecordId)
    (before : List RecordId) (again : RecordId) (loop : List RecordId) : Prop where
  path : path = model.recordPath blamed
  names : names = (before ++ again :: loop ++ [again]).map model.recordPath
  start : (before ++ again :: loop).head? = some blamed
  walk : ComesBack (Extends model) before again loop
  onLoop : ∀ id ∈ before ++ again :: loop,
    TransGen (Extends model) id id ↔ id ∈ again :: loop
  blame : TransGen (Extends model) blamed blamed ↔ before = []
  earlier : ∀ other : RecordId, other.index < blamed.index → ∃ ids, model.BaseChain other ids

/-- What a fault for layouts in a cycle tells: the types from which there is a way to one that needs
itself, and the first of them is blamed. -/
structure NeedLoop (model : Model) (path : String) (names : List String) (blamed : RecordId)
    (ids : List RecordId) : Prop where
  path : path = model.recordPath blamed
  names : names = ids.map model.recordPath
  start : ids.head? = some blamed
  ascending : ids.Pairwise (·.index < ·.index)
  listed : ∀ id, id ∈ ids ↔ Layout.LeadsToCycle model id
  onLoop : ∃ id ∈ ids, TransGen (Layout.Needs model) id id

private theorem Layout.needLoop_of_order {model : Model} (closed : model.Closed) {error : SchemaError}
    (failed : orderOrRefuse model = .error (.schema error)) :
    ∃ path names blamed ids, error = .layoutCycle path names ∧
      NeedLoop model path names blamed ids := by
  unfold orderOrRefuse at failed
  split at failed
  · cases failed
  · rename_i ids left
    cases failed
    have listed := mem_of_order_error closed left
    obtain ⟨record, leads⟩ : ∃ record, LeadsToCycle model record := by
      by_contra free
      obtain ⟨order, found⟩ := (exists_order_iff closed).mpr (not_exists.mp free)
      rw [left] at found
      cases found
    obtain ⟨place, -, loop⟩ := leads
    have among : place ∈ ids := (listed place).mpr ⟨place, .refl, loop⟩
    obtain ⟨blamed, rest, rfl⟩ := List.exists_cons_of_ne_nil (List.ne_nil_of_mem among)
    exact ⟨_, _, blamed, _, rfl, rfl, rfl, rfl, ascending_of_order_error left, listed, place, among,
      loop⟩

/-- A fault for a cycle names types that lead to a cycle and shows the cycle. The type that is blamed is on
it if the walk along its bases comes back to its start, or, for layouts, if none that is listed only leads
there. -/
theorem build_cycles {units : List SourceUnit} {error : SchemaError}
    (failed : build units = .error (.schema error)) :
    (∀ path chain, error = .inheritanceCycle path chain → error.path = path ∧
      ∃ model blamed before again loop, headedModel units = .ok model ∧
        BaseLoop model path chain blamed before again loop) ∧
    (∀ path cycle, error = .layoutCycle path cycle → error.path = path ∧
      ∃ model blamed ids, resolvedModel units = .ok model ∧
        NeedLoop model path cycle blamed ids) := by
  have origin := fun collective => build_collective failed collective
  constructor
  · rintro path chain rfl
    obtain ⟨draft, named, ⟨model, headers, identities | inheritance⟩ | ⟨resolved, -, order⟩⟩ :=
      origin rfl
    · obtain ⟨_, _, _, _, other⟩ := Resolution.checkIdentities_fails model _ identities
      cases other
    · have closed := (Resolution.resolveHeaders_ok (Draft.ofUnits_consistent named) headers).sound.closed
      obtain ⟨blamed, before, again, loop, shown, start, walk, earlier⟩ :=
        Resolution.checkInheritance_error closed inheritance
      cases shown
      have unique := extends_unique model
      refine ⟨rfl, model, blamed, before, again, loop, ?_, rfl, rfl, start, walk,
        fun _ passed => walk.onLoop_iff unique passed, walk.start_onLoop_iff unique start, earlier⟩
      simp only [headedModel, named]
      exact headers
    · obtain ⟨_, _, other⟩ := Layout.orderOrRefuse_fails _ _ order
      cases other
  · rintro path cycle rfl
    obtain ⟨draft, named, ⟨model, headers, identities | inheritance⟩ | ⟨resolved, resolution, order⟩⟩ :=
      origin rfl
    · obtain ⟨_, _, _, _, other⟩ := Resolution.checkIdentities_fails model _ identities
      cases other
    · obtain ⟨_, _, other⟩ := Resolution.checkInheritance_fails model _ inheritance
      cases other
    · have sound := (Resolution.resolveDeclarations_ok (Draft.ofUnits_consistent named) resolution).sound
      obtain ⟨path, names, blamed, ids, shown, loop⟩ := Layout.needLoop_of_order sound.closed order
      cases shown
      refine ⟨rfl, resolved.model, blamed, ids, ?_, loop⟩
      simp only [resolvedModel, named, bind, Except.bind, resolution]

def enteredUnits : List SourceUnit :=
  [{ document := { packages := [.mk "Sample" none [] [] [] []
    [{ name := "First", base := some "Second" }, { name := "Second", base := some "Third" },
      { name := "Third", base := some "Second" }]] } }]

def heldUnits : List SourceUnit :=
  [{ document := { packages := [.mk "Sample" none [] [] [] []
    [{ name := "User", attributes := [{ name := "held", typeName := some "Holder" }] },
      { name := "Holder", attributes := [{ name := "inner", typeName := some "Extension" }] },
      { name := "Extension", base := some "Holder" }]] } }]

private theorem enteredUnits_fails : build enteredUnits = .error (.schema (.inheritanceCycle "Sample.First"
    ["Sample.First", "Sample.Second", "Sample.Third", "Sample.Second"])) :=
  build_fails (by decide +kernel)

private theorem heldUnits_fails : build heldUnits = .error (.schema (.layoutCycle "Sample.User"
    ["Sample.User", "Sample.Holder", "Sample.Extension"])) :=
  build_fails (by decide +kernel)

theorem build_cycles_sample :
    (build enteredUnits = .error (.schema (.inheritanceCycle "Sample.First"
        ["Sample.First", "Sample.Second", "Sample.Third", "Sample.Second"])) ∧
      ∃ model blamed before again loop, headedModel enteredUnits = .ok model ∧
        BaseLoop model "Sample.First" ["Sample.First", "Sample.Second", "Sample.Third", "Sample.Second"]
          blamed before again loop) ∧
    (build heldUnits = .error (.schema (.layoutCycle "Sample.User"
        ["Sample.User", "Sample.Holder", "Sample.Extension"])) ∧
      ∃ model blamed ids, resolvedModel heldUnits = .ok model ∧
        NeedLoop model "Sample.User" ["Sample.User", "Sample.Holder", "Sample.Extension"] blamed ids) :=
  ⟨⟨enteredUnits_fails, ((build_cycles enteredUnits_fails).1 _ _ rfl).2⟩,
    heldUnits_fails, ((build_cycles heldUnits_fails).2 _ _ rfl).2⟩

/-- All that a fault for a cycle names is on one. -/
def BlamesCycles (units : List SourceUnit) : Prop :=
  (∀ path chain model, build units = .error (.schema (.inheritanceCycle path chain)) →
    headedModel units = .ok model → ∀ name ∈ path :: chain,
      ∃ id, model.recordPath id = name ∧ TransGen (Extends model) id id) ∧
  ∀ path cycle model, build units = .error (.schema (.layoutCycle path cycle)) →
    resolvedModel units = .ok model → ∀ name ∈ path :: cycle,
      ∃ id, model.recordPath id = name ∧ TransGen (Layout.Needs model) id id

/-- On a loop there is a step onward and a step back. -/
theorem not_onLoop {model : Model} {next : RecordId → RecordId → Prop} {name : String}
    (inside : ∀ id other, next id other → id.index < model.records.size)
    (unreached : ∀ index < model.records.size, model.recordPath ⟨index⟩ = name →
      ∀ other < model.records.size, ¬ next ⟨other⟩ ⟨index⟩) :
    ¬ ∃ id, model.recordPath id = name ∧ TransGen next id id := by
  rintro ⟨id, named, loop⟩
  obtain ⟨_, forward, -⟩ := TransGen.head'_iff.mp loop
  obtain ⟨last, -, back⟩ := TransGen.tail'_iff.mp loop
  exact unreached id.index (inside _ _ forward) named last.index (inside _ _ back) back

/-- The type that is blamed leads to the cycle, and none leads to it. -/
theorem build_not_blamesCycles : ¬ BlamesCycles enteredUnits ∧ ¬ BlamesCycles heldUnits := by
  constructor
  · rintro ⟨blames, -⟩
    obtain ⟨model, headed, unreached⟩ : ∃ model, headedModel enteredUnits = .ok model ∧
        ∀ index < model.records.size, model.recordPath ⟨index⟩ = "Sample.First" →
          ∀ other < model.records.size, (model.record ⟨other⟩).base ≠ some ⟨index⟩ :=
      Outcome.exists_ok (by decide +kernel)
    have onLoop := blames _ _ model enteredUnits_fails headed _ List.mem_cons_self
    exact not_onLoop (fun _ _ => Extends.inside) unreached onLoop
  · rintro ⟨-, blames⟩
    obtain ⟨model, resolved, unreached⟩ : ∃ model, resolvedModel heldUnits = .ok model ∧
        ∀ index < model.records.size, model.recordPath ⟨index⟩ = "Sample.User" →
          ∀ other < model.records.size, Layout.dependsOn model ⟨other⟩ ⟨index⟩ = false :=
      Outcome.exists_ok (by decide +kernel)
    have onLoop := blames _ _ model heldUnits_fails resolved _ List.mem_cons_self
    refine not_onLoop (fun _ _ => Layout.Needs.inside) (fun index inside named other within => ?_)
      onLoop
    rw [← Layout.dependsOn_iff, unreached index inside named other within]
    exact Bool.false_ne_true

end RecordSchema
