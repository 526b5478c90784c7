import RecordSchema.Proofs.Dispatch.Converters
import RecordSchema.Proofs.Dispatch.NameProgram
import RecordSchema.Proofs.NameHash
import RecordSchema.Proofs.Outcome

/-!
# Who answers to a name

The case distinction by type name leads each name, by way of its hash, to the first type that goes by
it, whichever names share the hash. Where several names have one hash the dispatcher compares, so a name
that is none of them is passed over. A name that is alone with its hash is taken for granted: whatever else
has the hash is taken for it.
-/

set_option autoImplicit false

namespace RecordSchema

open Model

namespace Dispatch

/-- Stored records of a type may come under a name. -/
def GoesBy (model : Model) (name : String) (id : RecordId) : Prop :=
  isNamed (model.record id) ∧
    (name = Cpp.typeName model id ∨ name ∈ (model.record id).aliases)

instance (model : Model) (name : String) : DecidablePred (GoesBy model name) :=
  fun _ => inferInstanceAs (Decidable (_ ∧ _))

section Claims

variable (model : Model)

/-- A claim counts unless there is one on its name. -/
theorem addClaim_fst (state : List NameClaim × List Warning) (claim : NameClaim) :
    (addClaim model state claim).1 =
      if (state.1.lookup claim.1).isSome then state.1 else state.1 ++ [claim] := by
  rw [addClaim]
  split
  · rename_i unclaimed
    rw [unclaimed]
    rfl
  · rename_i owner claimed
    rw [claimed]
    split <;> rfl

private theorem lookup_addClaim (state : List NameClaim × List Warning) (claim : NameClaim)
    (name : String) :
    (addClaim model state claim).1.lookup name =
      (state.1.lookup name).or ([claim].lookup name) := by
  rw [addClaim_fst, ← List.lookup_append]
  split
  · rename_i claimed
    rw [List.lookup_append, List.lookup_cons]
    by_cases same : name = claim.1
    · subst same
      rw [Option.or_of_isSome claimed]
    · rw [beq_false_of_ne same]
      exact Option.or_none.symm
  · rfl

private theorem nodup_addClaim {state : List NameClaim × List Warning}
    (distinct : (state.1.map Prod.fst).Nodup) (claim : NameClaim) :
    ((addClaim model state claim).1.map Prod.fst).Nodup := by
  rw [addClaim_fst]
  split
  · exact distinct
  · rename_i unclaimed
    rw [List.map_append, List.nodup_append]
    refine ⟨distinct, List.nodup_singleton _, fun name listed other single => ?_⟩
    obtain ⟨held, among, rfl⟩ := List.mem_map.mp listed
    rw [List.mem_singleton.mp single]
    have missing := Option.not_isSome_iff_eq_none.mp unclaimed
    have different := List.lookup_eq_none_iff.mp missing held among
    exact (show claim.1 ≠ held.1 by simpa using different).symm

/-- Of several claims on a name the first counts. -/
theorem foldl_addClaim (claims : List NameClaim) (state : List NameClaim × List Warning)
    (distinct : (state.1.map Prod.fst).Nodup) :
    ((claims.foldl (addClaim model) state).1.map Prod.fst).Nodup ∧
      ∀ name, (claims.foldl (addClaim model) state).1.lookup name =
        (state.1.lookup name).or (claims.lookup name) := by
  induction claims generalizing state with
  | nil => exact ⟨distinct, fun _ => Option.or_none.symm⟩
  | cons claim rest ih =>
    obtain ⟨later, found⟩ := ih _ (nodup_addClaim model distinct claim)
    refine ⟨later, fun name => ?_⟩
    rw [List.foldl_cons, found, lookup_addClaim, Option.or_assoc, ← List.lookup_append]
    rfl

private theorem lookup_namesOf (id : RecordId) (name : String) :
    (namesOf model id).lookup name =
      if name = Cpp.typeName model id ∨ name ∈ (model.record id).aliases then some id else none := by
  have tagged : ∀ names : List String, (names.map (·, id)).lookup name =
      if name ∈ names then some id else none := by
    intro names
    induction names with
    | nil => rfl
    | cons first rest ih =>
      rw [List.map_cons, List.lookup_cons, ih]
      by_cases same : name = first
      · simp [same]
      · simp [same, beq_false_of_ne same]
  rw [namesOf, tagged]
  simp only [List.mem_cons]

/-- A name belongs to the first type that goes by it. -/
theorem lookup_nameClaims (records : List RecordId) (name : String) :
    (nameClaims model records).1.lookup name = records.find? (GoesBy model name) := by
  rw [nameClaims, (foldl_addClaim model _ ([], []) List.nodup_nil).2, List.lookup_nil,
    Option.none_or]
  induction records with
  | nil => rfl
  | cons id rest ih =>
    rw [List.filter_cons, List.find?_cons]
    by_cases named : isNamed (model.record id)
    · rw [if_pos named, List.flatMap_cons, List.lookup_append, lookup_namesOf, ih]
      by_cases goes : name = Cpp.typeName model id ∨ name ∈ (model.record id).aliases
      · have own : GoesBy model name id := ⟨named, goes⟩
        rw [if_pos goes, decide_eq_true own]
        rfl
      · have other : ¬ GoesBy model name id := fun own => goes own.2
        rw [if_neg goes, decide_eq_false other]
        rfl
    · have other : ¬ GoesBy model name id := fun own => named own.1
      rw [if_neg named, decide_eq_false other]
      exact ih

end Claims

section Switch

variable (claims : List NameClaim)

/-- The names of a group with the types that claim them. -/
def claimsOf (names : List String) : List NameClaim :=
  names.filterMap fun name => (claims.lookup name).map (name, ·)

private theorem mem_claimsOf {names : List String} {claim : NameClaim} :
    claim ∈ claimsOf claims names ↔ claim.1 ∈ names ∧ claims.lookup claim.1 = some claim.2 := by
  constructor
  · intro among
    obtain ⟨name, listed, given⟩ := List.mem_filterMap.mp among
    obtain ⟨owner, held, rfl⟩ := Option.map_eq_some_iff.mp given
    exact ⟨listed, held⟩
  · rintro ⟨listed, held⟩
    exact List.mem_filterMap.mpr ⟨claim.1, listed, by rw [held]; rfl⟩

private theorem lookup_claimsOf {names : List String} {name : String} (listed : name ∈ names)
    (claimed : (claims.lookup name).isSome) :
    (claimsOf claims names).lookup name = claims.lookup name := by
  obtain ⟨owner, found⟩ := Option.isSome_iff_exists.mp claimed
  induction names with
  | nil => cases listed
  | cons first rest ih =>
    rw [claimsOf, List.filterMap_cons]
    by_cases same : name = first
    · subst same
      simp [found]
    · have later := ih ((List.mem_cons.mp listed).resolve_left same)
      cases claims.lookup first with
      | none => exact later
      | some other => simpa [claimsOf, List.lookup_cons, beq_false_of_ne same] using later

/-- Among the names of a group an arm leads to those who claim them. -/
theorem target?_nameArm {names : List String} {name : String} (listed : name ∈ names)
    (claimed : (claims.lookup name).isSome) :
    (nameArm claims names).target? name = claims.lookup name := by
  have lookup := lookup_claimsOf claims listed claimed
  rw [nameArm]
  split
  · rename_i claim single
    obtain ⟨owner, found⟩ := Option.isSome_iff_exists.mp claimed
    have among : (name, owner) ∈ claimsOf claims names := (mem_claimsOf claims).mpr ⟨listed, found⟩
    rw [claimsOf, single] at among
    rw [found, ← List.mem_singleton.mp among]
    rfl
  · exact lookup

private theorem labels_nameSwitch : (nameSwitch claims).1.arms.map Prod.fst =
    ((nameSwitch claims).1.function.buckets (claims.map Prod.fst)).map Prod.fst := by
  simp only [nameSwitch, NameHash.select, List.map_map]
  rfl

/-- The labels ascend. -/
theorem pairwise_nameSwitch : ((nameSwitch claims).1.arms.map Prod.fst).Pairwise (· < ·) := by
  rw [labels_nameSwitch]
  exact List.pairwise_map.mpr (NameHash.ascend_buckets _ _)

/-- The hash of a claimed name has an arm, that of the claimed names with the hash. -/
theorem mem_nameSwitch {name : String} (claimed : (claims.lookup name).isSome) :
    ∃ names, name ∈ names ∧
      ((nameSwitch claims).1.function.hash name, nameArm claims names) ∈
        (nameSwitch claims).1.arms := by
  have listed : name ∈ claims.map Prod.fst := by
    by_contra missing
    have unclaimed : claims.lookup name = none :=
      List.lookup_eq_none_iff.mpr fun claim among => bne_iff_ne.mpr fun same =>
        missing (List.mem_map.mpr ⟨claim, among, same.symm⟩)
    rw [unclaimed] at claimed
    cases claimed
  have own : name ∈ (claims.map Prod.fst).filter fun other =>
      (nameSwitch claims).1.function.hash other = (nameSwitch claims).1.function.hash name :=
    List.mem_filter.mpr ⟨listed, decide_eq_true rfl⟩
  refine ⟨_, own, List.mem_map.mpr ⟨(_, _), NameHash.mem_buckets.mpr ⟨rfl, ?_⟩, rfl⟩⟩
  exact List.ne_nil_of_mem own

/-- Every claimed name is led to the type that claims it. -/
theorem target?_nameSwitch {name : String} (claimed : (claims.lookup name).isSome) :
    (nameSwitch claims).1.target? name = claims.lookup name := by
  obtain ⟨names, listed, arm⟩ := mem_nameSwitch claims claimed
  have ascend := List.pairwise_map.mp (pairwise_nameSwitch claims)
  rw [NameSwitch.target?, (NameHash.mem_iff_lookup ascend).mp arm]
  exact target?_nameArm claims listed claimed

/-- Nobody is led to a type that claims no name. -/
theorem lookup_of_target? {name : String} {id : RecordId}
    (led : (nameSwitch claims).1.target? name = some id) :
    ∃ own, claims.lookup own = some id := by
  obtain ⟨arm, found, target⟩ := Option.bind_eq_some_iff.mp led
  have ascend := List.pairwise_map.mp (pairwise_nameSwitch claims)
  obtain ⟨bucket, _, same⟩ := List.mem_map.mp ((NameHash.mem_iff_lookup ascend).mpr found)
  obtain ⟨_, rfl⟩ := Prod.mk.inj same
  rw [nameArm] at target
  split at target
  · rename_i claim single
    cases target
    have among : claim ∈ claimsOf claims bucket.2 := by
      rw [claimsOf, single]
      exact List.mem_singleton_self claim
    exact ⟨claim.1, ((mem_claimsOf claims).mp among).2⟩
  · exact ⟨name, ((mem_claimsOf claims).mp (mem_of_lookup target)).2⟩

end Switch

section Arms

variable (claims : List NameClaim)

private theorem names_claimsOf {names : List String}
    (claimed : ∀ name ∈ names, (claims.lookup name).isSome) :
    (claimsOf claims names).map Prod.fst = names := by
  induction names with
  | nil => rfl
  | cons first rest ih =>
    obtain ⟨here, others⟩ := List.forall_mem_cons.mp claimed
    obtain ⟨owner, found⟩ := Option.isSome_iff_exists.mp here
    have taken : claimsOf claims (first :: rest) = (first, owner) :: claimsOf claims rest := by
      rw [claimsOf, List.filterMap_cons, found]
      rfl
    rw [taken, List.map_cons, ih others]

/-- The claimed names of a hash value. -/
def groupOf (value : UInt32) : List String :=
  (claims.map Prod.fst).filter fun name => (nameSwitch claims).1.function.hash name = value

private theorem mem_arms_nameSwitch {value : UInt32} {arm : NameArm} :
    (value, arm) ∈ (nameSwitch claims).1.arms ↔
      groupOf claims value ≠ [] ∧ arm = nameArm claims (groupOf claims value) := by
  constructor
  · intro listed
    obtain ⟨⟨_, names⟩, bucket, same⟩ := List.mem_map.mp listed
    cases same
    obtain ⟨rfl, present⟩ := NameHash.mem_buckets.mp bucket
    exact ⟨present, rfl⟩
  · rintro ⟨present, rfl⟩
    exact List.mem_map.mpr ⟨(value, _), NameHash.mem_buckets.mpr ⟨rfl, present⟩, rfl⟩

private theorem lookup_isSome_of_mem {name : String} (listed : name ∈ claims.map Prod.fst) :
    (claims.lookup name).isSome := by
  rw [Option.isSome_iff_ne_none]
  intro missing
  obtain ⟨claim, among, rfl⟩ := List.mem_map.mp listed
  simpa using List.lookup_eq_none_iff.mp missing claim among

private theorem claims_nameArm (names : List String) :
    (nameArm claims names).claims = claimsOf claims names := by
  rw [nameArm, claimsOf]
  split
  · rename_i claim single
    exact single.symm
  · rfl

/-- There is a name for every hash value that is distinguished. -/
theorem claims_ne_nil {arm : UInt32 × NameArm} (listed : arm ∈ (nameSwitch claims).1.arms) :
    arm.2.claims ≠ [] := by
  obtain ⟨present, same⟩ := (mem_arms_nameSwitch claims).mp listed
  have claimed : ∀ name ∈ groupOf claims arm.1, (claims.lookup name).isSome :=
    fun name among => lookup_isSome_of_mem claims (List.mem_filter.mp among).1
  rw [same, claims_nameArm]
  intro none
  have names := names_claimsOf claims claimed
  rw [none] at names
  exact present names.symm

/-- The function for names that are claimed is the code of a program, if the names are legible. -/
theorem exists_readsAs_nameSwitch {options : Dispatcher.Options} {model : Model}
    (legible : ∀ arm ∈ (nameSwitch claims).1.arms, arm.2.IsLegible options model) :
    ∃ hash body program, (nameSwitch claims).1.ReadsAs options model hash body program :=
  exists_readsAs (pairwise_nameSwitch claims) (fun _ listed => claims_ne_nil claims listed) legible

end Arms

section Built

variable {units : List SourceUnit} {built : Built}

open Traversal Dispatcher

/-- A run of the dispatcher by type name ends with the function for the types it has visited. -/
theorem run_byName (options : Dispatcher.Options) (model : Model) (outer : Option String)
    (start : Dispatcher.State) :
    ((run model (byName options) outer).run.run start).1 = .ok (framed options model outer
      (nameFunction options model (nameSwitch (nameClaims model (visited model)).1).1)) := by
  rw [byName, run_collecting]

/-- The dispatcher by type name is the code of a program, if the names in it are read as they are written.
The program switches over ascending hash values. Any name that an emitted type goes by has exactly one of
them, and there the first type that goes by the name is put into its store. -/
theorem build_nameCase (accepted : build units = .ok built) (options : Dispatcher.Options)
    (outer : Option String) (start : Dispatcher.State) :
    let switch := (nameSwitch (nameClaims built.model (visited built.model)).1).1
    (∀ arm ∈ switch.arms, arm.2.IsLegible options built.model) →
      ∃ (hash : HashCode) (body : String) (program : NameProgram),
        ((run built.model (byName options) outer).run.run start).1 =
            .ok (framed options built.model outer (converter hash.text body)) ∧
          (hash.term.IsRead ∧ ∀ name, hash.value name = switch.function.hash name) ∧
          Cpp.Lexes body program.lexemes ∧ program.WellFormed ∧
          ∀ (id : RecordId) (name : String), id.index < built.model.records.size →
            built.model.isEmitted id → GoesBy built.model name id →
              (program.cases.map Prod.fst).count (hash.value name) = 1 ∧
              ∃ owner, (visited built.model).find? (GoesBy built.model name) = some owner ∧
                Stores options built.model owner (program.run (hash.value name) name) := by
  intro switch legible
  obtain ⟨hash, body, program, reads⟩ := exists_readsAs_nameSwitch _ legible
  refine ⟨hash, body, program, ?_, ⟨reads.term, reads.value⟩, reads.lexes, reads.wellFormed, ?_⟩
  · rw [run_byName, reads.written]
  intro id name inside emitted goes
  have listed : id ∈ visited built.model := (build_mem_visited accepted id).mpr ⟨inside, emitted⟩
  have claimed : ((visited built.model).find? (GoesBy built.model name)).isSome :=
    List.find?_isSome.mpr ⟨id, listed, decide_eq_true goes⟩
  obtain ⟨owner, first⟩ := Option.isSome_iff_exists.mp claimed
  rw [← lookup_nameClaims] at claimed first
  constructor
  · obtain ⟨names, _, arm⟩ := mem_nameSwitch _ claimed
    rw [reads.value, reads.labels]
    exact List.count_eq_one_of_mem ((pairwise_nameSwitch _).imp Std.ne_of_lt)
      (List.mem_map.mpr ⟨_, arm, rfl⟩)
  · refine ⟨owner, (lookup_nameClaims _ _ _).symm.trans first, ?_⟩
    exact reads.stores name owner ((target?_nameSwitch _ claimed).trans first)

end Built

/-- Three types of one alias, the first of them without a factory. -/
def aliasUnits : List SourceUnit :=
  let hidden : Declaration.Record :=
    { name := "Hidden", tags := ["alias(Common)"], schemas := [{ tags := ["skip_proxy"] }] }
  let first : Declaration.Record := { name := "First", tags := ["alias(Common)"] }
  let second : Declaration.Record := { name := "Second", tags := ["alias(Extra)", "alias(Common)"] }
  [{ document := { packages := [.mk "Sample" none [] [] [] [] [hidden, first, second]] } }]

theorem build_nameCase_sample : ∃ built hash body program, build aliasUnits = .ok built ∧
    ((Traversal.run built.model (Dispatcher.byName {}) none).run.run {}).1 =
      .ok (Dispatcher.framed {} built.model none (converter (HashCode.text hash) body)) ∧
    Cpp.Lexes body (NameProgram.lexemes program) ∧
    GoesBy built.model "Common" ⟨2⟩ ∧
    Dispatcher.Stores {} built.model ⟨1⟩ (program.run (hash.value "Common") "Common") := by
  have computed : ∃ built, build aliasUnits = .ok built ∧ 2 < built.model.records.size ∧
      built.model.isEmitted ⟨2⟩ ∧ GoesBy built.model "Common" ⟨2⟩ ∧
      (Traversal.visited built.model).find? (GoesBy built.model "Common") = some ⟨1⟩ ∧
      ∀ arm ∈ (nameSwitch (nameClaims built.model (Traversal.visited built.model)).1).1.arms,
        arm.2.IsLegible {} built.model := exists_built (by decide +kernel)
  obtain ⟨built, accepted, inside, emitted, goes, first, legible⟩ := computed
  obtain ⟨hash, body, program, ran, _, read, _, named⟩ := build_nameCase accepted {} none {} legible
  obtain ⟨_, owner, found, stores⟩ := named ⟨2⟩ "Common" inside emitted goes
  cases found.symm.trans first
  exact ⟨built, hash, body, program, accepted, ran, read, goes, stores⟩

/-- A type with an alias that ends in a backslash. -/
def splicedUnits : List SourceUnit :=
  let part : Declaration.Record :=
    { name := "Part", tags := ["alias(Old\\)"]
      attributes := [{ name := "value", typeName := some "uint32_t" }] }
  [{ document := { packages := [.mk "Sample" none [] [] [] [] [part]] } }]

/-- The statement for a name that ends in a backslash belongs to the comment with the name and is not run:
whatever program the code is read as, it does not put the type into its store for both of its names. -/
theorem build_not_nameCase : ∃ built hash body, build splicedUnits = .ok built ∧
    ((Traversal.run built.model (Dispatcher.byName {}) none).run.run {}).1 =
      .ok (Dispatcher.framed {} built.model none (converter hash body)) ∧
    ¬ ∃ program : NameProgram, Cpp.lexemes? body = some program.lexemes ∧
      let switch := (nameSwitch (nameClaims built.model (Traversal.visited built.model)).1).1
      ∀ (id : RecordId) (name : String), id.index < built.model.records.size →
        built.model.isEmitted id → GoesBy built.model name id →
          ∃ owner, (Traversal.visited built.model).find? (GoesBy built.model name) = some owner ∧
            Dispatcher.Stores {} built.model owner (program.run (switch.function.hash name) name) := by
  have computed : ∃ built, build splicedUnits = .ok built ∧ (0 < built.model.records.size ∧
        built.model.isEmitted ⟨0⟩ ∧ GoesBy built.model "Sample::Part" ⟨0⟩ ∧
        GoesBy built.model "Old\\" ⟨0⟩ ∧ (built.model.record ⟨0⟩).configs = []) ∧
      (Traversal.visited built.model).all (· = ⟨0⟩) ∧
      let switch := (nameSwitch (nameClaims built.model (Traversal.visited built.model)).1).1
      switch.function.hash "Sample::Part" ≠ switch.function.hash "Old\\" ∧
      ((Cpp.lexemes? ((Dispatcher.factoryCall {} built.model ⟨0⟩ none).statement
          (Dispatcher.storeName built.model ⟨0⟩))).all fun lexemes => .word "putProxy".toList ∈ lexemes) ∧
      (Cpp.lexemes? (nameText {} built.model switch)).map (List.count (.word "putProxy".toList)) = some 1 :=
    exists_built (by decide +kernel)
  obtain ⟨built, accepted, ⟨inside, emitted, named, aliased, free⟩, only, apart, calls, once⟩ := computed
  refine ⟨built, _, _, accepted, by rw [run_byName, nameFunction_eq], ?_⟩
  rintro ⟨program, read, stored⟩
  have put : ∀ name, GoesBy built.model name ⟨0⟩ → .word "putProxy".toList ∈ program.run
      ((nameSwitch (nameClaims built.model (Traversal.visited built.model)).1).1.function.hash name)
      name := by
    intro name goes
    obtain ⟨owner, first, stores⟩ := stored ⟨0⟩ name inside emitted goes
    obtain rfl : owner = ⟨0⟩ := by
      simpa using List.all_eq_true.mp only owner (List.mem_of_find?_eq_some first)
    generalize program.run _ name = statements at stores ⊢
    cases stores with
    | plain _ text =>
      rw [text] at calls
      exact of_decide_eq_true calls
    | configured config _ => exact absurd free config
  have twice := NameProgram.two_le_count apart (put _ named) (put _ aliased)
  rw [read] at once
  rw [Option.some.inj once] at twice
  omega

/-!
## Names that no type goes by
-/

section Built

variable {units : List SourceUnit} {built : Built}

open Traversal

end Built

end Dispatch

end RecordSchema
