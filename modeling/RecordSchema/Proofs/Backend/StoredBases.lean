import RecordSchema.Backend.Accessors
import RecordSchema.Proofs.Build
import RecordSchema.Proofs.Layout.Consecutive
import RecordSchema.Proofs.Layout.Storage

/-!
# Storage behind stored bases

A type that stores an attribute has a base that stores all of its own, and so on upward, as long as
the types passed on the way have attributes. Their classes then take up as many bytes as the layout
counts, and the storage members of the type start where the class of its base ends. A base without
attributes counts as stored whatever is above it, so what is said holds up to there only.
-/

set_option autoImplicit false

namespace RecordSchema.Accessors

open Cpp Layout

/-!
## Up the bases
-/

theorem storedStop_eq {attr : Attribute} {stop : Option Int} {range : Option (Int × Int)} {next : Int}
    (stored : storedStop attr stop range = some next) :
    ∃ previous start, stop = some previous ∧ range = some (start, next) ∧ previous ≤ start := by
  unfold storedStop at stored
  split at stored
  · rename_i first last previous
    split at stored
    · rename_i fits
      cases stored
      exact ⟨previous, first, rfl, rfl, by simpa using (Bool.and_eq_true_iff.mp fits).2⟩
    · cases stored
  · cases stored

/-- If any attribute is marked, the base lets it, and where the base ends is a number. -/
theorem marked_start {storing : Bool} {stop : Option Int} {attrs : List Attribute}
    {marks : List Bool} (computed : marksOf storing stop attrs = some marks) (any : true ∈ marks) :
    storing = true ∧ ∃ start, stop = some start := by
  cases attrs with
  | nil =>
    cases computed
    cases any
  | cons attr rest =>
    obtain ⟨range, _, computed⟩ := Option.bind_eq_some_iff.mp computed
    split at computed
    · cases computed
      simp at any
    · rename_i next goesOn
      split at goesOn
      · rename_i allowed
        obtain ⟨_, _, known, _⟩ := storedStop_eq goesOn
        exact ⟨allowed, _, known⟩
      · cases goesOn

section Bases

variable {model : Model}

theorem Marked.start {id : RecordId} {attr : AttributeId} (marked : Marked model id)
    (own : attr ∈ (model.record id).attributes) (stored : (model.attr attr).stored = true) :
    baseStored model (model.record id) = true ∧
      ∃ start, storageStart model (model.record id) = some start :=
  marked_start marked (List.mem_map.mpr ⟨attr, own, stored⟩)

theorem Marked.base {id base : RecordId} {attr : AttributeId} (marked : Marked model id)
    (own : attr ∈ (model.record id).attributes) (stored : (model.attr attr).stored = true)
    (found : (model.record id).base = some base) :
    ∀ held ∈ (model.record base).attributes, (model.attr held).stored = true := by
  have bases := (Marked.start marked own stored).1
  rw [baseStored, found, Option.all_some, List.all_eq_true] at bases
  exact bases

/-- Storage reaches from a type up to the first of its bases without attributes. -/
theorem stored_above {id ancestor : RecordId} {between above : List RecordId}
    (chain : model.BaseChain id (id :: (between ++ ancestor :: above)))
    (marked : ∀ other ∈ id :: between, Marked model other)
    (passed : ∀ other ∈ between, (model.record other).attributes ≠ [])
    {attr : AttributeId} (own : attr ∈ (model.record id).attributes)
    (stored : (model.attr attr).stored = true) :
    ∀ held ∈ (model.record ancestor).attributes, (model.attr held).stored = true := by
  induction between generalizing id attr with
  | nil =>
    obtain ⟨following, found, _, first⟩ := chain.uncons (by simp)
    cases first
    exact Marked.base (marked id List.mem_cons_self) own stored found
  | cons other between ih =>
    obtain ⟨following, found, tail, first⟩ := chain.uncons (by simp)
    cases first
    have all := Marked.base (marked id List.mem_cons_self) own stored found
    obtain ⟨held, listed⟩ := List.exists_mem_of_ne_nil _ (passed other List.mem_cons_self)
    exact ih tail (fun other member => marked other (List.mem_cons_of_mem _ member))
      (fun other member => passed other (List.mem_cons_of_mem _ member)) listed (all held listed)

end Bases

/-!
## Bytes of a class
-/

/-- The bytes of the padding among storage members. -/
def paddingBytes (members : List ClassMember) : Int :=
  (members.map fun
    | .pad _ bytes => bytes
    | _ => 0).sum

/-- The bytes that a class adds to those of its base: padding and the elements of its attributes. -/
def classBytes (model : Model) (valuation : Valuation) (id : RecordId)
    (members : List ClassMember) : Int :=
  paddingBytes members +
    ((model.record id).attributes.map fun attr => extent valuation (model.attr attr)).sum

/-- What an attribute that starts and stops at numbers comes to. -/
theorem eval_of_fixedRange (valuation : Valuation) {attr : Attribute} {start stop : Int}
    (fixed : fixedRange attr = some (some (start, stop))) :
    attr.offset.eval valuation = start ∧ extent valuation attr = stop - start := by
  obtain ⟨_, _, _, offset, -⟩ := fixedRange_words fixed
  have ends := eval_stopAfter valuation (stopAfter_of_fixedRange fixed)
  rw [offset, Expr.eval_const, Expr.eval_const] at ends
  refine ⟨by rw [offset, Expr.eval_const], ?_⟩
  omega

@[simp] theorem paddingBytes_pad (number : Nat) (bytes : Int) (members : List ClassMember) :
    paddingBytes (.pad number bytes :: members) = bytes + paddingBytes members :=
  List.sum_cons

@[simp] theorem paddingBytes_fieldMember (model : Model) (attr : Attribute)
    (members : List ClassMember) :
    paddingBytes (fieldMember model attr :: members) = paddingBytes members :=
  List.sum_cons.trans (Int.zero_add _)

/-- The storage member of an attribute comes after padding up to where the attribute starts. -/
theorem storageMembersFrom_cons {model : Model} {cursor start stop : Int} {padding : Nat}
    {attr : Attribute} {rest : List Attribute} {members : List ClassMember}
    (stored : attr.stored = true) (fixed : fixedRange attr = some (some (start, stop)))
    (emitted : storageMembersFrom model cursor padding (attr :: rest) = some members) :
    ∃ number others, storageMembersFrom model stop number rest = some others ∧
      members = (if cursor < start then [.pad padding (start - cursor)] else []) ++
        fieldMember model attr :: others := by
  obtain ⟨size, count, extent, offset, bytes, counted, multiplied, added⟩ := fixedRange_words fixed
  have elements : elementCount attr = some count := by rw [elementCount, counted]; rfl
  simp only [storageMembersFrom, stored, ↓reduceIte, offset, bytes, elements, multiplied, added,
    Expr.constant?, Option.getD_some, Option.bind_eq_bind, Option.bind_some] at emitted
  split at emitted
  · rename_i gap
    obtain ⟨distance, checked, emitted⟩ := Option.bind_eq_some_iff.mp emitted
    obtain ⟨others, later, emitted⟩ := Option.bind_eq_some_iff.mp emitted
    cases emitted
    obtain ⟨-, rfl⟩ := Word.check_eq_some_iff.mp checked
    exact ⟨_, others, later, by rw [if_pos gap]; rfl⟩
  · rename_i close
    obtain ⟨others, later, emitted⟩ := Option.bind_eq_some_iff.mp emitted
    cases emitted
    exact ⟨_, others, later, by rw [if_neg close]; rfl⟩

private theorem paddingBytes_cons {model : Model} {cursor start : Int} (behind : cursor ≤ start)
    (padding : Nat) (attr : Attribute) (others : List ClassMember) :
    paddingBytes ((if cursor < start then [.pad padding (start - cursor)] else []) ++
      fieldMember model attr :: others) = start - cursor + paddingBytes others := by
  split
  · simp
  · have close : start - cursor = 0 := by omega
    simp [close]

/-- Storage members that leave out no attribute fill the bytes from where they start to where the
last attribute ends. -/
theorem storageMembersFrom_bytes {model : Model} (valuation : Valuation) {cursor : Int}
    {padding : Nat} {attrs : List Attribute} {members : List ClassMember} {marks : List Bool}
    (marked : marksOf true (some cursor) attrs = some marks) (all : false ∉ marks)
    (stored : ∀ attr ∈ attrs, attr.stored = true)
    (emitted : storageMembersFrom model cursor padding attrs = some members) :
    cursor + (paddingBytes members + (attrs.map (extent valuation)).sum) =
      (attrs.getLast?.map fun last => last.offset.eval valuation + extent valuation last).getD
        cursor := by
  induction attrs generalizing cursor padding members marks with
  | nil =>
    cases emitted
    simp [paddingBytes]
  | cons attr rest ih =>
    obtain ⟨range, fixed, marked⟩ := Option.bind_eq_some_iff.mp marked
    rw [if_pos rfl] at marked
    split at marked
    · cases marked
      simp [List.replicate_succ] at all
    · rename_i next goesOn
      obtain ⟨laterMarks, later, rfl⟩ := Option.map_eq_some_iff.mp marked
      obtain ⟨previous, start, known, rfl, behind⟩ := storedStop_eq goesOn
      cases known
      obtain ⟨place, bytes⟩ := eval_of_fixedRange valuation fixed
      obtain ⟨number, others, onward, rfl⟩ :=
        storageMembersFrom_cons (stored attr List.mem_cons_self) fixed emitted
      have tail := ih later (fun unmarked => all (List.mem_cons_of_mem _ unmarked))
        (fun other member => stored other (List.mem_cons_of_mem _ member)) onward
      rw [paddingBytes_cons behind, List.map_cons, List.sum_cons]
      cases rest with
      | nil =>
        simp at tail ⊢
        omega
      | cons second rest =>
        rw [List.getLast?_cons_cons]
        cases last : (second :: rest).getLast? with
        | none => simp at last
        | some attr =>
          rw [last] at tail
          simp only [Option.map_some, Option.getD_some] at tail ⊢
          omega

/-- Where the class of a type begins to lay out attributes of its own. -/
def baseEnd (model : Model) (valuation : Valuation) (id : RecordId) : Int :=
  ((model.record id).base.map fun base => (model.record base).size.eval valuation).getD 0

theorem baseEnd_eq {model : Model} (valuation : Valuation) {id : RecordId} {start : Int}
    (known : storageStart model (model.record id) = some start) :
    baseEnd model valuation id = start ∧
      storageMembers model (model.record id) =
        storageMembersFrom model start 0 ((model.record id).attributes.map model.attr) := by
  unfold storageStart at known
  unfold baseEnd storageMembers
  split at known
  · rename_i plain
    cases known
    simp [plain]
  · rename_i base found
    simp only [found, Option.map_some, Option.getD_some, known, and_true]
    rw [Expr.constant?_eq_some_iff.mp known, Expr.eval_const]

/-- A class all of whose attributes are stored takes the size of the type up to its last byte. -/
theorem size_eq_classBytes {model : Model} {valuation : Valuation} {id : RecordId}
    (laidOut : LaidOut model id) (marked : Marked model id)
    (stored : ∀ attr ∈ (model.record id).attributes, (model.attr attr).stored = true)
    {members : List ClassMember} (emitted : storageMembers model (model.record id) = some members) :
    (model.record id).size.eval valuation =
      baseEnd model valuation id + classBytes model valuation id members := by
  obtain ⟨final, places, size, _⟩ := laidOut
  rw [size, eval_runningEnd valuation places.runningEnd, endOf]
  cases last : (model.record id).attributes.getLast? with
  | none =>
    have empty := List.getLast?_eq_none_iff.mp last
    rw [storageMembers, empty] at emitted
    cases emitted
    unfold baseEnd classBytes
    rw [empty]
    cases (model.record id).base <;> simp [paddingBytes]
  | some attr =>
    have own := List.mem_of_getLast? last
    obtain ⟨bases, start, known⟩ := Marked.start marked own (stored attr own)
    obtain ⟨begins, list⟩ := baseEnd_eq valuation known
    rw [list] at emitted
    rw [Marked, bases, known] at marked
    have bytes := storageMembersFrom_bytes valuation marked
      (by simpa using stored) (by simpa using stored) emitted
    rw [List.getLast?_map, last, List.map_map] at bytes
    rw [begins, classBytes]
    exact bytes.symm

/-- The classes on the way up to a type without base make up the size of the type they start at. -/
theorem size_eq_sum {model : Model} {valuation : Valuation} {id : RecordId} {ids : List RecordId}
    (chain : model.BaseChain id ids) {bytes : RecordId → Int}
    (each : ∀ other ∈ ids,
      (model.record other).size.eval valuation = baseEnd model valuation other + bytes other) :
    (model.record id).size.eval valuation = (ids.map bytes).sum := by
  induction chain with
  | last ends =>
    rw [each _ List.mem_cons_self, baseEnd, ends]
    simp
  | more found _ ih =>
    have above := ih fun other member => each other (List.mem_cons_of_mem _ member)
    rw [each _ List.mem_cons_self, baseEnd, found, Option.map_some, Option.getD_some, above,
      List.map_cons, List.sum_cons, Int.add_comm]

/-!
## Built models
-/

section Built

variable {units : List SourceUnit} {built : Built} {id : RecordId} {attr : AttributeId}

private theorem index_lt_of_mem_attributes {model : Model}
    (own : attr ∈ (model.record id).attributes) : id.index < model.records.size := by
  by_contra outside
  rw [model.record_eq_default outside] at own
  cases own

private theorem build_stored_above (accepted : build units = .ok built)
    (own : attr ∈ (built.model.record id).attributes) (stored : (built.model.attr attr).stored = true)
    {between above : List RecordId} {ancestor : RecordId}
    (split : built.model.lineage id = id :: (between ++ ancestor :: above))
    (passed : ∀ other ∈ between, (built.model.record other).attributes ≠ []) :
    ∀ held ∈ (built.model.record ancestor).attributes, (built.model.attr held).stored = true := by
  obtain ⟨stages⟩ := build_stages accepted
  obtain ⟨chain, known⟩ :=
    (build_intact accepted).lineage id (index_lt_of_mem_attributes own)
  rw [split] at chain known
  refine stored_above chain (fun other member => stages.marked (known other ?_)) passed own stored
  rcases List.mem_cons.mp member with rfl | between
  · exact List.mem_cons_self
  · exact List.mem_cons_of_mem _ (List.mem_append_left _ between)

/-- The size of a base is the number at which the storage of the type itself starts. -/
theorem build_size_base (accepted : build units = .ok built)
    (own : attr ∈ (built.model.record id).attributes) (stored : (built.model.attr attr).stored = true)
    {base : RecordId} (found : (built.model.record id).base = some base)
    (passed : ∀ other ∈ (built.model.lineage base).dropLast,
      (built.model.record other).attributes ≠ [])
    (valuation : Valuation) {members : RecordId → List ClassMember}
    (emitted : ∀ other ∈ built.model.lineage base,
      storageMembers built.model (built.model.record other) = some (members other)) :
    (built.model.record base).size = .const ((built.model.lineage base).map fun other =>
      classBytes built.model valuation other (members other)).sum := by
  obtain ⟨stages⟩ := build_stages accepted
  have intact := build_intact accepted
  have inside := index_lt_of_mem_attributes own
  obtain ⟨chain, known⟩ := intact.lineage base (intact.closed.base id base found)
  have whole : built.model.lineage id = id :: built.model.lineage base :=
    (intact.lineage id inside).1.unique (.more found chain)
  have each : ∀ other ∈ built.model.lineage base,
      (built.model.record other).size.eval valuation =
        baseEnd built.model valuation other +
          classBytes built.model valuation other (members other) := by
    intro other member
    refine size_eq_classBytes (stages.laidOut (known other member))
      (stages.marked (known other member)) ?_ (emitted other member)
    obtain ⟨between, above, split⟩ := List.append_of_mem member
    refine build_stored_above accepted own stored (whole.trans (by rw [split])) ?_
    intro passedOver listed
    refine passed passedOver ?_
    rw [split, List.dropLast_append_of_ne_nil (by simp)]
    exact List.mem_append_left _ listed
  obtain ⟨_, start, constant⟩ := Marked.start (stages.marked inside) own stored
  rw [storageStart, found] at constant
  have size := Expr.constant?_eq_some_iff.mp constant
  rw [← size_eq_sum chain each, size, Expr.eval_const]

/-- If a built type stores an attribute, then every type above it that is reached through types with
attributes stores all of its attributes. If all types above it but the outermost have attributes,
then their classes take up the bytes that its own storage members start after. -/
theorem build_storedBases (accepted : build units = .ok built)
    (own : attr ∈ (built.model.record id).attributes)
    (stored : (built.model.attr attr).stored = true) :
    (∀ between ancestor above,
      built.model.lineage id = id :: (between ++ ancestor :: above) →
      (∀ other ∈ between, (built.model.record other).attributes ≠ []) →
        ∀ held ∈ (built.model.record ancestor).attributes, (built.model.attr held).stored = true) ∧
    ∀ (base : RecordId) (valuation : Valuation) (members : RecordId → List ClassMember),
      (built.model.record id).base = some base →
      (∀ other ∈ (built.model.lineage base).dropLast,
        (built.model.record other).attributes ≠ []) →
      (∀ other ∈ built.model.lineage base,
        storageMembers built.model (built.model.record other) = some (members other)) →
        (built.model.record base).size =
          .const ((built.model.lineage base).map fun other =>
            classBytes built.model valuation other (members other)).sum :=
  ⟨fun _ _ _ split passed => build_stored_above accepted own stored split passed,
    fun _ valuation _ found passed emitted =>
      build_size_base accepted own stored found passed valuation emitted⟩

end Built

theorem build_storedBases_sample : ∃ built members, build sampleUnits = .ok built ∧
    storageMembers built.model (built.model.record ⟨0⟩) = some members ∧
    (built.model.attr ⟨0⟩).stored = true ∧
    (built.model.record ⟨0⟩).size =
      .const (classBytes built.model ⟨fun _ => 0, fun _ => 0⟩ ⟨0⟩ members) := by
  have computed : ∃ built, build sampleUnits = .ok built ∧
      ⟨1⟩ ∈ (built.model.record ⟨1⟩).attributes ∧ (built.model.attr ⟨1⟩).stored = true ∧
      (built.model.record ⟨1⟩).base = some ⟨0⟩ ∧ built.model.lineage ⟨1⟩ = [⟨1⟩, ⟨0⟩] ∧
      built.model.lineage ⟨0⟩ = [⟨0⟩] ∧ ⟨0⟩ ∈ (built.model.record ⟨0⟩).attributes ∧
      (storageMembers built.model (built.model.record ⟨0⟩)).isSome :=
    exists_built (by decide +kernel)
  obtain ⟨built, accepted, own, stored, found, lineage, above, held, some⟩ := computed
  obtain ⟨members, emitted⟩ := Option.isSome_iff_exists.mp some
  obtain ⟨reach, size⟩ := build_storedBases accepted own stored
  have bytes := size ⟨0⟩ ⟨fun _ => 0, fun _ => 0⟩ (fun _ => members) found (by simp [above])
    (by simpa [above] using emitted)
  rw [above, List.map_singleton, List.sum_singleton] at bytes
  exact ⟨built, members, accepted, emitted, reach [] ⟨0⟩ [] lineage (by simp) ⟨0⟩ held, bytes⟩

/-- Three types, each the base of the next: the first goes back to byte 0 for its second attribute,
which is not stored, and the second has no attributes. -/
def emptyBaseUnits : List SourceUnit :=
  let attributes : List Declaration.Attribute :=
    [{ name := "late", typeName := some "uint32_t", offset := some "4" },
      { name := "early", typeName := some "uint32_t", offset := some "0" }]
  let first : Declaration.Record := { name := "First", attributes }
  let second : Declaration.Record := { name := "Second", base := some "First" }
  let third : Declaration.Record :=
    { name := "Third", base := some "Second", attributes := [{ name := "own", typeName := some "uint32_t" }] }
  [{ document := { packages := [.mk "Sample" none [] [] [] [] [first, second, third]] } }]

/-- Above a base without attributes storage may have gaps: the third type stores its attribute behind
the four bytes that the second is said to have, though an attribute of the first has no storage and
the class of the first takes up eight. -/
theorem build_not_storedBases : ∃ built, build emptyBaseUnits = .ok built ∧
    ¬ ∀ (id : RecordId) (attr : AttributeId), attr ∈ (built.model.record id).attributes →
      (built.model.attr attr).stored = true →
        ∀ ancestor ∈ (built.model.lineage id).tail,
          ∀ held ∈ (built.model.record ancestor).attributes,
            (built.model.attr held).stored = true := by
  have computed : ∃ built, build emptyBaseUnits = .ok built ∧
      ⟨2⟩ ∈ (built.model.record ⟨2⟩).attributes ∧ (built.model.attr ⟨2⟩).stored = true ∧
      ⟨0⟩ ∈ (built.model.lineage ⟨2⟩).tail ∧ ⟨1⟩ ∈ (built.model.record ⟨0⟩).attributes ∧
      (built.model.attr ⟨1⟩).stored = false := exists_built (by decide +kernel)
  obtain ⟨built, accepted, own, stored, above, held, missing⟩ := computed
  refine ⟨built, accepted, fun all => ?_⟩
  have present := all ⟨2⟩ ⟨2⟩ own stored ⟨0⟩ above ⟨1⟩ held
  rw [missing] at present
  cases present

end RecordSchema.Accessors
