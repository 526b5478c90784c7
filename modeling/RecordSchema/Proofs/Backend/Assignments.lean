import Mathlib.Data.List.Sort
import RecordSchema.Proofs.Backend.Classes
import RecordSchema.Proofs.Backend.StorageMentions
import RecordSchema.Proofs.Bitfields.RoundTrip
import RecordSchema.Proofs.Renaming.Alike
import RecordSchema.Proofs.Text

/-!
# What becomes of assignments

A constructor assigns one value after the other, and bitfields are assigned by the word. Arrays and
what is inherited are assigned by statements, and every statement stays. A scalar of the class itself
has one initializer: of several values the last one stays, and none of them beside bits.
-/

set_option autoImplicit false

namespace RecordSchema

open Model

/-- The code of a constructor with its body. -/
def Cpp.ConstructorText.code (className : String) (text : ConstructorText) : String :=
  match text.form with
  | .inlined => text.declaration className
  | _ => text.definition className

namespace Accessors

open Cpp Text Outcome

def IsOwnScalar (model : Model) (owner : RecordId) (id : AttributeId) : Prop :=
  (model.attr id).rank = 0 ∧ (model.attr id).owner = owner

instance (model : Model) (owner : RecordId) (id : AttributeId) : Decidable (IsOwnScalar model owner id) :=
  inferInstanceAs (Decidable (_ ∧ _))

/-- The statement that an assignment is written as at once, if it is written so. -/
def statement? (model : Model) (owner : RecordId) : Destination × String → Option String
  | (.attr id, value) =>
    let attr := model.attr id
    if 0 < attr.rank then
      let zeros := String.join (List.replicate attr.rank "[0]")
      (elementCount attr).map fun count =>
        s!"std::copy({value}, {value}+{count}, &{attr.fieldName}{zeros});"
    else if attr.owner = owner then none
    else some (attr.fieldName ++ " = " ++ value ++ ";")
  | (.bitfield _, _) => none

/-- Where an assignment stands in a constructor. -/
inductive StandsIn (model : Model) (owner : RecordId) (text : ConstructorText) :
    Destination → String → Prop where
  /-- The initializer of a scalar of the class. -/
  | initializer {id : AttributeId} {value : String} : IsOwnScalar model owner id →
      ((model.attr id).fieldName, value) ∈ text.initializers → StandsIn model owner text (.attr id) value
  /-- A statement for an array or for a scalar that is inherited. -/
  | statement {id : AttributeId} {value line : String} : ¬ IsOwnScalar model owner id →
      statement? model owner (.attr id, value) = some line → line ∈ text.statements →
      StandsIn model owner text (.attr id) value
  /-- A term of the initializer for the word of a bitfield. -/
  | initialBits {id : BitfieldId} {value : String} {terms : List String} :
      (model.attr (model.bitfield id).attr).owner = owner → (written model (id, value)).render ∈ terms →
      ((model.attr (model.bitfield id).attr).fieldName, " | ".intercalate terms) ∈ text.initializers →
      StandsIn model owner text (.bitfield id) value
  /-- A term of the statement for the word of a bitfield that is inherited. -/
  | storedBits {id : BitfieldId} {value : String} {terms : List String} :
      (model.attr (model.bitfield id).attr).owner ≠ owner → (written model (id, value)).render ∈ terms →
      (model.attr (model.bitfield id).attr).fieldName ++ " = " ++ " | ".intercalate terms ++ ";" ∈
        text.statements →
      StandsIn model owner text (.bitfield id) value

/-- Between other assignments, one is overwritten: it sets a scalar of the class that is set again
later, or bits of which are set. -/
inductive Overwritten (model : Model) (owner : RecordId) (front back : List (Destination × String)) :
    Destination → Prop where
  | again {id : AttributeId} : IsOwnScalar model owner id → .attr id ∈ back.map Prod.fst →
      Overwritten model owner front back (.attr id)
  | bits {id : AttributeId} {bitfield : BitfieldId} : IsOwnScalar model owner id →
      .bitfield bitfield ∈ (front ++ back).map Prod.fst → (model.bitfield bitfield).attr = id →
      Overwritten model owner front back (.attr id)

/-!
## Ascending keys
-/

section Keys

variable {α : Type} {one other : List (Nat × α)}

theorem Ascends.nil : Ascends ([] : List (Nat × α)) :=
  List.Pairwise.nil

theorem Ascends.nodup (ascends : Ascends one) : (one.map (·.1)).Nodup :=
  ascends.imp Nat.ne_of_lt

/-- Ascending entries are known by the values of their keys. -/
theorem Ascends.ext (first : Ascends one) (second : Ascends other)
    (same : ∀ key, one.lookup key = other.lookup key) : one = other := by
  have irreflexive : Std.Irrefl fun left right : Nat × α => left.1 < right.1 :=
    ⟨fun entry => Nat.lt_irrefl entry.1⟩
  have antisymmetric : Std.Antisymm fun left right : Nat × α => left.1 < right.1 :=
    ⟨fun _ _ before after => absurd before (Nat.lt_asymm after)⟩
  apply List.Pairwise.eq_of_mem_iff (List.pairwise_map.mp first) (List.pairwise_map.mp second)
  intro entry
  rw [← lookup_eq_some_iff_mem first.nodup, same, lookup_eq_some_iff_mem second.nodup]

end Keys

/-!
## One assignment after the other
-/

section Steps

variable {model : Model} {owner : RecordId}

/-- The first values after an assignment. -/
def setValue (model : Model) (owner : RecordId) (values : List (Nat × String)) :
    Destination × String → List (Nat × String)
  | (.attr id, value) =>
    if IsOwnScalar model owner id then setAt id.index (fun _ => value) values else values
  | (.bitfield _, _) => values

/-- The bits to be joined after an assignment. -/
def addTerm (model : Model) (bits : List (Nat × List String)) :
    Destination × String → List (Nat × List String)
  | (.attr _, _) => bits
  | (.bitfield id, value) =>
    setAt (model.bitfield id).attr.index
      (fun terms => terms.getD [] ++ [(written model (id, value)).render]) bits

/-- An assignment sets a first value or adds a term or a statement. -/
theorem assign_eq {state after : Assignments} {entry : Destination × String}
    (taken : assign model owner state entry = some after) :
    after =
      { initializers := setValue model owner state.initializers entry
        bits := addTerm model state.bits entry
        statements := state.statements ++ (statement? model owner entry).toList } := by
  obtain ⟨destination, value⟩ := entry
  cases destination with
  | bitfield id =>
    cases taken
    simp only [assignBits, setValue, addTerm, statement?, render_written, Option.toList_none,
      List.append_nil]
  | attr id =>
    simp only [assign] at taken
    split at taken
    case isTrue array =>
      obtain ⟨count, known, taken⟩ := Option.bind_eq_some_iff.mp taken
      cases taken
      have other : ¬ IsOwnScalar model owner id := fun scalar => Nat.ne_of_gt array scalar.1
      simp [setValue, addTerm, statement?, array, known, other]
    case isFalse scalar =>
      have rank : (model.attr id).rank = 0 := Nat.eq_zero_of_not_pos scalar
      cases taken
      by_cases own : (model.attr id).owner = owner <;>
        simp [assignScalar, setValue, addTerm, statement?, IsOwnScalar, rank, own]

/-- What comes of assignments before bits are joined. -/
theorem foldlM_assign_eq {texts : List (Destination × String)} {direct : Assignments}
    (taken : texts.foldlM (assign model owner) {} = some direct) :
    direct =
      { initializers := texts.foldl (setValue model owner) []
        bits := texts.foldl (addTerm model) []
        statements := texts.filterMap (statement? model owner) } := by
  apply foldlM_invariant_option taken fun seen (state : Assignments) => state =
    { initializers := seen.foldl (setValue model owner) []
      bits := seen.foldl (addTerm model) []
      statements := seen.filterMap (statement? model owner) }
  case initial => rfl
  case preserved =>
    intro seen entry _ state after _ same taken
    subst same
    rw [assign_eq taken, List.foldl_concat, List.foldl_concat, List.filterMap_append]
    cases read : statement? model owner entry <;> simp [read]

/-- The values that are assigned to an attribute itself, in order. -/
def assignedValues (id : AttributeId) (texts : List (Destination × String)) : List String :=
  texts.filterMap fun entry => if entry.1 = .attr id then some entry.2 else none

/-- The terms of the bits that are assigned to an attribute, in order. -/
def bitTerms (model : Model) (id : AttributeId) (texts : List (Destination × String)) : List String :=
  (assignedBits model id texts).map fun entry => (written model entry).render

private theorem ascends_setValue (texts : List (Destination × String)) :
    Ascends (texts.foldl (setValue model owner) []) := by
  refine List.foldlRecOn texts _ Ascends.nil fun values ascends entry _ => ?_
  cases entry with
  | mk destination value =>
    cases destination with
    | bitfield id => exact ascends
    | attr id =>
      rw [setValue]
      split
      · exact ascends.setAt
      · exact ascends

private theorem ascends_addTerm (texts : List (Destination × String)) :
    Ascends (texts.foldl (addTerm model) []) := by
  refine List.foldlRecOn texts _ Ascends.nil fun bits ascends entry _ => ?_
  cases entry with
  | mk destination value =>
    cases destination with
    | attr id => exact ascends
    | bitfield id => exact ascends.setAt

private theorem getLast?_assignedValues (id : AttributeId) (seen : List (Destination × String))
    (entry : Destination × String) : (assignedValues id (seen ++ [entry])).getLast? =
      if entry.1 = .attr id then some entry.2 else (assignedValues id seen).getLast? := by
  rw [assignedValues, assignedValues, List.filterMap_append, List.getLast?_append]
  by_cases same : entry.1 = .attr id <;> simp [same, -List.getLast?_filterMap]

/-- Of the values for a scalar of the class the last one stays. -/
theorem lookup_setValue (texts : List (Destination × String)) (id : AttributeId) :
    (texts.foldl (setValue model owner) []).lookup id.index =
      if IsOwnScalar model owner id then (assignedValues id texts).getLast? else none := by
  induction texts using List.reverseRecOn with
  | nil => simp [assignedValues]
  | append_singleton seen entry ih =>
    rw [List.foldl_concat, getLast?_assignedValues]
    obtain ⟨destination, value⟩ := entry
    cases destination with
    | bitfield other => simpa [setValue] using ih
    | attr other =>
      by_cases same : other = id
      · subst same
        by_cases own : IsOwnScalar model owner other
        · simp [setValue, own, lookup_setAt (ascends_setValue seen)]
        · simpa [setValue, own] using ih
      · have apart : id.index ≠ other.index := fun equal => same (AttributeId.ext equal.symm)
        by_cases own : IsOwnScalar model owner other
        · simpa [setValue, own, same, lookup_setAt (ascends_setValue seen), apart] using ih
        · simpa [setValue, own, same] using ih

/-- The terms for an attribute are those of its bits, and no attribute has an empty list of them. -/
theorem lookup_addTerm (texts : List (Destination × String)) (id : AttributeId) :
    (texts.foldl (addTerm model) []).lookup id.index =
      if bitTerms model id texts = [] then none else some (bitTerms model id texts) := by
  induction texts using List.reverseRecOn with
  | nil => simp [bitTerms, assignedBits]
  | append_singleton seen entry ih =>
    rw [List.foldl_concat, bitTerms, assignedBits, List.filterMap_append, List.map_append,
      ← assignedBits, ← bitTerms]
    obtain ⟨destination, value⟩ := entry
    cases destination with
    | attr other => simpa [addTerm] using ih
    | bitfield bitfield =>
      rw [addTerm, lookup_setAt (ascends_addTerm seen)]
      by_cases same : (model.bitfield bitfield).attr = id
      · subst same
        rw [ih]
        by_cases none : bitTerms model (model.bitfield bitfield).attr seen = [] <;> simp [none]
      · have apart : id.index ≠ (model.bitfield bitfield).attr.index := fun equal =>
          same (AttributeId.ext equal.symm)
        simpa [same, apart] using ih

/-!
## Joined bits
-/

/-- The first values after the bits of an attribute are joined. -/
def setJoined (model : Model) (owner : RecordId) (values : List (Nat × String))
    (entry : Nat × List String) : List (Nat × String) :=
  if (model.attr ⟨entry.1⟩).owner = owner then
    setAt entry.1 (fun _ => " | ".intercalate entry.2) values
  else values

def joinedStatement? (model : Model) (owner : RecordId) (entry : Nat × List String) : Option String :=
  if (model.attr ⟨entry.1⟩).owner = owner then none
  else some ((model.attr ⟨entry.1⟩).fieldName ++ " = " ++ " | ".intercalate entry.2 ++ ";")

private theorem foldl_assignJoined_eq (entries : List (Nat × List String)) (start : Assignments) :
    entries.foldl (assignJoined model owner) start =
      { initializers := entries.foldl (setJoined model owner) start.initializers
        bits := start.bits
        statements := start.statements ++ entries.filterMap (joinedStatement? model owner) } := by
  induction entries generalizing start with
  | nil => simp
  | cons entry rest ih =>
    rw [List.foldl_cons, ih]
    by_cases own : (model.attr ⟨entry.1⟩).owner = owner <;>
      simp [assignJoined, assignScalar, setJoined, joinedStatement?, own]

private theorem Ascends.setJoined {values : List (Nat × String)} (ascends : Ascends values)
    (entry : Nat × List String) : Ascends (setJoined model owner values entry) := by
  rw [Accessors.setJoined]
  split
  · exact ascends.setAt
  · exact ascends

private theorem lookup_setJoined {values : List (Nat × String)} (ascends : Ascends values)
    (entry : Nat × List String) (key : Nat) : (setJoined model owner values entry).lookup key =
      if key = entry.1 ∧ (model.attr ⟨key⟩).owner = owner then some (" | ".intercalate entry.2)
      else values.lookup key := by
  rw [setJoined]
  by_cases same : key = entry.1
  · subst same
    split <;> simp [*, lookup_setAt ascends]
  · split <;> simp [same, lookup_setAt ascends]

/-- Joined bits replace the value of an attribute of the class. Keys ascend, so no other entry is for the
attribute. -/
theorem lookup_foldl_setJoined {entries : List (Nat × List String)} (distinct : Ascends entries)
    {values : List (Nat × String)} (ascends : Ascends values) (id : AttributeId) :
    (entries.foldl (setJoined model owner) values).lookup id.index =
      if (model.attr id).owner = owner then
        ((entries.lookup id.index).map (" | ".intercalate ·)).or (values.lookup id.index)
      else values.lookup id.index := by
  induction entries generalizing values with
  | nil => simp
  | cons entry rest ih =>
    obtain ⟨key, terms⟩ := entry
    obtain ⟨before, others⟩ := List.pairwise_cons.mp distinct
    rw [List.foldl_cons, ih others (ascends.setJoined _), lookup_cons_ite, lookup_setJoined ascends]
    by_cases same : id.index = key
    · subst same
      rw [lookup_eq_none_of_lt before]
      by_cases own : (model.attr id).owner = owner <;> simp [own]
    · simp [same]

/-- The value that an attribute of the class starts with: its bits if any are assigned, otherwise what is
assigned last. -/
def firstValue? (model : Model) (owner : RecordId) (texts : List (Destination × String))
    (id : AttributeId) : Option String :=
  if (model.attr id).owner = owner ∧ bitTerms model id texts ≠ [] then
    some (" | ".intercalate (bitTerms model id texts))
  else if IsOwnScalar model owner id then (assignedValues id texts).getLast?
  else none

/-- What a list of assignments comes to. -/
structure Result (model : Model) (owner : RecordId) (texts : List (Destination × String))
    (assigned : Assignments) : Prop where
  ascends : Ascends assigned.initializers
  initializers : ∀ id : AttributeId,
    assigned.initializers.lookup id.index = firstValue? model owner texts id
  bits : assigned.bits = texts.foldl (addTerm model) []
  statements : assigned.statements =
    texts.filterMap (statement? model owner) ++ assigned.bits.filterMap (joinedStatement? model owner)

private theorem exists_assembled (counted : ∀ attr, ∃ count, elementCount (model.attr attr) = some count)
    (owner : RecordId) (texts : List (Destination × String)) :
    ∃ assigned, assembled model owner texts = some assigned := by
  obtain ⟨direct, taken⟩ := exists_foldlM_assign counted owner texts {}
  rw [assembled, taken]
  exact ⟨_, rfl⟩

private theorem assembled_result {texts : List (Destination × String)} {assigned : Assignments}
    (made : assembled model owner texts = some assigned) : Result model owner texts assigned := by
  obtain ⟨direct, taken, made⟩ := Option.bind_eq_some_iff.mp made
  rw [foldlM_assign_eq taken, foldl_assignJoined_eq] at made
  cases made
  constructor
  case ascends =>
    exact List.foldlRecOn _ _ (ascends_setValue texts) fun _ ascends entry _ => ascends.setJoined entry
  case bits => rfl
  case statements => rfl
  case initializers =>
    intro id
    dsimp only
    rw [lookup_foldl_setJoined (ascends_addTerm texts) (ascends_setValue texts), lookup_addTerm,
      lookup_setValue, firstValue?]
    by_cases own : (model.attr id).owner = owner <;>
      by_cases none : bitTerms model id texts = [] <;> simp [own, none, IsOwnScalar]

/-!
## Lost and kept
-/

private theorem mem_bitTerms {id : AttributeId} {texts : List (Destination × String)} {term : String} :
    term ∈ bitTerms model id texts ↔ ∃ bitfield value, (.bitfield bitfield, value) ∈ texts ∧
      (model.bitfield bitfield).attr = id ∧ (written model (bitfield, value)).render = term := by
  constructor
  · intro member
    obtain ⟨⟨bitfield, value⟩, listed, rfl⟩ := List.mem_map.mp member
    obtain ⟨⟨destination, text⟩, among, picked⟩ := List.mem_filterMap.mp listed
    cases destination with
    | attr other => cases picked
    | bitfield other =>
      obtain ⟨reads, same⟩ := Option.ite_none_right_eq_some.mp picked
      cases same
      exact ⟨bitfield, text, among, reads, rfl⟩
  · intro ⟨bitfield, value, among, reads, same⟩
    refine List.mem_map.mpr ⟨(bitfield, value), List.mem_filterMap.mpr ⟨_, among, ?_⟩, same⟩
    exact if_pos reads

private theorem bitTerms_ne_nil_iff {id : AttributeId} {texts : List (Destination × String)} :
    bitTerms model id texts ≠ [] ↔
      ∃ bitfield, .bitfield bitfield ∈ texts.map Prod.fst ∧ (model.bitfield bitfield).attr = id := by
  constructor
  · intro some
    obtain ⟨term, member⟩ := List.exists_mem_of_ne_nil _ some
    obtain ⟨bitfield, value, among, reads, -⟩ := mem_bitTerms.mp member
    exact ⟨bitfield, List.mem_map_of_mem among, reads⟩
  · intro ⟨bitfield, listed, reads⟩
    obtain ⟨⟨_, value⟩, among, rfl⟩ := List.mem_map.mp listed
    exact List.ne_nil_of_mem (mem_bitTerms.mpr ⟨bitfield, value, among, reads, rfl⟩)

private theorem assignedValues_eq_nil_iff {id : AttributeId} {texts : List (Destination × String)} :
    assignedValues id texts = [] ↔ .attr id ∉ texts.map Prod.fst := by
  rw [assignedValues, List.filterMap_eq_nil_iff, List.mem_map]
  constructor
  · intro others listed
    obtain ⟨entry, among, same⟩ := listed
    exact absurd (others entry among) (by simp [same])
  · intro unlisted entry among
    exact if_neg fun same => unlisted ⟨entry, among, same⟩

/-- What is assigned last to an attribute counts. -/
theorem getLast?_assignedValues_append (id : AttributeId) (front back : List (Destination × String)) :
    (assignedValues id (front ++ back)).getLast? =
      if .attr id ∈ back.map Prod.fst then (assignedValues id back).getLast?
      else (assignedValues id front).getLast? := by
  rw [assignedValues, List.filterMap_append, List.getLast?_append, ← assignedValues, ← assignedValues]
  split
  · rename_i again
    cases last : (assignedValues id back).getLast? with
    | none => exact absurd again (assignedValues_eq_nil_iff.mp (List.getLast?_eq_none_iff.mp last))
    | some _ => rfl
  · rename_i once
    rw [assignedValues_eq_nil_iff.mpr once]
    rfl

/-- An assignment to an attribute does not count where the attribute has bits or is assigned later. -/
theorem firstValue?_skip {id : AttributeId} (own : IsOwnScalar model owner id)
    {front back : List (Destination × String)} {value : String}
    (lost : .attr id ∈ back.map Prod.fst ∨ bitTerms model id (front ++ back) ≠ [])
    (other : AttributeId) : firstValue? model owner (front ++ (.attr id, value) :: back) other =
      firstValue? model owner (front ++ back) other := by
  have terms : bitTerms model other (front ++ (.attr id, value) :: back) =
      bitTerms model other (front ++ back) := by
    simp [bitTerms, assignedBits]
  rw [firstValue?, firstValue?, terms]
  by_cases same : other = id
  · subst same
    rcases lost with again | bits
    · rw [List.append_cons, getLast?_assignedValues_append, if_pos again,
        getLast?_assignedValues_append, if_pos again]
    · rw [if_pos ⟨own.2, bits⟩, if_pos ⟨own.2, bits⟩]
  · have values : assignedValues other (front ++ (.attr id, value) :: back) =
        assignedValues other (front ++ back) := by
      simp [assignedValues, Ne.symm same]
    rw [values]

/-- An assignment that is overwritten might as well be left out. -/
theorem Overwritten.assembled_eq (counted : ∀ attr, ∃ count, elementCount (model.attr attr) = some count)
    {front back : List (Destination × String)} {destination : Destination}
    (overwritten : Overwritten model owner front back destination) (value : String) :
    assembled model owner (front ++ (destination, value) :: back) =
      assembled model owner (front ++ back) := by
  obtain ⟨id, rfl, own, reason⟩ : ∃ id, destination = .attr id ∧ IsOwnScalar model owner id ∧
      (.attr id ∈ back.map Prod.fst ∨ bitTerms model id (front ++ back) ≠ []) := by
    cases overwritten with
    | again own later => exact ⟨_, rfl, own, .inl later⟩
    | bits own among reads => exact ⟨_, rfl, own, .inr (bitTerms_ne_nil_iff.mpr ⟨_, among, reads⟩)⟩
  obtain ⟨with_, made⟩ := exists_assembled counted owner (front ++ (.attr id, value) :: back)
  obtain ⟨without, madeToo⟩ := exists_assembled counted owner (front ++ back)
  have one := assembled_result made
  have other := assembled_result madeToo
  have bits : with_.bits = without.bits := by
    rw [one.bits, other.bits, List.foldl_append, List.foldl_append, List.foldl_cons]
    rfl
  have statements : with_.statements = without.statements := by
    have silent : statement? model owner (.attr id, value) = none := by
      simp [statement?, own.1, own.2]
    rw [one.statements, other.statements, bits, List.filterMap_append, List.filterMap_append,
      List.filterMap_cons_none silent]
  have initializers : with_.initializers = without.initializers := by
    apply one.ascends.ext other.ascends
    intro key
    rw [one.initializers ⟨key⟩, other.initializers ⟨key⟩, firstValue?_skip own reason]
  rw [made, madeToo]
  cases with_
  cases without
  simp_all

/-- The members of a class that a constructor sets and the statements of its body. -/
structure Writes (model : Model) (text : ConstructorText) (assigned : Assignments) : Prop where
  initializers : text.initializers =
    assigned.initializers.map fun entry => ((model.attr ⟨entry.1⟩).fieldName, entry.2)
  statements : text.statements = assigned.statements

theorem Writes.initializer {text : ConstructorText} {assigned : Assignments}
    (writes : Writes model text assigned) {id : AttributeId} {value : String}
    (found : assigned.initializers.lookup id.index = some value) :
    ((model.attr id).fieldName, value) ∈ text.initializers := by
  rw [writes.initializers]
  exact List.mem_map.mpr ⟨_, mem_of_lookup found, rfl⟩

/-- An assignment that is not overwritten is written. -/
theorem standsIn_of_not_overwritten
    (counted : ∀ attr, ∃ count, elementCount (model.attr attr) = some count)
    {front back : List (Destination × String)} {destination : Destination} {value : String}
    (kept : ¬ Overwritten model owner front back destination) {assigned : Assignments}
    (result : Result model owner (front ++ (destination, value) :: back) assigned)
    {text : ConstructorText} (writes : Writes model text assigned) :
    StandsIn model owner text destination value := by
  have among : (destination, value) ∈ front ++ (destination, value) :: back := by simp
  cases destination with
  | attr id =>
    by_cases own : IsOwnScalar model owner id
    · have bare : bitTerms model id (front ++ (.attr id, value) :: back) = [] := by
        by_contra bits
        obtain ⟨bitfield, listed, reads⟩ := bitTerms_ne_nil_iff.mp bits
        exact kept (.bits own (by simpa using listed) reads)
      have last : .attr id ∉ back.map Prod.fst := fun again => kept (.again own again)
      apply StandsIn.initializer own
      apply writes.initializer
      rw [result.initializers, firstValue?, if_neg (by simp [bare]), if_pos own, List.append_cons,
        getLast?_assignedValues_append, if_neg last, getLast?_assignedValues, if_pos rfl]
    · obtain ⟨line, written⟩ : ∃ line, statement? model owner (.attr id, value) = some line := by
        simp only [statement?]
        split
        · obtain ⟨count, known⟩ := counted id
          exact ⟨_, by rw [known]; rfl⟩
        · rename_i scalar
          rw [if_neg fun same => own ⟨Nat.eq_zero_of_not_pos scalar, same⟩]
          exact ⟨_, rfl⟩
      apply StandsIn.statement own written
      rw [writes.statements, result.statements]
      exact List.mem_append_left _ (List.mem_filterMap.mpr ⟨_, among, written⟩)
  | bitfield id =>
    have term : (written model (id, value)).render ∈
        bitTerms model (model.bitfield id).attr (front ++ (.bitfield id, value) :: back) :=
      mem_bitTerms.mpr ⟨id, value, among, rfl, rfl⟩
    have some := List.ne_nil_of_mem term
    by_cases own : (model.attr (model.bitfield id).attr).owner = owner
    · apply StandsIn.initialBits own term
      apply writes.initializer
      rw [result.initializers, firstValue?, if_pos ⟨own, some⟩]
    · apply StandsIn.storedBits own term
      rw [writes.statements, result.statements]
      refine List.mem_append_right _ (List.mem_filterMap.mpr ⟨_, mem_of_lookup ?_, if_neg own⟩)
      rw [result.bits, lookup_addTerm]
      exact if_neg some

/-!
## The text of a constructor
-/

private theorem occurs_initializers {initializers : List (String × String)} {name value : String}
    (listed : (name, value) ∈ initializers) : Occurs value (renderInitializers initializers) := by
  have entry : Occurs value (name ++ "(" ++ value ++ ")") := ⟨_, _, rfl⟩
  have among : name ++ "(" ++ value ++ ")" ∈
      initializers.map fun entry => entry.1 ++ "(" ++ entry.2 ++ ")" :=
    List.mem_map.mpr ⟨_, listed, rfl⟩
  rw [renderInitializers, if_neg (by simpa using List.ne_nil_of_mem listed)]
  exact (entry.trans (Occurs.intercalate among _)).append_left _

private theorem occurs_statements {statements : List String} {line : String} (listed : line ∈ statements) :
    Occurs line (renderStatements statements) :=
  Occurs.trans ((Occurs.refl line).append_left _) (Occurs.join (List.mem_map.mpr ⟨_, listed, rfl⟩))

private theorem occurs_code {text : ConstructorText} (defined : text.form ≠ .declared)
    (className part : String) (occurs : Occurs part (renderInitializers text.initializers) ∨
      Occurs part (renderStatements text.statements)) : Occurs part (text.code className) := by
  cases form : text.form with
  | declared => exact absurd form defined
  | inlined =>
    simp only [ConstructorText.code, ConstructorText.declaration, form]
    rcases occurs with first | line
    · exact (((first.append_left _).append_right _).append_right _).append_right _
    · exact (line.append_left _).append_right _
  | defined =>
    simp only [ConstructorText.code, ConstructorText.definition, form]
    rcases occurs with first | line
    · exact (((first.append_left _).append_right _).append_right _).append_right _
    · exact (line.append_left _).append_right _

private theorem occurs_statement {destination : Destination} {value line : String}
    (written : statement? model owner (destination, value) = some line) : Occurs value line := by
  cases destination with
  | bitfield id => cases written
  | attr id =>
    simp only [statement?] at written
    split at written
    · obtain ⟨count, -, rfl⟩ := Option.map_eq_some_iff.mp written
      apply Exists.intro "std::copy("
      apply Exists.intro
      simp only [String.append_assoc]
      rfl
    · obtain ⟨-, same⟩ := Option.ite_none_left_eq_some.mp written
      cases same
      exact ⟨_, ";", rfl⟩

private theorem occurs_written (id : BitfieldId) (value : String) :
    Occurs value (written model (id, value)).render := by
  rw [render_written]
  apply Exists.intro "(("
  apply Exists.intro
  simp only [String.append_assoc]
  rfl

theorem StandsIn.occurs {text : ConstructorText} {destination : Destination} {value : String}
    (stands : StandsIn model owner text destination value) (defined : text.form ≠ .declared)
    (className : String) : Occurs value (text.code className) := by
  apply occurs_code defined
  cases stands with
  | initializer own listed => exact .inl (occurs_initializers listed)
  | statement own written listed =>
    exact .inr ((occurs_statement written).trans (occurs_statements listed))
  | initialBits own term listed =>
    exact .inl (((occurs_written _ value).trans (Occurs.intercalate term _)).trans
      (occurs_initializers listed))
  | storedBits own term listed =>
    exact .inr (((occurs_written _ value).trans (Occurs.intercalate term _)).append_left _
      |>.append_right _ |>.trans (occurs_statements listed))

end Steps

/-- The text of a constructor whose assignments come to some members and statements. -/
def constructorText (model : Model) (constructor : Constructor) (assigned : Assignments) :
    ConstructorText where
  comment := constructor.comment
  parameters := constructor.arguments.map (constructorParameter model)
  initializers := assigned.initializers.map fun entry => ((model.attr ⟨entry.1⟩).fieldName, entry.2)
  statements := assigned.statements
  form := constructorForm model constructor

private theorem constructorMember_eq {model : Model} {owner : RecordId} {constructor : Constructor}
    {assigned : Assignments} (defined : isDefined model constructor = true)
    (taken : assignments model owner constructor = some assigned) :
    constructorMember model owner constructor =
      some (.publicly, .constructor (constructorText model constructor assigned)) := by
  obtain ⟨explicit, -⟩ := Bool.and_eq_true_iff.mp defined
  rw [constructorMember, if_neg (by simpa using explicit), taken]
  rfl

private theorem constructorForm_ne_declared {model : Model} {constructor : Constructor}
    (defined : isDefinable model constructor = true) : constructorForm model constructor ≠ .declared := by
  rw [constructorForm, if_pos defined]
  split <;> exact nofun

/-- A constructor with a body has every value that is assigned in its place, unless the assignment is
overwritten; what is overwritten leaves no trace. -/
theorem build_assignments {units : List SourceUnit} {built : Built} (accepted : build units = .ok built)
    {id : RecordId} {constructor : Constructor}
    (listed : constructor ∈ (built.model.record id).constructors)
    (defined : isDefined built.model constructor = true) :
    ∃ written, constructorMember built.model id constructor = some (.publicly, .constructor written) ∧
      (∀ text, classOf built.model id = some text → (.publicly, .constructor written) ∈ text.members) ∧
      ∀ front destination value back,
        assignmentTexts built.model id constructor = front ++ (destination, value) :: back →
          (¬ Overwritten built.model id front back destination →
            StandsIn built.model id written destination value ∧
              Occurs value (written.code (className built.model id))) ∧
          (Overwritten built.model id front back destination →
            ∃ assigned, assembled built.model id (front ++ back) = some assigned ∧
              Writes built.model written assigned) := by
  obtain ⟨stages⟩ := build_stages accepted
  obtain ⟨assigned, made⟩ :=
    exists_assembled stages.counted id (assignmentTexts built.model id constructor)
  obtain ⟨-, definable⟩ := Bool.and_eq_true_iff.mp defined
  have writes : Writes built.model (constructorText built.model constructor assigned) assigned := ⟨rfl, rfl⟩
  have member := constructorMember_eq defined made
  refine ⟨_, member, ?_, ?_⟩
  · intro text emitted
    obtain ⟨anatomy⟩ := classOf_anatomy emitted
    obtain ⟨made, among, same⟩ := exists_of_forall₂ anatomy.constructed listed
    obtain rfl : _ = made := Option.some.inj (member.symm.trans same)
    rw [anatomy.members]
    simp [among]
  · intro front destination value back split
    rw [split] at made
    constructor
    · intro kept
      have stands := standsIn_of_not_overwritten stages.counted kept (assembled_result made) writes
      exact ⟨stands, stands.occurs (constructorForm_ne_declared definable) _⟩
    · intro lost
      rw [lost.assembled_eq stages.counted] at made
      exact ⟨assigned, made, writes⟩

/-- A type with constructors that assign twice: to the same attribute, to an attribute and to bits of it, and
to what it inherits. -/
def repeatedUnits : List SourceUnit :=
  let flags : Declaration.Attribute :=
    { name := "flags", typeName := some "uint16_t"
      bitfields := [{ name := "low", size := some 4 }, { name := "high", size := some 4 }] }
  let base : Declaration.Record :=
    { name := "Base", attributes := [{ name := "x", typeName := some "uint32_t" }] }
  let data : Declaration.Record :=
    { name := "Data", base := some "Base"
      attributes := [{ name := "y", typeName := some "uint32_t" }, flags]
      constructors :=
        [{ initializers := [⟨"y", "17"⟩, ⟨"y", "25"⟩] },
          { initializers := [⟨"flags", "17"⟩, ⟨"low", "3"⟩] },
          { initializers := [⟨"x", "17"⟩, ⟨"x", "25"⟩, ⟨"low", "3"⟩, ⟨"high", "5"⟩] }] }
  [{ document := { packages := [.mk "Sample" none [] [] [] [] [base, data]] } }]

theorem build_assignments_sample : ∃ built, build repeatedUnits = .ok built ∧
    (∃ constructor ∈ (built.model.record ⟨1⟩).constructors, ∃ written,
      constructorMember built.model ⟨1⟩ constructor = some (.publicly, .constructor written) ∧
        StandsIn built.model ⟨1⟩ written (.attr ⟨0⟩) "17" ∧
        StandsIn built.model ⟨1⟩ written (.bitfield ⟨1⟩) "5") ∧
    ∃ constructor ∈ (built.model.record ⟨1⟩).constructors, ∃ written,
      constructorMember built.model ⟨1⟩ constructor = some (.publicly, .constructor written) ∧
        (∃ front back, assignmentTexts built.model ⟨1⟩ constructor = front ++ (.attr ⟨1⟩, "17") :: back) ∧
        ∃ assigned, assembled built.model ⟨1⟩ [(.attr ⟨1⟩, "25")] = some assigned ∧
          Writes built.model written assigned := by
  have computed : ∃ built, build repeatedUnits = .ok built ∧
      (∃ constructor ∈ (built.model.record ⟨1⟩).constructors, isDefined built.model constructor = true ∧
        assignmentTexts built.model ⟨1⟩ constructor =
          [(.attr ⟨0⟩, "17"), (.attr ⟨0⟩, "25"), (.bitfield ⟨0⟩, "3"), (.bitfield ⟨1⟩, "5")]) ∧
      (∃ constructor ∈ (built.model.record ⟨1⟩).constructors, isDefined built.model constructor = true ∧
        assignmentTexts built.model ⟨1⟩ constructor = [(.attr ⟨1⟩, "17"), (.attr ⟨1⟩, "25")]) ∧
      ¬ IsOwnScalar built.model ⟨1⟩ ⟨0⟩ ∧ IsOwnScalar built.model ⟨1⟩ ⟨1⟩ :=
    exists_built (by decide +kernel)
  obtain ⟨built, accepted, ⟨kept, listed, defined, texts⟩, ⟨lost, listedToo, definedToo, textsToo⟩,
    inherited, own⟩ := computed
  refine ⟨built, accepted, ⟨kept, listed, ?_⟩, lost, listedToo, ?_⟩
  · obtain ⟨written, member, -, stand⟩ := build_assignments accepted listed defined
    refine ⟨written, member, ((stand [] _ _ _ texts).1 ?_).1, ((stand [_, _, _] _ _ _ texts).1 ?_).1⟩
    · intro overwritten
      cases overwritten with
      | again own _ => exact inherited own
      | bits own _ _ => exact inherited own
    · exact nofun
  · obtain ⟨written, member, -, stand⟩ := build_assignments accepted listedToo definedToo
    exact ⟨written, member, ⟨[], _, textsToo⟩, (stand [] _ _ _ textsToo).2 (.again own (by simp))⟩

/-- Values that a constructor assigns and that its text does not show: an attribute is assigned again, or
bits of it are. -/
theorem build_not_assignments : ∃ built, build repeatedUnits = .ok built ∧
    ⟨1⟩ ∈ built.model.emittedRecords ∧
    ∀ destination ∈ [Destination.attr ⟨1⟩, .attr ⟨2⟩],
      ∃ constructor ∈ (built.model.record ⟨1⟩).constructors, isDefined built.model constructor = true ∧
        (destination, "17") ∈ assignmentTexts built.model ⟨1⟩ constructor ∧
        ∃ written, constructorMember built.model ⟨1⟩ constructor = some (.publicly, .constructor written) ∧
          ¬ Occurs "17" (written.code (className built.model ⟨1⟩)) := by
  have computed : ∃ built, build repeatedUnits = .ok built ∧
      ⟨1⟩ ∈ built.model.emittedRecords ∧
      ∀ destination ∈ [Destination.attr ⟨1⟩, .attr ⟨2⟩],
        ∃ constructor ∈ (built.model.record ⟨1⟩).constructors, isDefined built.model constructor = true ∧
          (destination, "17") ∈ assignmentTexts built.model ⟨1⟩ constructor ∧
          ((assignments built.model ⟨1⟩ constructor).any fun assigned =>
            ¬ Occurs "17" ((constructorText built.model constructor assigned).code
              (className built.model ⟨1⟩))) = true :=
    exists_built (by decide +kernel)
  obtain ⟨built, accepted, emitted, silent⟩ := computed
  refine ⟨built, accepted, emitted, fun destination listed => ?_⟩
  obtain ⟨constructor, declared, defined, among, shown⟩ := silent destination listed
  obtain ⟨assigned, made, shown⟩ := (Option.any_eq_true _ _).mp shown
  exact ⟨constructor, declared, defined, among, _, constructorMember_eq defined made,
    of_decide_eq_true shown⟩

end Accessors

end RecordSchema
