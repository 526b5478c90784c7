import RecordSchema.Proofs.Bitfields.Code

/-!
# Constructors and accessors of bitfields

A constructor that assigns to bitfields writes one word for each attribute, and every accessor of a
bitfield reads out of the word of its attribute. The bitfields of a model that is built share their
words, so what is read is what was assigned, cut off at the width of the bitfield.
-/

set_option autoImplicit false

namespace RecordSchema.Accessors

open Model Resolution Outcome

/-!
## Values by key
-/

section Keys

variable {α : Type} {key : Nat} {change : Option α → α} {entries : List (Nat × α)}

/-- Keys in ascending order, none of them repeated. -/
def Ascends (entries : List (Nat × α)) : Prop :=
  (entries.map (·.1)).Pairwise (· < ·)

private theorem mem_keys_setAt {other : Nat} (member : other ∈ (setAt key change entries).map (·.1)) :
    other = key ∨ other ∈ entries.map (·.1) := by
  induction entries with
  | nil => exact .inl (by simpa [setAt] using member)
  | cons entry rest ih =>
    rw [setAt] at member
    split at member
    · exact List.mem_cons.mp member
    · split at member
      · rename_i same
        exact .inr (by simpa [← same] using member)
      · rcases List.mem_cons.mp member with rfl | later
        · exact .inr List.mem_cons_self
        · exact (ih later).imp_right (List.mem_cons_of_mem _)

theorem Ascends.setAt (ascends : Ascends entries) : Ascends (setAt key change entries) := by
  induction entries with
  | nil => exact List.pairwise_singleton _ _
  | cons entry rest ih =>
    obtain ⟨before, others⟩ := List.pairwise_cons.mp ascends
    rw [Accessors.setAt]
    split
    · rename_i first
      refine List.pairwise_cons.mpr ⟨fun other member => ?_, ascends⟩
      rcases List.mem_cons.mp member with rfl | later
      · exact first
      · exact Nat.lt_trans first (before other later)
    · rename_i notBefore
      split
      · rename_i same
        exact List.pairwise_cons.mpr ⟨same ▸ before, others⟩
      · rename_i different
        refine List.pairwise_cons.mpr ⟨fun other member => ?_, ih others⟩
        rcases mem_keys_setAt member with rfl | later
        · exact Nat.lt_of_le_of_ne (Nat.le_of_not_lt notBefore) (Ne.symm different)
        · exact before other later

theorem lookup_cons_ite (other first : Nat) (value : α) (rest : List (Nat × α)) :
    ((first, value) :: rest).lookup other =
      if other = first then some value else rest.lookup other := by
  rw [List.lookup_cons]
  by_cases same : other = first
  · rw [if_pos same, beq_iff_eq.mpr same]
  · rw [if_neg same, beq_false_of_ne same]

theorem lookup_eq_none_of_lt {first : Nat} (before : ∀ other ∈ entries.map (·.1), first < other) :
    entries.lookup first = none := by
  rw [List.lookup_eq_none_iff]
  intro entry member
  exact bne_iff_ne.mpr (Nat.ne_of_lt (before entry.1 (List.mem_map_of_mem member)))

theorem lookup_setAt (ascends : Ascends entries) (other : Nat) :
    (setAt key change entries).lookup other =
      if other = key then some (change (entries.lookup key)) else entries.lookup other := by
  induction entries with
  | nil => rw [setAt, lookup_cons_ite, List.lookup_nil, List.lookup_nil]
  | cons entry rest ih =>
    obtain ⟨before, others⟩ := List.pairwise_cons.mp ascends
    obtain ⟨first, value⟩ := entry
    rw [setAt]
    split
    · rename_i smaller
      have absent : ((first, value) :: rest).lookup key = none := by
        refine lookup_eq_none_of_lt (List.forall_mem_cons.mpr ⟨smaller, fun later member => ?_⟩)
        exact Nat.lt_trans smaller (before later member)
      rw [lookup_cons_ite, absent]
    · split
      · rename_i same
        subst same
        simp only [lookup_cons_ite, if_true]
        split <;> rfl
      · rename_i different
        rw [lookup_cons_ite, ih others, lookup_cons_ite, lookup_cons_ite, if_neg different]
        by_cases same : other = first
        · rw [if_pos same, if_pos same, if_neg (same ▸ Ne.symm different)]
        · rw [if_neg same, if_neg same]

private theorem mem_setAt_self (key : Nat) (value : α) (entries : List (Nat × α)) :
    (key, value) ∈ setAt key (fun _ => value) entries := by
  induction entries with
  | nil => exact List.mem_singleton_self _
  | cons entry rest ih =>
    rw [setAt]
    split
    · exact List.mem_cons_self
    · split
      · exact List.mem_cons_self
      · exact List.mem_cons_of_mem _ ih

private theorem mem_setAt_of_ne {entry : Nat × α} (member : entry ∈ entries) (different : entry.1 ≠ key) :
    entry ∈ setAt key change entries := by
  induction entries with
  | nil => cases member
  | cons first rest ih =>
    rw [setAt]
    split
    · exact List.mem_cons_of_mem _ member
    · split
      · rename_i same
        rcases List.mem_cons.mp member with rfl | later
        · exact absurd same.symm different
        · exact List.mem_cons_of_mem _ later
      · rcases List.mem_cons.mp member with rfl | later
        · exact List.mem_cons_self
        · exact List.mem_cons_of_mem _ (ih later)

end Keys

/-!
## Words of a constructor
-/

/-- What a constructor assigns to the bitfields of an attribute, in order. -/
def assignedBits (model : Model) (id : AttributeId) (texts : List (Destination × String)) :
    List (BitfieldId × String) :=
  texts.filterMap fun entry =>
    match entry.1 with
    | .bitfield bitfield =>
      if (model.bitfield bitfield).attr = id then some (bitfield, entry.2) else none
    | .attr _ => none

theorem render_written (model : Model) (assigned : BitfieldId × String) :
    (written model assigned).render = "((" ++ assigned.2 ++ ") & " ++
      Numeral.hexadecimal (model.bitfield assigned.1).mask ++ ") << " ++
        toString (model.bitfield assigned.1).offset := by
  have keeps : " & 0x" = " & " ++ "0x" := rfl
  rw [show "((" = "(" ++ "(" from rfl, show ") & " = ")" ++ " & " from rfl,
    show ") << " = ")" ++ " << " from rfl]
  simp only [written, BitCode.render, Numeral.hexadecimal, keeps, String.append_assoc]

private theorem render_joined {codes : List BitCode} {code : BitCode}
    (joins : BitCode.joined? codes = some code) :
    " | ".intercalate (codes.map BitCode.render) = code.render := by
  cases codes with
  | nil => cases joins
  | cons first rest =>
    cases joins
    induction rest generalizing first with
    | nil => rfl
    | cons second rest ih =>
      rw [List.foldl_cons, ← ih, List.map_cons, List.map_cons, List.map_cons,
        String.intercalate_cons_cons, BitCode.render, String.intercalate_cons_append]

section Terms

variable {model : Model} {owner : RecordId}

def terms (assignments : Assignments) (id : AttributeId) : List String :=
  (assignments.bits.lookup id.index).getD []

/-- An assignment adds its text to those for the attribute that its bitfield belongs to. -/
theorem terms_assign {assignments after : Assignments} (ascends : Ascends assignments.bits)
    {assignment : Destination × String}
    (taken : assign model owner assignments assignment = some after) :
    Ascends after.bits ∧ ∀ id, terms after id = terms assignments id ++
      (assignedBits model id [assignment]).map fun entry => (written model entry).render := by
  obtain ⟨destination, text⟩ := assignment
  cases destination with
  | attr id =>
    have same : after.bits = assignments.bits := by
      simp only [assign] at taken
      split at taken
      · obtain ⟨count, _, taken⟩ := Option.bind_eq_some_iff.mp taken
        cases taken
        rfl
      · cases taken
        rw [assignScalar]
        split <;> rfl
    refine ⟨same ▸ ascends, fun other => ?_⟩
    rw [terms, same]
    exact (List.append_nil _).symm
  | bitfield bitfield =>
    cases taken
    refine ⟨ascends.setAt, fun id => ?_⟩
    rw [terms, terms, assignBits, lookup_setAt ascends]
    by_cases same : (model.bitfield bitfield).attr = id
    · subst same
      simp [assignedBits, render_written]
    · have apart : id.index ≠ (model.bitfield bitfield).attr.index := fun equal =>
        same (AttributeId.ext equal.symm)
      simp [assignedBits, same, apart]

private theorem terms_assigned {texts : List (Destination × String)} {after : Assignments}
    (taken : texts.foldlM (assign model owner) {} = some after) :
    Ascends after.bits ∧ ∀ id, terms after id =
      (assignedBits model id texts).map fun entry => (written model entry).render := by
  refine foldlM_invariant_option taken
    (fun seen (state : Assignments) => Ascends state.bits ∧ ∀ id, terms state id =
      (assignedBits model id seen).map fun entry => (written model entry).render)
    ⟨.nil, fun _ => rfl⟩ ?_
  rintro seen assignment _ state next _ ⟨ascends, same⟩ taken
  obtain ⟨ascends, added⟩ := terms_assign ascends taken
  refine ⟨ascends, fun id => ?_⟩
  rw [added, same, ← List.map_append, assignedBits, assignedBits, ← List.filterMap_append]
  rfl

/-- What an attribute is set to, where it is set. -/
def Sets (model : Model) (owner : RecordId) (assignments : Assignments) (id : AttributeId)
    (value : String) : Prop :=
  if (model.attr id).owner = owner then (id.index, value) ∈ assignments.initializers
  else ((model.attr id).fieldName ++ " = " ++ value ++ ";") ∈ assignments.statements

private theorem sets_assignScalar (model : Model) (owner : RecordId) (id : AttributeId) (value : String)
    (assignments : Assignments) :
    Sets model owner (assignScalar owner id (model.attr id) value assignments) id value := by
  rw [Sets, assignScalar]
  split
  · exact mem_setAt_self _ _ _
  · exact List.mem_append_right _ (List.mem_singleton_self _)

theorem Sets.assignScalar {assignments : Assignments} {id other : AttributeId} {value text : String}
    (sets : Sets model owner assignments id value) (different : id.index ≠ other.index) :
    Sets model owner (assignScalar owner other (model.attr other) text assignments) id value := by
  rw [Sets, Accessors.assignScalar] at *
  by_cases own : (model.attr id).owner = owner
  · rw [if_pos own] at sets ⊢
    split
    · exact mem_setAt_of_ne sets different
    · exact sets
  · rw [if_neg own] at sets ⊢
    split
    · exact sets
    · exact List.mem_append_left _ sets

/-- The words are set after everything else, each once. Keys ascend, so what is set after a word is set
elsewhere. -/
theorem sets_joined {entries : List (Nat × List String)} (ascends : Ascends entries)
    {id : AttributeId} {texts : List String} (found : entries.lookup id.index = some texts)
    (start : Assignments) :
    Sets model owner (entries.foldl (assignJoined model owner) start) id
      (" | ".intercalate texts) := by
  obtain ⟨before, after, rfl, _⟩ := List.lookup_eq_some_iff.mp found
  rw [List.foldl_append, List.foldl_cons]
  generalize before.foldl (assignJoined model owner) start = middle
  rw [Ascends, List.map_append, List.map_cons] at ascends
  have later : ∀ entry ∈ after, id.index ≠ entry.1 := fun entry member =>
    Nat.ne_of_lt ((List.pairwise_cons.mp (List.pairwise_append.mp ascends).2.1).1 entry.1
      (List.mem_map_of_mem member))
  have sets : Sets model owner (assignJoined model owner middle (id.index, texts)) id
      (" | ".intercalate texts) := sets_assignScalar model owner id _ middle
  generalize assignJoined model owner middle (id.index, texts) = state at sets
  clear ascends found
  induction after generalizing state with
  | nil => exact sets
  | cons entry rest ih =>
    obtain ⟨first, others⟩ := List.forall_mem_cons.mp later
    rw [List.foldl_cons]
    exact ih others _ (sets.assignScalar first)

/-- The bitfields of an attribute that a constructor assigns to make one word, which the attribute is
set to. -/
theorem sets_assignments {constructor : Constructor} {assigned : Assignments}
    (made : assignments model owner constructor = some assigned) {id : AttributeId} {code : BitCode}
    (joins : BitCode.joined?
      ((assignedBits model id (assignmentTexts model owner constructor)).map (written model)) =
        some code) : Sets model owner assigned id code.render := by
  obtain ⟨direct, taken, made⟩ := Option.bind_eq_some_iff.mp made
  cases made
  obtain ⟨ascends, texts⟩ := terms_assigned taken
  have same := texts id
  rw [← render_joined joins, List.map_map]
  refine sets_joined ascends ?_ direct
  rw [terms] at same
  cases found : direct.bits.lookup id.index with
  | some _ =>
    rw [found, Option.getD_some] at same
    rw [same]
    rfl
  | none =>
    rw [found, Option.getD_none] at same
    rw [List.map_eq_nil_iff.mp same.symm] at joins
    cases joins

end Terms

private theorem bitfieldBody_eq (model : Model) (bitfield : Bitfield) :
    bitfieldBody model bitfield =
      "return " ++ Cpp.typeRef model bitfield.type ++ (readOut model bitfield).render ++ ";" := by
  have keeps : " & 0x" = " & " ++ "0x" := rfl
  unfold bitfieldBody
  rw [readOut, show "((" = "(" ++ "(" from rfl, show ") & " = ")" ++ " & " from rfl,
    show ");" = ")" ++ ";" from rfl]
  simp only [BitCode.render, Numeral.hexadecimal, keeps, String.append_assoc]

/-- The generated code for the bitfields of an attribute: which code stands in accessors and
constructors, and that the one gives back what the other has put into the word. -/
structure RestoresBits (model : Model) (id : AttributeId) (storage : Builtin) : Prop where
  accessor : ∀ bitfield ∈ (model.attr id).bitfields, ∃ method,
    (model.bitfield bitfield).accessor = some method ∧
      ∀ owner, methodBody model owner (model.method method) =
        some (some ("return " ++ Cpp.typeRef model (model.bitfield bitfield).type ++
          (readOut model (model.bitfield bitfield)).render ++ ";"))
  constructor : ∀ owner constructor access text,
    constructorMember model owner constructor = some (access, .constructor text) →
      ∀ code, BitCode.joined? ((assignedBits model id
          (assignmentTexts model owner constructor)).map (written model)) = some code →
        if (model.attr id).owner = owner then
          ((model.attr id).fieldName, code.render) ∈ text.initializers
        else ((model.attr id).fieldName ++ " = " ++ code.render ++ ";") ∈ text.statements
  restored : ∀ assigned : List (BitfieldId × String),
    (∀ entry ∈ assigned, entry.1 ∈ (model.attr id).bitfields) → (assigned.map (·.1)).Nodup →
      ∀ code, BitCode.joined? (assigned.map (written model)) = some code →
        ∀ (signed : Bool) (numbers later : String → Int),
          BitVec.ofInt storage.bits (later (Cpp.attributeValue model (model.attr id))) =
              code.eval storage.bits signed numbers →
            ∀ bitfield ∈ (model.attr id).bitfields,
              (((readOut model (model.bitfield bitfield)).eval storage.bits signed later).toNat : Int) =
                ((assigned.lookup bitfield).map fun text =>
                  numbers text % 2 ^ (model.bitfield bitfield).width).getD 0

private theorem RestoresBits.of_fit {model : Model} (sound : model.Sound) {id : AttributeId}
    {storage : Builtin} (fit : FitTogether storage.bits (model.bitsOf id)) :
    RestoresBits model id storage where
  accessor bitfield listed := by
    have inside := sound.closed.bitfieldsOf id bitfield listed
    obtain ⟨method, found, body, _⟩ := sound.bitfieldAccessor bitfield inside
    refine ⟨method, found, fun owner => ?_⟩
    rw [methodBody, body]
    exact congrArg (fun text => some (some text)) (bitfieldBody_eq model _)
  constructor owner constructor access text member code joins := by
    rw [constructorMember] at member
    split at member
    · cases member
    · obtain ⟨assigned, made, member⟩ := Option.bind_eq_some_iff.mp member
      cases member
      have sets := sets_assignments made joins
      rw [Sets] at sets
      split
      · rename_i own
        rw [if_pos own] at sets
        exact List.mem_map.mpr ⟨_, sets, rfl⟩
      · rename_i other
        rw [if_neg other] at sets
        exact sets
  restored assigned own different code joins signed numbers later stored bitfield listed := by
    have attr : (model.bitfield bitfield).attr = id :=
      (sound.bitfields.mem_iff (sound.closed.bitfieldsOf id bitfield listed)).mp listed
    exact toNat_readOut fit own different joins listed (attr.symm ▸ stored)

/-- Bitfields are accepted for a word if and only if each has a size that is not zero, none ends
beyond the word and no two share a bit, and what else is said of them is accepted. So what is
assigned to different bitfields of an attribute, in any order, is read back modulo the width of
each, and the bitfields that are left out read as zero. -/
theorem build_bitfields :
    (∀ (model after : Model) (owner : RecordId) (id : AttributeId) (path typeName : String)
        (declarations : List Declaration.Bitfield) (storage : Builtin),
      bitStorage? (model.attr id) = some storage →
        (addBitfields model owner id path typeName declarations = .ok after ↔
          ((∀ declaration ∈ declarations, declaration.size.isSome) ∧
              FitTogether storage.bits (declaredBits 0 declarations)) ∧
            (declarations.zip (declaredBits 0 declarations)).foldlM
              (insertPlaced ⟨owner, id, (model.attr id).access, storage, path⟩) model = .ok after)) ∧
      ∀ (units : List SourceUnit) (built : Built), build units = .ok built →
        ∀ id : AttributeId, (built.model.attr id).bitfields ≠ [] →
          ∃ storage, bitStorage? (built.model.attr id) = some storage ∧
            FitTogether storage.bits (built.model.bitsOf id) ∧
              RestoresBits built.model id storage := by
  constructor
  · intro model after owner id path typeName declarations storage word
    exact addBitfields_ok_iff word
  · intro units built accepted id some
    obtain ⟨stages⟩ := build_stages accepted
    have shared : built.model.bitsOf id ≠ [] := fun none => some (List.map_eq_nil_iff.mp none)
    obtain ⟨storage, word, fit⟩ := stages.sharesWords.words id shared
    exact ⟨storage, word, fit, .of_fit stages.sound fit⟩

/-- A word of sixteen bits with three bitfields: the lowest bits, the highest ones, and some between
that are placed explicitly. -/
def sharedWord : List SourceUnit :=
  let bitfields : List Declaration.Bitfield :=
    [{ name := "low", size := some 3 }, { name := "high", offset := some 13, size := some 3 },
      { name := "middle", offset := some 4, size := some 5 }]
  let record : Declaration.Record :=
    { name := "Flags", attributes := [{ name := "word", typeName := some "uint16_t", bitfields }] }
  [{ document := { packages := [.mk "Sample" none [] [] [] [] [record]] } }]

theorem build_bitfields_sample : ∃ built, build sharedWord = .ok built ∧
    (∃ code, BitCode.joined?
        ([(⟨2⟩, "b"), (⟨0⟩, "a")].map (written built.model)) = some code ∧
      ∀ (signed : Bool) (numbers later : String → Int), numbers "a" = 13 → numbers "b" = -1 →
        BitVec.ofInt 16 (later (Cpp.attributeValue built.model (built.model.attr ⟨0⟩))) =
            code.eval 16 signed numbers →
          [0, 1, 2].map (fun index =>
            ((readOut built.model (built.model.bitfield ⟨index⟩)).eval 16 signed later).toNat) =
              [5, 0, 31]) ∧
    ∀ after, addBitfields built.model ⟨0⟩ ⟨0⟩ "Sample.Flags.word" "uint16_t"
      [{ name := "first", size := some 9 },
        { name := "second", offset := some 8, size := some 2 }] ≠ .ok after := by
  have computed : ∃ built, build sharedWord = .ok built ∧
      (built.model.attr ⟨0⟩).bitfields = [⟨0⟩, ⟨1⟩, ⟨2⟩] ∧
      bitStorage? (built.model.attr ⟨0⟩) = some .uint16 ∧
      (built.model.bitfield ⟨0⟩).width = 3 ∧ (built.model.bitfield ⟨2⟩).width = 5 :=
    exists_built (by decide +kernel)
  obtain ⟨built, accepted, listed, type, low, middle⟩ := computed
  obtain ⟨storage, word, _, restores⟩ :=
    build_bitfields.2 sharedWord built accepted ⟨0⟩ (by rw [listed]; simp)
  obtain rfl : storage = .uint16 := Option.some.inj (word.symm.trans type)
  refine ⟨built, accepted, ⟨_, rfl, fun signed numbers later a b stored => ?_⟩, fun after added => ?_⟩
  case refine_2 =>
    obtain ⟨⟨_, fit⟩, _⟩ := (build_bitfields.1 _ after _ _ _ _ _ _ type).mp added
    exact (List.pairwise_cons.mp fit.apart).1 _ (List.mem_singleton_self _) 8
      ⟨⟨by decide, by decide⟩, by decide, by decide⟩
  have read := restores.restored [(⟨2⟩, "b"), (⟨0⟩, "a")] (by simp [listed]) (by decide) _ rfl signed
    numbers later stored
  simp only [listed, List.forall_mem_cons] at read
  obtain ⟨first, second, third, _⟩ := read
  have lowest : List.lookup (⟨0⟩ : BitfieldId) [(⟨2⟩, "b"), (⟨0⟩, "a")] = some "a" := rfl
  have absent : List.lookup (⟨1⟩ : BitfieldId) [(⟨2⟩, "b"), (⟨0⟩, "a")] = none := rfl
  have between : List.lookup (⟨2⟩ : BitfieldId) [(⟨2⟩, "b"), (⟨0⟩, "a")] = some "b" := rfl
  rw [lowest, Option.map_some, Option.getD_some, a, low] at first
  rw [absent, Option.map_none, Option.getD_none] at second
  rw [between, Option.map_some, Option.getD_some, b, middle] at third
  simp only [List.map_cons, List.map_nil, List.cons.injEq, and_true]
  exact ⟨Int.ofNat.inj (first.trans (by decide)), Int.ofNat.inj second,
    Int.ofNat.inj (third.trans (by decide))⟩

end RecordSchema.Accessors
