import RecordSchema.Proofs.Build
import RecordSchema.Proofs.Resolution.Attributes

/-!
# Bitfields in words

A bitfield without an offset follows the one declared before it, wherever that one stands. The
bitfields of a word can be placed if and only if each of them has at least one bit, none ends beyond
the word, and no bit is handed out twice. Types and accessors are looked at between one placement
and the next, but have no part in them.
-/

set_option autoImplicit false

namespace RecordSchema.Resolution

open Outcome

namespace PlacedBits

def Holds (placed : PlacedBits) (bit : Nat) : Prop :=
  placed.start ≤ bit ∧ bit < placed.stop

/-- No bit is handed out by both. -/
def Apart (first second : PlacedBits) : Prop :=
  ∀ bit, ¬ (first.Holds bit ∧ second.Holds bit)

private theorem apart_iff {first second : PlacedBits} (one : first.start < first.stop)
    (other : second.start < second.stop) :
    first.Apart second ↔ ¬ (second.start < first.stop ∧ first.start < second.stop) := by
  constructor
  · rintro apart ⟨before, after⟩
    refine apart (max first.start second.start) ⟨⟨?_, ?_⟩, ?_, ?_⟩ <;> omega
  · rintro separate bit ⟨⟨_, _⟩, _, _⟩
    omega

end PlacedBits

/-- Parts of a word of some length that no bit belongs to twice. -/
structure FitTogether (bits : Nat) (placed : List PlacedBits) : Prop where
  nonempty : ∀ one ∈ placed, one.start < one.stop
  within : ∀ one ∈ placed, one.stop ≤ bits
  apart : placed.Pairwise PlacedBits.Apart

namespace FitTogether

variable {bits : Nat} {placed more : List PlacedBits}

theorem nil : FitTogether bits [] where
  nonempty := by simp
  within := by simp
  apart := .nil

theorem of_append (fit : FitTogether bits (placed ++ more)) : FitTogether bits placed where
  nonempty one member := fit.nonempty one (List.mem_append_left _ member)
  within one member := fit.within one (List.mem_append_left _ member)
  apart := (List.pairwise_append.mp fit.apart).1

theorem concat {last : PlacedBits} :
    FitTogether bits (placed ++ [last]) ↔
      FitTogether bits placed ∧ last.start < last.stop ∧ last.stop ≤ bits ∧
        ∀ one ∈ placed, one.Apart last := by
  constructor
  · intro fit
    refine ⟨fit.of_append, fit.nonempty last (by simp), fit.within last (by simp), ?_⟩
    intro one member
    exact (List.pairwise_append.mp fit.apart).2.2 one member last (List.mem_singleton_self last)
  · rintro ⟨fit, nonempty, within, apart⟩
    constructor
    case nonempty =>
      intro one member
      rcases List.mem_append.mp member with old | new
      · exact fit.nonempty one old
      · cases List.mem_singleton.mp new
        exact nonempty
    case within =>
      intro one member
      rcases List.mem_append.mp member with old | new
      · exact fit.within one old
      · cases List.mem_singleton.mp new
        exact within
    case apart =>
      refine List.pairwise_append.mpr ⟨fit.apart, List.pairwise_singleton _ _, ?_⟩
      intro one member other new
      cases List.mem_singleton.mp new
      exact apart one member

end FitTogether

/-- The bit after the last one placed. -/
def followingBit (placed : List PlacedBits) : Nat :=
  (placed.getLast?.map (·.stop)).getD 0

/-- The bits that a declaration asks for, if it comes after others. -/
def requestedBits (following : Nat) (declaration : Declaration.Bitfield) : PlacedBits :=
  let start := (declaration.offset.map UInt32.toNat).getD following
  ⟨declaration.name, start, start + (declaration.size.map UInt32.toNat).getD 0⟩

def declaredBits (following : Nat) : List Declaration.Bitfield → List PlacedBits
  | [] => []
  | declaration :: rest =>
    let bits := requestedBits following declaration
    bits :: declaredBits bits.stop rest

private theorem length_declaredBits (following : Nat) (declarations : List Declaration.Bitfield) :
    (declaredBits following declarations).length = declarations.length := by
  induction declarations generalizing following with
  | nil => rfl
  | cons declaration rest ih => rw [declaredBits, List.length_cons, List.length_cons, ih]

private theorem mem_zip_declaredBits {following : Nat} {declarations : List Declaration.Bitfield}
    {entry : Declaration.Bitfield × PlacedBits}
    (member : entry ∈ declarations.zip (declaredBits following declarations)) :
    entry.2.start ≤ entry.2.stop ∧ entry.2.name = entry.1.name := by
  induction declarations generalizing following with
  | nil => cases member
  | cons declaration rest ih =>
    rcases List.mem_cons.mp member with rfl | later
    · exact ⟨Nat.le_add_right _ _, rfl⟩
    · exact ih later

/-- A bitfield can be placed if it has a size, and its bits fit together with those placed before. -/
theorem placeBits_ok_iff {path : String} {storage : Builtin} {placed : List PlacedBits}
    (fit : FitTogether storage.bits placed) {declaration : Declaration.Bitfield}
    {bits : PlacedBits} :
    placeBits path storage placed declaration = .ok bits ↔
      bits = requestedBits (followingBit placed) declaration ∧ declaration.size.isSome ∧
        FitTogether storage.bits (placed ++ [bits]) := by
  rw [FitTogether.concat, and_iff_right fit, placeBits, requestedBits, followingBit]
  cases declared : declaration.size with
  | none => simp
  | some size =>
    simp only [bind, Except.bind, Option.map_some, Option.getD_some, Option.isSome_some, true_and]
    generalize (declaration.offset.map UInt32.toNat).getD
      ((placed.getLast?.map (·.stop)).getD 0) = start
    by_cases empty : size = 0
    · subst empty
      simp only [reduceIte, reduceCtorEq, UInt32.toNat_zero, Nat.add_zero, false_iff]
      rintro ⟨rfl, positive, _⟩
      exact Nat.lt_irrefl _ positive
    rw [if_neg empty]
    have positive : 0 < size.toNat := by
      have : size.toNat ≠ 0 := fun zero => empty (UInt32.toNat_inj.mp zero)
      omega
    by_cases beyond : storage.bits < start + size.toNat
    · rw [if_pos beyond]
      simp only [reduceCtorEq, false_iff]
      rintro ⟨rfl, _, within, _⟩
      exact Nat.lt_irrefl _ (Nat.lt_of_lt_of_le beyond within)
    rw [if_neg beyond]
    have apart : ∀ one ∈ placed, one.Apart ⟨declaration.name, start, start + size.toNat⟩ ↔
        ¬ (start < one.stop ∧ one.start < start + size.toNat) := fun one member =>
      PlacedBits.apart_iff (fit.nonempty one member) (Nat.lt_add_of_pos_right positive)
    split
    · rename_i other found
      simp only [reduceCtorEq, false_iff]
      rintro ⟨rfl, _, _, separate⟩
      have clash := List.find?_some found
      rw [Bool.and_eq_true, decide_eq_true_eq, decide_eq_true_eq] at clash
      have member := List.mem_of_find?_eq_some found
      exact (apart other member).mp (separate other member) clash
    · rename_i free
      rw [Except.ok.injEq, eq_comm]
      refine ⟨fun same => ?_, And.left⟩
      subst same
      refine ⟨rfl, Nat.lt_add_of_pos_right positive, Nat.le_of_not_lt beyond, fun one member => ?_⟩
      rw [apart one member]
      simpa using List.find?_eq_none.mp free one member

/-- The placements alone: the places of bitfields that come after others. -/
def placeAll (path : String) (storage : Builtin) (placed : List PlacedBits) :
    List Declaration.Bitfield → Except SchemaError (List PlacedBits)
  | [] => .ok []
  | declaration :: rest => do
    let bits ← placeBits path storage placed declaration
    let others ← placeAll path storage (placed ++ [bits]) rest
    .ok (bits :: others)

private theorem placeAll_ok_iff {path : String} {storage : Builtin} {placed : List PlacedBits}
    (fit : FitTogether storage.bits placed) {declarations : List Declaration.Bitfield}
    {all : List PlacedBits} :
    placeAll path storage placed declarations = .ok all ↔
      all = declaredBits (followingBit placed) declarations ∧
        (∀ declaration ∈ declarations, declaration.size.isSome) ∧
        FitTogether storage.bits (placed ++ all) := by
  induction declarations generalizing placed all with
  | nil =>
    rw [placeAll, declaredBits, Except.ok.injEq]
    constructor
    · rintro rfl
      exact ⟨rfl, by simp, by rwa [List.append_nil]⟩
    · rintro ⟨rfl, _⟩
      rfl
  | cons declaration rest ih =>
    have following : ∀ bits, followingBit (placed ++ [bits]) = bits.stop := fun bits => by
      simp [followingBit]
    rw [declaredBits, List.forall_mem_cons]
    constructor
    · intro accepted
      obtain ⟨bits, first, accepted⟩ := bind_ok accepted
      obtain ⟨others, later, accepted⟩ := bind_ok accepted
      cases accepted
      obtain ⟨rfl, sized, fit⟩ := (placeBits_ok_iff fit).mp first
      obtain ⟨rfl, others, fit⟩ := (ih fit).mp later
      rw [following, List.append_assoc] at fit
      exact ⟨by rw [following], ⟨sized, others⟩, by rw [following]; exact fit⟩
    · rintro ⟨rfl, ⟨sized, others⟩, whole⟩
      rw [List.append_cons] at whole
      have first : placeBits path storage placed declaration = .ok _ :=
        (placeBits_ok_iff fit).mpr ⟨rfl, sized, whole.of_append⟩
      have later := (ih whole.of_append).mpr
        ⟨by rw [following], others, whole⟩
      simp only [placeAll, bind, Except.bind, first, later]

/-- What is done for a bitfield once its place is known. -/
def insertPlaced (context : BitfieldContext) (model : Model)
    (entry : Declaration.Bitfield × PlacedBits) : Except SchemaError Model := do
  let path := context.path ++ "." ++ entry.1.name
  let type ←
    match entry.1.typeName with
    | some name => model.lookupType context.owner path name
    | none => .ok (.builtin context.storage)
  insertBitfield model context.owner context.access path (entry.1.accessor.getD entry.1.name)
    { name := entry.1.name, attr := context.attr, offset := entry.2.start,
      width := entry.2.stop - entry.2.start, type, comment := entry.1.comment }

private theorem addBitfield_eq (context : BitfieldContext) (model : Model) (placed : List PlacedBits)
    (declaration : Declaration.Bitfield) :
    addBitfield context (model, placed) declaration =
      (placeBits context.path context.storage placed declaration).bind fun bits =>
        (insertPlaced context model (declaration, bits)).map fun extended =>
          (extended, placed ++ [bits]) := by
  cases declared : declaration.typeName with
  | none =>
    simp only [addBitfield, insertPlaced, declared]
    rfl
  | some name =>
    simp only [addBitfield, insertPlaced, declared]
    cases placeBits context.path context.storage placed declaration with
    | error _ => rfl
    | ok _ => cases model.lookupType context.owner (context.path ++ "." ++ declaration.name) name <;> rfl

section Adding

variable (context : BitfieldContext) (model : Model) {placed : List PlacedBits}
  {declarations : List Declaration.Bitfield}

/-- Where all bitfields can be placed, only types and accessors are left to refuse. -/
theorem addBitfield_of_placed {all : List PlacedBits}
    (accepted : placeAll context.path context.storage placed declarations = .ok all) :
    (declarations.foldlM (addBitfield context) (model, placed)).map (·.1) =
      (declarations.zip all).foldlM (insertPlaced context) model := by
  induction declarations generalizing model placed all with
  | nil => rfl
  | cons declaration rest ih =>
    obtain ⟨bits, first, accepted⟩ := bind_ok accepted
    obtain ⟨others, later, accepted⟩ := bind_ok accepted
    cases accepted
    rw [List.foldlM_cons, List.zip_cons_cons, List.foldlM_cons, addBitfield_eq, first]
    cases inserted : insertPlaced context model (declaration, bits) with
    | error _ => simp only [Except.bind, Except.map, bind, inserted]
    | ok extended =>
      simp only [Except.bind, bind, inserted]
      exact ih extended later

private theorem addBitfield_of_unplaced {error : SchemaError}
    (refused : placeAll context.path context.storage placed declarations = .error error) :
    ∃ reason, declarations.foldlM (addBitfield context) (model, placed) = .error reason := by
  induction declarations generalizing model placed with
  | nil => cases refused
  | cons declaration rest ih =>
    rw [List.foldlM_cons, addBitfield_eq]
    cases first : placeBits context.path context.storage placed declaration with
    | error reason => exact ⟨reason, rfl⟩
    | ok bits =>
      have later : placeAll context.path context.storage (placed ++ [bits]) rest = .error error := by
        rw [placeAll, first] at refused
        cases later : placeAll context.path context.storage (placed ++ [bits]) rest with
        | error _ => simpa only [bind, Except.bind, later] using refused
        | ok _ => simp only [bind, Except.bind, later, reduceCtorEq] at refused
      cases inserted : insertPlaced context model (declaration, bits) with
      | error reason => exact ⟨reason, by simp only [Except.bind, Except.map, bind, inserted]⟩
      | ok extended =>
        obtain ⟨reason, stopped⟩ := ih extended later
        exact ⟨reason, by simpa only [Except.bind, Except.map, bind, inserted] using stopped⟩

end Adding

/-- What a list of bitfields needs to be accepted for the word of an attribute: it can be placed, and
its types and accessors are accepted too. -/
theorem addBitfields_ok_iff {model after : Model} {owner : RecordId} {id : AttributeId}
    {path typeName : String} {declarations : List Declaration.Bitfield} {storage : Builtin}
    (word : bitStorage? (model.attr id) = some storage) :
    addBitfields model owner id path typeName declarations = .ok after ↔
      ((∀ declaration ∈ declarations, declaration.size.isSome) ∧
        FitTogether storage.bits (declaredBits 0 declarations)) ∧
      (declarations.zip (declaredBits 0 declarations)).foldlM
        (insertPlaced ⟨owner, id, (model.attr id).access, storage, path⟩) model = .ok after := by
  have whole : addBitfields model owner id path typeName declarations =
      (declarations.foldlM (addBitfield ⟨owner, id, (model.attr id).access, storage, path⟩)
        (model, [])).map (·.1) := by
    cases declarations with
    | nil => rfl
    | cons _ _ => simp only [addBitfields, List.isEmpty_cons, Bool.false_eq_true, reduceIte, word]
  rw [whole]
  constructor
  · intro accepted
    cases placed : placeAll path storage [] declarations with
    | error _ =>
      obtain ⟨reason, refused⟩ := addBitfield_of_unplaced
        ⟨owner, id, (model.attr id).access, storage, path⟩ model placed
      rw [refused] at accepted
      cases accepted
    | ok all =>
      obtain ⟨rfl, sized, fit⟩ := (placeAll_ok_iff .nil).mp placed
      refine ⟨⟨sized, fit⟩, ?_⟩
      rw [← accepted]
      exact (addBitfield_of_placed ⟨owner, id, (model.attr id).access, storage, path⟩ model placed).symm
  · rintro ⟨⟨sized, fit⟩, inserted⟩
    rw [← inserted]
    exact addBitfield_of_placed ⟨owner, id, (model.attr id).access, storage, path⟩ model
      ((placeAll_ok_iff .nil).mpr ⟨rfl, sized, fit⟩)

end RecordSchema.Resolution

/-!
## The words of a model

In a model that is built, an attribute with bitfields is a scalar integer, and its bitfields have
parts of its word that fit together. This is so as soon as the attribute is resolved, and whatever is
resolved or laid out later leaves it alone.
-/

namespace RecordSchema

open Model Outcome Resolution

/-- The part of the word that a bitfield has. -/
def Bitfield.bits (bitfield : Bitfield) : PlacedBits :=
  ⟨bitfield.name, bitfield.offset, bitfield.offset + bitfield.width⟩

namespace Model

def bitsOf (model : Model) (id : AttributeId) : List PlacedBits :=
  (model.attr id).bitfields.map fun bitfield => (model.bitfield bitfield).bits

/-- Attributes with bitfields are words, and their bitfields share the word. -/
structure SharesWords (model : Model) : Prop where
  listed : ∀ id : AttributeId, ∀ bitfield ∈ (model.attr id).bitfields,
    bitfield.index < model.bitfields.size
  words : ∀ id : AttributeId, model.bitsOf id ≠ [] →
    ∃ storage, bitStorage? (model.attr id) = some storage ∧
      FitTogether storage.bits (model.bitsOf id)

theorem SharesWords.congr {before after : Model} (shares : before.SharesWords)
    (bitfields : after.bitfields = before.bitfields)
    (listed : ∀ id, (after.attr id).bitfields = (before.attr id).bitfields)
    (storage : ∀ id, bitStorage? (after.attr id) = bitStorage? (before.attr id)) :
    after.SharesWords where
  listed id bitfield member := by
    rw [bitfields]
    exact shares.listed id bitfield (listed id ▸ member)
  words id shared := by
    have bits : after.bitsOf id = before.bitsOf id := by
      simp only [bitsOf, listed, Model.bitfield, bitfields]
    rw [bits] at shared ⊢
    rw [storage]
    exact shares.words id shared

private theorem SharesWords.of_noAttributes {model : Model} (none : model.attributes.size = 0) :
    model.SharesWords := by
  have empty : ∀ id, model.attr id = default := fun id =>
    model.attr_eq_default (none ▸ Nat.not_lt_zero _)
  constructor
  case listed =>
    intro id bitfield member
    rw [empty] at member
    cases member
  case words =>
    intro id shared
    rw [bitsOf, empty] at shared
    exact absurd rfl shared

end Model

namespace Resolution

/-- Bitfields have been added to one attribute, with parts of its word after those that it had. -/
structure AddsBits (id : AttributeId) (bits : List PlacedBits) (before after : Model) : Prop where
  attributes : after.attributes.size = before.attributes.size
  listed : (∀ other, ∀ bitfield ∈ (before.attr other).bitfields,
      bitfield.index < before.bitfields.size) →
    ∀ other, ∀ bitfield ∈ (after.attr other).bitfields, bitfield.index < after.bitfields.size
  storage : ∀ other, bitStorage? (after.attr other) = bitStorage? (before.attr other)
  bits : ∀ other, after.bitsOf other = before.bitsOf other ++ if other = id then bits else []

theorem AddsBits.refl (id : AttributeId) (model : Model) : AddsBits id [] model model where
  attributes := rfl
  listed listed := listed
  storage _ := rfl
  bits other := by rw [ite_self, List.append_nil]

theorem AddsBits.trans {id : AttributeId} {some more : List PlacedBits} {first middle last : Model}
    (one : AddsBits id some first middle) (other : AddsBits id more middle last) :
    AddsBits id (some ++ more) first last where
  attributes := other.attributes.trans one.attributes
  listed := other.listed ∘ one.listed
  storage id := (other.storage id).trans (one.storage id)
  bits := by
    intro place
    rw [other.bits, one.bits, List.append_assoc]
    split
    · rfl
    · rw [List.append_nil]

private theorem insertPlaced_ok {context : BitfieldContext} {model after : Model}
    {declaration : Declaration.Bitfield} {bits : PlacedBits}
    (accepted : insertPlaced context model (declaration, bits) = .ok after) :
    ∃ type accessor, after = model.withReadBitfield
      ⟨declaration.name, context.attr, bits.start, bits.stop - bits.start, type, none,
        declaration.comment⟩ accessor := by
  rw [insertPlaced] at accepted
  split at accepted
  · obtain ⟨type, _, accepted⟩ := bind_ok accepted
    obtain ⟨accessor, _, _, _, _, rfl⟩ := insertBitfield_ok accepted
    exact ⟨type, accessor, rfl⟩
  · obtain ⟨accessor, _, _, _, _, rfl⟩ := insertBitfield_ok accepted
    exact ⟨_, accessor, rfl⟩

/-- A bitfield that is inserted has the part of the word that was placed for it. It comes last in the table,
so those that are listed already stay as they are. -/
theorem insertPlaced_addsBits {context : BitfieldContext} {model after : Model}
    {declaration : Declaration.Bitfield} {bits : PlacedBits}
    (inside : context.attr.index < model.attributes.size) (ordered : bits.start ≤ bits.stop)
    (named : bits.name = declaration.name)
    (listed : ∀ other, ∀ bitfield ∈ (model.attr other).bitfields,
      bitfield.index < model.bitfields.size)
    (accepted : insertPlaced context model (declaration, bits) = .ok after) :
    AddsBits context.attr [bits] model after := by
  obtain ⟨type, accessor, rfl⟩ := insertPlaced_ok accepted
  generalize inserted : Bitfield.mk declaration.name context.attr bits.start
    (bits.stop - bits.start) type none declaration.comment = bitfield
  have attr := model.attr_withReadBitfield bitfield accessor
  have bitfields := model.bitfield_withReadBitfield bitfield accessor
  have census := model.census_withReadBitfield bitfield accessor
  have size : (model.withReadBitfield bitfield accessor).bitfields.size = model.bitfields.size + 1 :=
    congrArg Census.bitfields census
  have own : bitfield.attr = context.attr := by rw [← inserted]
  have part : bitfield.bits = bits := by
    rw [← inserted, Bitfield.bits, Nat.add_sub_cancel' ordered, ← named]
  constructor
  case attributes => exact congrArg Census.attributes census
  case listed =>
    intro _ other field member
    rw [size]
    rw [attr] at member
    split at member
    · rcases List.mem_append.mp member with old | new
      · exact Nat.lt_succ_of_lt (listed other field old)
      · cases List.mem_singleton.mp new
        exact Nat.lt_succ_self _
    · exact Nat.lt_succ_of_lt (listed other field member)
  case storage =>
    intro other
    rw [attr]
    split <;> rfl
  case bits =>
    intro other
    have old : (model.attr other).bitfields.map
        (fun field => ((model.withReadBitfield bitfield accessor).bitfield field).bits) =
          model.bitsOf other := by
      refine List.map_congr_left fun field member => ?_
      rw [bitfields, if_neg (Nat.ne_of_lt (listed other field member))]
    rw [bitsOf, attr, own]
    by_cases same : context.attr = other
    · subst same
      rw [if_pos ⟨rfl, inside⟩, if_pos rfl, List.map_append, old, List.map_singleton, bitfields,
        if_pos rfl]
      exact congrArg (fun part => model.bitsOf context.attr ++ [part]) part
    · rw [if_neg fun both => same both.1, if_neg (Ne.symm same), old, List.append_nil]

private theorem insertAll_addsBits {context : BitfieldContext} {model after : Model}
    {entries : List (Declaration.Bitfield × PlacedBits)}
    (inside : context.attr.index < model.attributes.size)
    (placed : ∀ entry ∈ entries, entry.2.start ≤ entry.2.stop ∧ entry.2.name = entry.1.name)
    (listed : ∀ other, ∀ bitfield ∈ (model.attr other).bitfields,
      bitfield.index < model.bitfields.size)
    (accepted : entries.foldlM (insertPlaced context) model = .ok after) :
    AddsBits context.attr (entries.map (·.2)) model after := by
  induction entries generalizing model with
  | nil =>
    cases accepted
    exact .refl _ _
  | cons entry rest ih =>
    obtain ⟨⟨ordered, named⟩, others⟩ := List.forall_mem_cons.mp placed
    rw [List.foldlM_cons] at accepted
    obtain ⟨extended, first, accepted⟩ := bind_ok accepted
    have one := insertPlaced_addsBits inside ordered named listed first
    exact one.trans (ih (one.attributes ▸ inside) others (one.listed listed) accepted)

private theorem addBitfields_shares {model after : Model} (shares : model.SharesWords) {owner : RecordId}
    {id : AttributeId} (inside : id.index < model.attributes.size) (fresh : model.bitsOf id = [])
    {path typeName : String} {declarations : List Declaration.Bitfield}
    (accepted : addBitfields model owner id path typeName declarations = .ok after) :
    after.SharesWords := by
  cases word : bitStorage? (model.attr id) with
  | none =>
    rw [addBitfields, word] at accepted
    split at accepted
    · cases accepted
      exact shares
    · cases accepted
  | some storage =>
    obtain ⟨⟨_, fit⟩, inserted⟩ := (addBitfields_ok_iff word).mp accepted
    have adds : AddsBits id _ model after :=
      insertAll_addsBits inside (fun _ => mem_zip_declaredBits) shares.listed inserted
    have parts : (declarations.zip (declaredBits 0 declarations)).map (·.2) =
        declaredBits 0 declarations :=
      List.map_snd_zip (Nat.le_of_eq (length_declaredBits 0 declarations))
    rw [parts] at adds
    refine ⟨adds.listed shares.listed, fun other shared => ?_⟩
    rw [adds.bits] at shared ⊢
    rw [adds.storage]
    by_cases same : other = id
    · subst same
      rw [if_pos rfl, fresh, List.nil_append]
      exact ⟨storage, word, fit⟩
    · rw [if_neg same, List.append_nil] at shared ⊢
      exact shares.words other shared

private theorem addAttribute_shares {model after : Model} (sound : model.Sound) (shares : model.SharesWords)
    {owner : RecordId} (inside : owner.index < model.records.size) {typePath : String}
    {declaration : Declaration.Attribute}
    (accepted : addAttribute owner typePath model declaration = .ok after) : after.SharesWords := by
  obtain ⟨attr, extended, _, read, inserted, bitfields⟩ := addAttribute_ok accepted
  obtain ⟨_, _, _, empty⟩ := readAttribute_ok sound.closed inside read
  have present := (insertAttribute_owned inserted).1
  obtain ⟨accessor, _, _, _, _, rfl⟩ := insertAttribute_ok inserted
  have view := model.attr_withReadAttribute attr accessor
  have fresh : (model.withReadAttribute attr accessor).bitsOf ⟨model.attributes.size⟩ = [] := by
    rw [bitsOf, view, if_pos rfl]
    exact congrArg (List.map _) empty
  refine addBitfields_shares ⟨fun id bitfield member => ?_, fun id shared => ?_⟩ present fresh bitfields
  · rw [view] at member
    split at member
    · rw [empty] at member
      cases member
    · exact shares.listed id bitfield member
  · by_cases last : id.index = model.attributes.size
    · obtain rfl : id = ⟨model.attributes.size⟩ := AttributeId.ext last
      exact absurd fresh shared
    · have old := view id
      rw [if_neg last] at old
      rw [bitsOf, old] at shared ⊢
      exact shares.words id shared

def SameWords (before after : Model) : Prop :=
  after.attributes = before.attributes ∧ after.bitfields = before.bitfields

theorem Passes.sharesWords {draft : Draft} {built : Built} (passes : Passes draft built)
    (consistent : draft.Consistent) : built.model.SharesWords := by
  have none : passes.withEnumerations.attributes.size = 0 := by
    rw [passes.values_only.1, (passes.isHeaded consistent).noAttributes]
  have attributes : passes.withAttributes.SharesWords :=
    passes.attributes_preserve consistent (.of_noAttributes none) fun sound inside shares added =>
      addAttribute_shares sound shares inside added
  have methods : SameWords passes.withAttributes passes.withMethods :=
    passes.methods_preserve consistent ⟨rfl, rfl⟩ fun _ _ same added => by
      obtain ⟨_, _, _, _, _, _, _, rfl⟩ := addDeclaredMethod_ok added
      exact same
  have constructors : SameWords passes.withAttributes built.model := by
    refine foldlM_preserves passes.constructors
      (fun state => SameWords passes.withAttributes state.1) methods ?_
    rintro pending _ ⟨state, before⟩ ⟨after, remarks⟩ same taken
    obtain ⟨⟨constructors, more⟩, -, taken⟩ := bind_ok taken
    cases taken
    exact same
  refine attributes.congr constructors.2 (fun id => ?_) fun id => ?_
  all_goals rw [Model.attr, constructors.1]; rfl

end Resolution

/-- Layout, flags, storage and schemas leave words alone. -/
theorem Stages.sharesWords {units : List SourceUnit} {built : Built} (stages : Stages units built) :
    built.model.SharesWords := by
  obtain ⟨passes⟩ := resolveDeclarations_passes stages.resolution
  have agree := stages.agree_derived
  refine (passes.sharesWords (Draft.ofUnits_consistent stages.named)).congr agree.bitfields
    (agree.attrField Attribute.bitfields fun _ => rfl) fun id => ?_
  exact agree.attrField bitStorage? (fun _ => rfl) id

end RecordSchema
