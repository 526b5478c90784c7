import Mathlib.Algebra.Order.Ring.Int
import RecordSchema.Proofs.Bitfields.Words
import RecordSchema.Proofs.Model.Paths
import RecordSchema.Backend.Accessors

/-!
# What code for bits computes

Accessors read bits out of a word and constructors put them together: such code masks, shifts and
joins. It is taken here to compute with words as long as the storage type, whatever a shift to the
right of a negative number brings in. Parts of a word that fit together are read back as they were
put in.
-/

set_option autoImplicit false

namespace RecordSchema

open Model Resolution

inductive BitCode where
  /-- The value of an expression. -/
  | value (text : String)
  /-- A word that is there. -/
  | word (text : String)
  | keep (code : BitCode) (mask : Nat)
  | raise (code : BitCode) (count : Nat)
  | lower (code : BitCode) (count : Nat)
  | join (first second : BitCode)

namespace BitCode

/-- The text of the code. A mask is written in base 16. -/
def render : BitCode → String
  | value text => "(" ++ text ++ ")"
  | word text => text
  | keep code mask => "(" ++ code.render ++ " & 0x" ++ String.ofList (Nat.toDigits 16 mask) ++ ")"
  | raise code count => code.render ++ " << " ++ toString count
  | lower code count => "(" ++ code.render ++ " >> " ++ toString count ++ ")"
  | join first second => first.render ++ " | " ++ second.render

/-- What code computes, by the numbers that stand for the texts in it. Words of a signed type are
lowered with copies of their sign. -/
def eval (bits : Nat) (signed : Bool) (numbers : String → Int) : BitCode → BitVec bits
  | value text | word text => BitVec.ofInt bits (numbers text)
  | keep code mask => code.eval bits signed numbers &&& BitVec.ofNat bits mask
  | raise code count => code.eval bits signed numbers <<< count
  | lower code count =>
    if signed then (code.eval bits signed numbers).sshiftRight count
    else code.eval bits signed numbers >>> count
  | join first second => first.eval bits signed numbers ||| second.eval bits signed numbers

def joined? : List BitCode → Option BitCode
  | [] => none
  | first :: rest => some (rest.foldl join first)

section Evaluation

variable {bits : Nat} {signed : Bool} {numbers : String → Int}

private theorem getLsbD_keep {width : Nat} (within : width ≤ bits) (code : BitCode) (position : Nat) :
    ((keep code (2 ^ width - 1)).eval bits signed numbers).getLsbD position =
      (decide (position < width) && (code.eval bits signed numbers).getLsbD position) := by
  rw [eval, BitVec.getLsbD_and, BitVec.getLsbD_ofNat, Nat.testBit_two_pow_sub_one]
  by_cases inside : position < width
  · simp [inside, Nat.lt_of_lt_of_le inside within]
  · simp [inside]

private theorem getLsbD_raise (code : BitCode) (count position : Nat) :
    ((raise code count).eval bits signed numbers).getLsbD position =
      (decide (position < bits) && decide (count ≤ position) &&
        (code.eval bits signed numbers).getLsbD (position - count)) := by
  rw [eval, BitVec.getLsbD_shiftLeft]
  by_cases before : position < count
  · simp [before, Nat.not_le_of_lt before]
  · simp [before, Nat.le_of_not_lt before]

/-- Within the word it makes no difference how a word is lowered. -/
theorem getLsbD_lower {count position : Nat} (within : count + position < bits) (code : BitCode) :
    ((lower code count).eval bits signed numbers).getLsbD position =
      (code.eval bits signed numbers).getLsbD (count + position) := by
  rw [eval]
  split
  · rw [BitVec.getLsbD_sshiftRight]
    simp [within, Nat.not_le_of_lt (Nat.lt_of_le_of_lt (Nat.le_add_left ..) within)]
  · rw [BitVec.getLsbD_ushiftRight]

private theorem getLsbD_joined {codes : List BitCode} {code : BitCode} (joins : joined? codes = some code)
    (position : Nat) :
    (code.eval bits signed numbers).getLsbD position =
      codes.any fun part => (part.eval bits signed numbers).getLsbD position := by
  cases codes with
  | nil => cases joins
  | cons first rest =>
    cases joins
    induction rest generalizing first with
    | nil => simp
    | cons second rest ih =>
      rw [List.foldl_cons, ih, List.any_cons, eval, BitVec.getLsbD_or, List.any_cons, List.any_cons,
        Bool.or_assoc]

private theorem toNat_masked {width : Nat} (within : width ≤ bits) (number : Int) :
    ((BitVec.ofInt bits number &&& BitVec.ofNat bits (2 ^ width - 1)).toNat : Int) =
      number % 2 ^ width := by
  have short : 2 ^ width - 1 < 2 ^ bits := by
    have positive := Nat.two_pow_pos width
    have longer : 2 ^ width ≤ 2 ^ bits := Nat.pow_le_pow_right Nat.two_pos within
    omega
  have divides : ((2 ^ width : Nat) : Int) ∣ ((2 ^ bits : Nat) : Int) :=
    Int.natCast_dvd_natCast.mpr (Nat.pow_dvd_pow 2 within)
  have nonneg : 0 ≤ number % ((2 ^ bits : Nat) : Int) :=
    Int.emod_nonneg _ (Int.natCast_ne_zero.mpr (Nat.ne_of_gt (Nat.two_pow_pos bits)))
  rw [BitVec.toNat_and, BitVec.toNat_ofInt, BitVec.toNat_ofNat, Nat.mod_eq_of_lt short,
    Nat.and_two_pow_sub_one_eq_mod, Int.natCast_emod, Int.toNat_of_nonneg nonneg,
    Int.emod_emod_of_dvd _ divides, Int.natCast_pow]
  rfl

end Evaluation

end BitCode

private theorem Builtin.bits_le (type : Builtin) : type.bits ≤ 64 := by
  cases type <;> decide

private theorem Bitfield.mask_eq {bitfield : Bitfield} (short : bitfield.width ≤ 64) :
    bitfield.mask = 2 ^ bitfield.width - 1 := by
  rw [mask, Nat.min_eq_left short]
  rfl

namespace Accessors

/-- The code for a value that is put into the part of the word that a bitfield has. -/
def written (model : Model) (assigned : BitfieldId × String) : BitCode :=
  .raise (.keep (.value assigned.2) (model.bitfield assigned.1).mask) (model.bitfield assigned.1).offset

/-- The code that reads a bitfield out of the word of its attribute. -/
def readOut (model : Model) (bitfield : Bitfield) : BitCode :=
  .keep (.lower (.word (Cpp.attributeValue model (model.attr bitfield.attr))) bitfield.offset)
    bitfield.mask

section Word

variable {model : Model} {id : AttributeId} {storage : Builtin}
  (fit : FitTogether storage.bits (model.bitsOf id)) {signed : Bool} {numbers later : String → Int}

include fit

private theorem within_word {bitfield : BitfieldId} (listed : bitfield ∈ (model.attr id).bitfields) :
    (model.bitfield bitfield).offset + (model.bitfield bitfield).width ≤ storage.bits :=
  fit.within _ (List.mem_map_of_mem listed)

private theorem width_le {bitfield : BitfieldId} (listed : bitfield ∈ (model.attr id).bitfields) :
    (model.bitfield bitfield).width ≤ storage.bits :=
  Nat.le_trans (Nat.le_add_left ..) (within_word fit listed)

private theorem mask_of_listed {bitfield : BitfieldId} (listed : bitfield ∈ (model.attr id).bitfields) :
    (model.bitfield bitfield).mask = 2 ^ (model.bitfield bitfield).width - 1 :=
  Bitfield.mask_eq (Nat.le_trans (width_le fit listed) storage.bits_le)

private theorem apart_of_listed {first second : BitfieldId} (one : first ∈ (model.attr id).bitfields)
    (other : second ∈ (model.attr id).bitfields) (different : first ≠ second) :
    (model.bitfield first).bits.Apart (model.bitfield second).bits := by
  have symmetric : Std.Symm fun one other : BitfieldId =>
      (model.bitfield one).bits.Apart (model.bitfield other).bits :=
    ⟨fun _ _ apart bit both => apart bit both.symm⟩
  exact (List.pairwise_map.mp fit.apart).forall one other different

/-- What is put into a bitfield touches no bit of another. -/
theorem getLsbD_written_iff {bitfield : BitfieldId} (listed : bitfield ∈ (model.attr id).bitfields)
    (text : String) (position : Nat) :
    ((written model (bitfield, text)).eval storage.bits signed numbers).getLsbD position = true ↔
      (model.bitfield bitfield).bits.Holds position ∧
        (BitVec.ofInt storage.bits (numbers text)).getLsbD
          (position - (model.bitfield bitfield).offset) = true := by
  have within := within_word fit listed
  rw [written, BitCode.getLsbD_raise, mask_of_listed fit listed,
    BitCode.getLsbD_keep (width_le fit listed), BitCode.eval]
  simp only [Bool.and_eq_true, decide_eq_true_eq, PlacedBits.Holds, Bitfield.bits]
  constructor
  · rintro ⟨⟨_, after⟩, before, set⟩
    exact ⟨⟨after, by omega⟩, set⟩
  · rintro ⟨⟨after, before⟩, set⟩
    exact ⟨⟨by omega, after⟩, by omega, set⟩

section Read

variable {assigned : List (BitfieldId × String)}
  (own : ∀ entry ∈ assigned, entry.1 ∈ (model.attr id).bitfields)
  (different : (assigned.map (·.1)).Nodup) {code : BitCode}
  (joins : BitCode.joined? (assigned.map (written model)) = some code)
  {bitfield : BitfieldId} (listed : bitfield ∈ (model.attr id).bitfields)
  (stored : BitVec.ofInt storage.bits
      (later (Cpp.attributeValue model (model.attr (model.bitfield bitfield).attr))) =
    code.eval storage.bits signed numbers)

include own different joins listed stored

/-- The bits that are read are those of the one value that was put there. -/
theorem getLsbD_readOut_iff (position : Nat) :
    ((readOut model (model.bitfield bitfield)).eval storage.bits signed later).getLsbD position =
        true ↔
      position < (model.bitfield bitfield).width ∧
        ∃ text, assigned.lookup bitfield = some text ∧
          (BitVec.ofInt storage.bits (numbers text)).getLsbD position = true := by
  have within := within_word fit listed
  rw [readOut, mask_of_listed fit listed, BitCode.getLsbD_keep (width_le fit listed),
    Bool.and_eq_true, decide_eq_true_eq]
  refine and_congr_right fun inside => ?_
  rw [BitCode.getLsbD_lower (by omega), BitCode.eval, stored, BitCode.getLsbD_joined joins,
    List.any_map, List.any_eq_true]
  constructor
  · rintro ⟨⟨other, text⟩, member, set⟩
    obtain ⟨holds, set⟩ := (getLsbD_written_iff fit (own _ member) text _).mp set
    have same : other = bitfield := by
      by_contra apart
      exact apart_of_listed fit (own _ member) listed apart _
        ⟨holds, Nat.le_add_right .., Nat.add_lt_add_left inside _⟩
    subst same
    rw [Nat.add_sub_cancel_left] at set
    exact ⟨text, (lookup_eq_some_iff_mem different).mpr member, set⟩
  · rintro ⟨text, found, set⟩
    have member := mem_of_lookup found
    refine ⟨_, member, (getLsbD_written_iff fit listed text _).mpr ⟨?_, ?_⟩⟩
    · exact ⟨Nat.le_add_right .., Nat.add_lt_add_left inside _⟩
    · rwa [Nat.add_sub_cancel_left]

/-- What has been put into different bitfields is read back from each of them, and from the others
zero. -/
theorem toNat_readOut :
    (((readOut model (model.bitfield bitfield)).eval storage.bits signed later).toNat : Int) =
      ((assigned.lookup bitfield).map fun text =>
        numbers text % 2 ^ (model.bitfield bitfield).width).getD 0 := by
  have read := getLsbD_readOut_iff fit own different joins listed stored
  cases found : assigned.lookup bitfield with
  | none =>
    have zero : (readOut model (model.bitfield bitfield)).eval storage.bits signed later =
        BitVec.ofNat storage.bits 0 := by
      refine BitVec.eq_of_getLsbD_eq fun position _ => ?_
      rw [BitVec.getLsbD_zero, ← Bool.not_eq_true, read]
      simp [found]
    rw [zero]
    rfl
  | some text =>
    rw [Option.map_some, Option.getD_some, ← BitCode.toNat_masked (width_le fit listed)]
    congr 2
    refine BitVec.eq_of_getLsbD_eq fun position inside => ?_
    rw [Bool.eq_iff_iff, read, BitVec.getLsbD_and, BitVec.getLsbD_ofNat, Nat.testBit_two_pow_sub_one]
    simp [found, inside, and_comm]

end Read

end Word

end Accessors

end RecordSchema
