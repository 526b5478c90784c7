/-!
# Numerals

Decimal and hexadecimal numerals of integers, and the range of a signed 64-bit word.
-/

set_option autoImplicit false

namespace RecordSchema

namespace Word

/-- The range of a signed word of 64 bits. -/
def Fits (value : Int) : Prop :=
  -9223372036854775808 ≤ value ∧ value ≤ 9223372036854775807

instance (value : Int) : Decidable (Fits value) :=
  inferInstanceAs (Decidable (_ ∧ _))

/-- The value itself if it is in range, nothing if an operation has left the range. -/
def check (value : Int) : Option Int :=
  if Fits value then some value else none

/-- Sum of two words, if it is a word. -/
def add (left right : Int) : Option Int :=
  check (left + right)

/-- Product of two words, if it is a word. -/
def mul (left right : Int) : Option Int :=
  check (left * right)

@[simp] theorem check_eq_some_iff {value result : Int} :
    check value = some result ↔ Fits value ∧ value = result := by
  unfold check
  split <;> simp_all

theorem add_eq_some_iff {left right result : Int} :
    add left right = some result ↔ Fits (left + right) ∧ left + right = result :=
  check_eq_some_iff

theorem mul_eq_some_iff {left right result : Int} :
    mul left right = some result ↔ Fits (left * right) ∧ left * right = result :=
  check_eq_some_iff

end Word

namespace Numeral

/-- Value of an ASCII digit. -/
def digit? (character : Char) : Option Nat :=
  if character.isDigit then some (character.toNat - 48) else none

/-- Value of a hexadecimal digit in either case. -/
def hexDigit? (character : Char) : Option Nat :=
  if character.isDigit then some (character.toNat - 48)
  else if 'a' ≤ character ∧ character ≤ 'f' then some (character.toNat - 87)
  else if 'A' ≤ character ∧ character ≤ 'F' then some (character.toNat - 55)
  else none

/-- Value of a run of digits in a base, on top of what has been read. -/
def natural? (digitValue : Char → Option Nat) (base : Nat) : Nat → List Char → Option Nat
  | value, [] => some value
  | value, character :: rest => do
    let digit ← digitValue character
    if digit < base then natural? digitValue base (value * base + digit) rest else none

/-- Value of a numeral of at least one decimal digit. -/
def decimal? : List Char → Option Nat
  | [] => none
  | digits => natural? digit? 10 0 digits

/-- A decimal numeral with an optional sign, read as a signed word. -/
def word? (characters : List Char) : Option Int :=
  match characters with
  | '-' :: digits => (decimal? digits).bind fun value => Word.check (-(value : Int))
  | '+' :: digits => (decimal? digits).bind fun value => Word.check (value : Int)
  | digits => (decimal? digits).bind fun value => Word.check (value : Int)

/-- Lower-case hexadecimal numeral after the marker `0x`. -/
def hexadecimal (value : Nat) : String :=
  "0x" ++ String.ofList (Nat.toDigits 16 value)

/-- The four lower-case hexadecimal digits of a 16-bit code. -/
def fourHexDigits (value : Nat) : String :=
  let digits := Nat.toDigits 16 value
  String.ofList (List.replicate (4 - digits.length) '0' ++ digits)

end Numeral

end RecordSchema
