import Mathlib.Data.List.DropRight
import Mathlib.Data.List.Infix
import RecordSchema.Text.Blank
import RecordSchema.Text.Numeral

/-!
# Trimmed texts and numerals

A text that has been trimmed has no blank at either end and is not changed by trimming it again. The
numeral of a word is read back as that word, and nothing but digits and signs stands in a numeral. A text
is split at its separators and nowhere else.
-/

set_option autoImplicit false

namespace RecordSchema

namespace Text

/-- Characters without a blank at either end. -/
structure Trimmed (characters : List Char) : Prop where
  first : ∀ character, characters.head? = some character → isBlank character = false
  last : ∀ character, characters.getLast? = some character → isBlank character = false

theorem dropBlanks_first (characters : List Char) :
    ∀ character, (dropBlanks characters).head? = some character → isBlank character = false := by
  intro character found
  have kept := List.head?_dropWhile_not isBlank characters
  rw [dropBlanks] at found
  rw [found] at kept
  exact kept

theorem trimBlanks_trimmed (characters : List Char) : Trimmed (trimBlanks characters) where
  first character found := by
    obtain ⟨dropped, split⟩ := List.rdropWhile_prefix (p := isBlank) (dropBlanks characters)
    refine dropBlanks_first characters character ?_
    change (List.rdropWhile isBlank (dropBlanks characters)).head? = some character at found
    rw [← split, List.head?_append, found, Option.some_or]
  last character found := by
    have kept := dropBlanks_first (dropBlanks characters).reverse character
    refine kept ?_
    rw [trimBlanks, dropTrailingBlanks, List.getLast?_reverse] at found
    exact found

theorem mem_of_mem_trimBlanks {characters : List Char} {character : Char}
    (member : character ∈ trimBlanks characters) : character ∈ characters := by
  rw [trimBlanks, dropTrailingBlanks, List.mem_reverse] at member
  have kept := (List.dropWhile_suffix _).subset member
  exact (List.dropWhile_suffix _).subset (List.mem_reverse.mp kept)

private theorem dropBlanks_eq_self {characters : List Char}
    (first : ∀ character, characters.head? = some character → isBlank character = false) :
    dropBlanks characters = characters := by
  cases characters with
  | nil => rfl
  | cons character rest => exact List.dropWhile_cons_of_neg (by simp [first character rfl])

theorem Trimmed.trimBlanks {characters : List Char} (trimmed : Trimmed characters) :
    trimBlanks characters = characters := by
  rw [Text.trimBlanks, dropBlanks_eq_self trimmed.first, dropTrailingBlanks]
  have reversed : dropBlanks characters.reverse = characters.reverse :=
    dropBlanks_eq_self fun character found => trimmed.last character (List.head?_reverse ▸ found)
  rw [dropBlanks] at reversed
  rw [reversed, List.reverse_reverse]

theorem trimBlanks_eq_nil_iff {characters : List Char} :
    trimBlanks characters = [] ↔ ∀ character ∈ characters, isBlank character = true := by
  constructor
  · intro empty
    have inner : ∀ character ∈ dropBlanks characters, isBlank character = true :=
      List.rdropWhile_eq_nil_iff.mp empty
    refine List.dropWhile_eq_nil_iff.mp ?_
    cases left : characters.dropWhile isBlank with
    | nil => rfl
    | cons first rest =>
      have visible := dropBlanks_first characters first (by rw [dropBlanks, left]; rfl)
      rw [inner first (by rw [dropBlanks, left]; exact List.mem_cons_self)] at visible
      cases visible
  · intro blank
    rw [trimBlanks, dropBlanks, List.dropWhile_eq_nil_iff.mpr blank]
    rfl

/-- Trimmed texts stay trimmed when they are joined by a character. -/
theorem Trimmed.append {left right : List Char} (one : Trimmed left) (other : Trimmed right)
    {separator : Char} (visible : isBlank separator = false) :
    Trimmed (left ++ separator :: right) where
  first character found := by
    cases left with
    | nil =>
      cases found
      exact visible
    | cons => exact one.first character found
  last character found := by
    rw [List.getLast?_append, List.getLast?_cons] at found
    cases known : right.getLast? with
    | none =>
      rw [known] at found
      cases found
      exact visible
    | some final =>
      rw [known] at found
      cases found
      exact other.last final known

theorem Trimmed.nil : Trimmed [] where
  first _ found := by cases found
  last _ found := by cases found

end Text

namespace Numeral

private theorem natural?_ofDigitChars {digits : List Char} (all : ∀ digit ∈ digits, digit.isDigit = true)
    (value : Nat) : natural? digit? 10 value digits = some (Nat.ofDigitChars 10 digits value) := by
  induction digits generalizing value with
  | nil => rfl
  | cons digit rest ih =>
    have one := all digit List.mem_cons_self
    have small : digit.toNat - 48 < 10 := by
      have bounds : 48 ≤ digit.toNat ∧ digit.toNat ≤ 57 := Char.isDigit_iff_toNat.mp one
      omega
    rw [natural?, digit?, if_pos one, Option.bind_eq_bind, Option.bind_some, if_pos small,
      ih fun other member => all other (List.mem_cons_of_mem _ member), Nat.ofDigitChars_cons,
      Nat.mul_comm]
    rfl

theorem decimal?_toDigits (value : Nat) : decimal? (Nat.toDigits 10 value) = some value := by
  have digits := natural?_ofDigitChars
    (fun digit => Nat.isDigit_of_mem_toDigits (b := 10) (n := value) (by decide) (by decide)) 0
  rw [Nat.ofDigitChars_toDigits (by decide) (by decide)] at digits
  unfold decimal?
  split
  · rename_i empty
    exact absurd empty Nat.toDigits_ne_nil
  · exact digits

private theorem word?_digits {digits : List Char} (all : ∀ digit ∈ digits, digit.isDigit = true) :
    word? digits = (decimal? digits).bind fun value => Word.check (value : Int) := by
  unfold word?
  split
  · exact absurd (all '-' List.mem_cons_self) (by decide)
  · exact absurd (all '+' List.mem_cons_self) (by decide)
  · rfl

/-- The numeral of a word is read back. -/
theorem word?_toString {value : Int} (fits : Word.Fits value) :
    word? (toString value).toList = some value := by
  cases value with
  | ofNat number =>
    change word? number.repr.toList = _
    rw [Nat.toList_repr, word?_digits fun digit =>
      Nat.isDigit_of_mem_toDigits (by decide) (by decide), decimal?_toDigits]
    exact Word.check_eq_some_iff.mpr ⟨fits, rfl⟩
  | negSucc number =>
    change word? ("-" ++ (number + 1).repr).toList = _
    rw [String.toList_append, Nat.toList_repr]
    change (decimal? (Nat.toDigits 10 (number + 1))).bind _ = _
    have negated : -((number + 1 : Nat) : Int) = Int.negSucc number := rfl
    rw [decimal?_toDigits, Option.bind_some, negated]
    exact Word.check_eq_some_iff.mpr ⟨fits, rfl⟩

private theorem isDigit_of_natural? {digits : List Char} {value result : Nat}
    (read : natural? digit? 10 value digits = some result) :
    ∀ digit ∈ digits, digit.isDigit = true := by
  induction digits generalizing value with
  | nil =>
    intro digit member
    cases member
  | cons digit rest ih =>
    obtain ⟨number, known, read⟩ := Option.bind_eq_some_iff.mp read
    split at read
    · intro other member
      rcases List.mem_cons.mp member with rfl | later
      · unfold digit? at known
        split at known
        · assumption
        · cases known
      · exact ih read other later
    · cases read

private theorem isDigit_of_decimal? {digits : List Char} {value : Nat}
    (read : decimal? digits = some value) : ∀ digit ∈ digits, digit.isDigit = true := by
  unfold decimal? at read
  split at read
  · cases read
  · exact isDigit_of_natural? read

/-- A text that is a numeral has digits and signs only, and its value is a word. -/
theorem word?_some {characters : List Char} {value : Int} (read : word? characters = some value) :
    Word.Fits value ∧
      ∀ character ∈ characters, character.isDigit = true ∨ character = '-' ∨ character = '+' := by
  unfold word? at read
  split at read
  all_goals
    obtain ⟨number, digits, checked⟩ := Option.bind_eq_some_iff.mp read
    obtain ⟨fits, rfl⟩ := Word.check_eq_some_iff.mp checked
    have all := isDigit_of_decimal? digits
    refine ⟨fits, fun character member => ?_⟩
  · rcases List.mem_cons.mp member with rfl | later
    · exact .inr (.inl rfl)
    · exact .inl (all character later)
  · rcases List.mem_cons.mp member with rfl | later
    · exact .inr (.inr rfl)
    · exact .inl (all character later)
  · exact .inl (all character member)

/-- A decimal numeral with an optional sign, and its value. -/
inductive Denotes : List Char → Int → Prop where
  | unsigned {digits : List Char} : digits ≠ [] → (∀ digit ∈ digits, digit.isDigit = true) →
      Denotes digits (Nat.ofDigitChars 10 digits 0)
  | positive {digits : List Char} : digits ≠ [] → (∀ digit ∈ digits, digit.isDigit = true) →
      Denotes ('+' :: digits) (Nat.ofDigitChars 10 digits 0)
  | negative {digits : List Char} : digits ≠ [] → (∀ digit ∈ digits, digit.isDigit = true) →
      Denotes ('-' :: digits) (-(Nat.ofDigitChars 10 digits 0 : Int))

private theorem decimal?_eq_some_iff {digits : List Char} {value : Nat} :
    decimal? digits = some value ↔
      digits ≠ [] ∧ (∀ digit ∈ digits, digit.isDigit = true) ∧
        Nat.ofDigitChars 10 digits 0 = value := by
  cases digits with
  | nil => simp [decimal?]
  | cons first rest =>
    constructor
    · intro read
      have all := isDigit_of_decimal? read
      have digits := natural?_ofDigitChars all 0
      exact ⟨List.cons_ne_nil first rest, all, Option.some.inj (digits.symm.trans read)⟩
    · rintro ⟨-, all, rfl⟩
      exact natural?_ofDigitChars all 0

theorem word?_eq_some_iff {characters : List Char} {value : Int} :
    word? characters = some value ↔ Denotes characters value ∧ Word.Fits value := by
  constructor
  · intro read
    unfold word? at read
    split at read
    all_goals
      obtain ⟨number, digits, checked⟩ := Option.bind_eq_some_iff.mp read
      obtain ⟨fits, rfl⟩ := Word.check_eq_some_iff.mp checked
      obtain ⟨some, all, rfl⟩ := decimal?_eq_some_iff.mp digits
    · exact ⟨.negative some all, fits⟩
    · exact ⟨.positive some all, fits⟩
    · exact ⟨.unsigned some all, fits⟩
  · rintro ⟨⟨some, all⟩ | ⟨some, all⟩ | ⟨some, all⟩, fits⟩
    · rw [word?_digits all, decimal?_eq_some_iff.mpr ⟨some, all, rfl⟩]
      exact Word.check_eq_some_iff.mpr ⟨fits, rfl⟩
    · rw [word?, decimal?_eq_some_iff.mpr ⟨some, all, rfl⟩]
      exact Word.check_eq_some_iff.mpr ⟨fits, rfl⟩
    · rw [word?, decimal?_eq_some_iff.mpr ⟨some, all, rfl⟩]
      exact Word.check_eq_some_iff.mpr ⟨fits, rfl⟩

/-- Different numbers are written differently. -/
theorem repr_injective {one other : Nat} (same : one.repr = other.repr) : one = other := by
  have digits : Nat.toDigits 10 one = Nat.toDigits 10 other := by
    rw [← Nat.toList_repr, ← Nat.toList_repr, same]
  exact Option.some.inj (by rw [← decimal?_toDigits, digits, decimal?_toDigits])

theorem toString_injective {one other : UInt32} : toString one = toString other ↔ one = other :=
  ⟨fun same => UInt32.toNat_inj.mp (repr_injective same), congrArg _⟩

end Numeral

end RecordSchema

/-!
## Texts within texts

Code is put together from pieces that stand in it as they are.
-/

namespace RecordSchema.Text

theorem toString_text (text : String) : toString text = text := rfl

/-- A text stands within another as it is. -/
def Occurs (part whole : String) : Prop :=
  ∃ before after, whole = before ++ part ++ after

theorem occurs_iff {part whole : String} : Occurs part whole ↔ part.toList <:+: whole.toList := by
  constructor
  · intro ⟨before, after, same⟩
    exact ⟨before.toList, after.toList, by simp [same]⟩
  · intro ⟨before, after, same⟩
    refine ⟨String.ofList before, String.ofList after, String.toList_injective ?_⟩
    simp [← same]

instance (part whole : String) : Decidable (Occurs part whole) :=
  decidable_of_iff _ occurs_iff.symm

namespace Occurs

variable {part whole : String}

theorem refl (part : String) : Occurs part part :=
  ⟨"", "", by simp⟩

theorem trans {middle : String} (inner : Occurs part middle) (outer : Occurs middle whole) :
    Occurs part whole := by
  obtain ⟨before, after, rfl⟩ := inner
  obtain ⟨left, right, rfl⟩ := outer
  exact ⟨left ++ before, after ++ right, by simp only [String.append_assoc]⟩

theorem append_right (occurs : Occurs part whole) (behind : String) :
    Occurs part (whole ++ behind) := by
  obtain ⟨before, after, rfl⟩ := occurs
  exact ⟨before, after ++ behind, by simp only [String.append_assoc]⟩

theorem append_left (occurs : Occurs part whole) (front : String) :
    Occurs part (front ++ whole) := by
  obtain ⟨before, after, rfl⟩ := occurs
  exact ⟨front ++ before, after, by simp only [String.append_assoc]⟩

theorem join {parts : List String} (member : part ∈ parts) : Occurs part (String.join parts) := by
  induction parts with
  | nil => cases member
  | cons first rest ih =>
    rw [String.join_cons]
    cases member with
    | head => exact (refl part).append_right _
    | tail _ later => exact (ih later).append_left _

theorem intercalate {parts : List String} (member : part ∈ parts) (separator : String) :
    Occurs part (separator.intercalate parts) := by
  induction parts with
  | nil => cases member
  | cons first rest ih =>
    cases rest with
    | nil =>
      rw [List.mem_singleton.mp member, String.intercalate_singleton]
      exact refl first
    | cons second rest =>
      rw [String.intercalate_cons_cons, String.append_assoc]
      cases member with
      | head => exact (refl part).append_right _
      | tail _ later => exact ((ih later).append_left _).append_left _

end Occurs

/-!
## Pieces of texts
-/

theorem not_mem_of_mem_splitOnChar {separator : Char} {characters piece : List Char}
    (listed : piece ∈ splitOnChar separator characters) : separator ∉ piece := by
  induction characters generalizing piece with
  | nil =>
    cases List.mem_singleton.mp listed
    exact List.not_mem_nil
  | cons character rest ih =>
    rw [splitOnChar] at listed
    split at listed
    · rcases List.mem_cons.mp listed with rfl | later
      · exact List.not_mem_nil
      · exact ih later
    · rename_i other
      split at listed
      · cases List.mem_singleton.mp listed
        exact fun same => other (List.mem_singleton.mp same).symm
      · rename_i first others pieces
        rw [pieces] at ih
        rcases List.mem_cons.mp listed with rfl | later
        · intro among
          rcases List.mem_cons.mp among with same | among
          · exact other same.symm
          · exact ih List.mem_cons_self among
        · exact ih (List.mem_cons_of_mem _ later)

theorem splitOnChar_eq_singleton {separator : Char} {characters : List Char}
    (free : separator ∉ characters) : splitOnChar separator characters = [characters] := by
  induction characters with
  | nil => rfl
  | cons character rest ih =>
    obtain ⟨different, free⟩ := not_or.mp (mt List.mem_cons.mpr free)
    rw [splitOnChar, if_neg (Ne.symm different), ih free]

/-- The pieces of a text that is put together are split off again. -/
theorem splitOn_intercalate {separator : String} {character : Char}
    (only : separator.toList = [character]) {pieces : List String} (present : pieces ≠ [])
    (free : ∀ piece ∈ pieces, character ∉ piece.toList) :
    (separator.intercalate pieces).toList.splitOn character = pieces.map String.toList := by
  rw [String.toList_intercalate, only]
  refine List.splitOn_intercalate _ (fun characters listed => ?_) (by simpa using present)
  obtain ⟨piece, among, rfl⟩ := List.mem_map.mp listed
  exact free piece among

end RecordSchema.Text
