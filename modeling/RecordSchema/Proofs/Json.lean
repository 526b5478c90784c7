import RecordSchema.Json.Parser
import RecordSchema.Json.Printer
import RecordSchema.Proofs.Text

/-!
# JSON texts are read back

The text of a value is read as that value, whatever comes after it, as long as this does not go on with a
number. Strings are read character by character, lists and objects item by item, so the length of the text
is a bound on the steps that it takes to read it.
-/

set_option autoImplicit false

namespace RecordSchema.Json

open RecordSchema.Json.Parser

/-- A value that can be written so that it can be read: all its numbers are integers, and all its strings
denote texts. -/
inductive Plain : Json → Prop where
  | null : Plain .null
  | bool (value : Bool) : Plain (.bool value)
  | int (value : Int) : Plain (.int value)
  | str (text : String) : Plain (.str text)
  | arr {items : List Json} : (∀ item ∈ items, Plain item) → Plain (.arr items)
  | obj {fields : List (String × Json)} : (∀ field ∈ fields, Plain field.2) → Plain (.obj fields)

/-!
## Strings
-/

/-- The escape of a control character that has no short one. -/
theorem fourHexDigits?_escape {code : Nat} (control : code < 0x20) (rest : List Char) :
    fourHexDigits? ((Numeral.fourHexDigits code).toList ++ rest) = some (code, rest) := by
  have digits : ∀ code < 0x20, (Numeral.fourHexDigits code).toList =
      ['0', '0', if code < 16 then '0' else '1', (code % 16).digitChar] := by decide +kernel
  have last : ∀ code < 0x20, Numeral.hexDigit? (code % 16).digitChar = some (code % 16) := by
    decide +kernel
  have lead : Numeral.hexDigit? (if code < 16 then '0' else '1') = some (code / 16) := by
    split
    · rw [Nat.div_eq_of_lt ‹_›]
      rfl
    · have one : code / 16 = 1 := by omega
      rw [one]
      rfl
  have zero : Numeral.hexDigit? '0' = some 0 := rfl
  rw [digits code control]
  simp only [List.cons_append, List.nil_append, fourHexDigits?, zero, lead, last code control,
    Option.bind_eq_bind, Option.bind_some]
  congr 2
  omega

/-- A letter behind a backslash that stands for a character. -/
theorem string?_letter (fuel : Nat) (reversed : List Char) {letter meant : Char} (rest : List Char)
    (short : shortEscape? letter = some meant) :
    string? (fuel + 1) (some reversed) ('\\' :: letter :: rest) =
      string? fuel (some (meant :: reversed)) rest := by
  have other : letter ≠ 'u' := by
    rintro rfl
    cases short
  rw [string?, if_neg (by decide), if_pos rfl, short]
  · rfl
  · exact other

private theorem string?_control (fuel : Nat) (reversed : List Char) {character : Char} (rest : List Char)
    (control : character.toNat < 0x20) :
    string? (fuel + 1) (some reversed)
        ('\\' :: 'u' :: ((Numeral.fourHexDigits character.toNat).toList ++ rest)) =
      string? fuel (some (character :: reversed)) rest := by
  have escaped : unicodeEscape? ((Numeral.fourHexDigits character.toNat).toList ++ rest) =
      some ⟨some character, rest⟩ := by
    rw [unicodeEscape?, fourHexDigits?_escape control, Option.bind_eq_bind, Option.bind_some]
    simp only
    rw [if_neg (by omega), if_neg (by omega), Char.ofNat_toNat]
  rw [string?, if_neg (by decide), if_pos rfl]
  simp only [escaped, Option.bind_eq_bind, Option.bind_some]

/-- A character is written as a letter behind a backslash, by its code, or as itself. -/
theorem escapeChar_cases (character : Char) :
    (∃ letter, escapeChar character = ['\\', letter] ∧ shortEscape? letter = some character) ∨
    (character.toNat < 0x20 ∧
      escapeChar character = '\\' :: 'u' :: (Numeral.fourHexDigits character.toNat).toList) ∨
    (character ≠ '\x22' ∧ character ≠ '\\' ∧ ¬ character.toNat < 0x20 ∧
      escapeChar character = [character]) := by
  by_cases short : character ∈ ['\x22', '\\', '\x08', '\x0c', '\n', '\r', '\t']
  · simp only [List.mem_cons, List.not_mem_nil, or_false] at short
    rcases short with rfl | rfl | rfl | rfl | rfl | rfl | rfl <;> exact .inl ⟨_, rfl, rfl⟩
  · simp only [List.mem_cons, not_or] at short
    obtain ⟨quote, backslash, bell, feed, line, carriage, tab, -⟩ := short
    rw [escapeChar, if_neg quote, if_neg backslash, if_neg bell, if_neg feed, if_neg line,
      if_neg carriage, if_neg tab]
    by_cases control : character.toNat < 0x20
    · exact .inr (.inl ⟨control, if_pos control⟩)
    · exact .inr (.inr ⟨quote, backslash, control, if_neg control⟩)

/-- One step reads one character of a text. -/
theorem string?_escapeChar (fuel : Nat) (reversed : List Char) (character : Char) (rest : List Char) :
    string? (fuel + 1) (some reversed) (escapeChar character ++ rest) =
      string? fuel (some (character :: reversed)) rest := by
  obtain ⟨letter, written, short⟩ | ⟨control, written⟩ | ⟨quote, backslash, visible, written⟩ :=
    escapeChar_cases character <;> rw [written]
  · exact string?_letter fuel reversed rest short
  · exact string?_control fuel reversed rest control
  · rw [List.singleton_append, string?.eq_def]
    simp only [if_neg quote, if_neg backslash, if_neg visible, Option.map_some]

private theorem length_le_escaped (text : List Char) : text.length ≤ (text.flatMap escapeChar).length := by
  have each : ∀ character, 1 ≤ (escapeChar character).length := by
    intro character
    obtain ⟨_, written, -⟩ | ⟨-, written⟩ | ⟨-, -, -, written⟩ := escapeChar_cases character <;>
      rw [written] <;> exact Nat.le_add_left _ _
  induction text with
  | nil => exact Nat.le_refl _
  | cons character text ih =>
    have one := each character
    rw [List.flatMap_cons, List.length_append, List.length_cons]
    omega

private theorem string?_escaped {fuel : Nat} {text : List Char} (enough : text.length < fuel)
    (reversed rest : List Char) :
    string? fuel (some reversed) (text.flatMap escapeChar ++ '\x22' :: rest) =
      some (some (String.ofList (reversed.reverse ++ text)), rest) := by
  induction text generalizing fuel reversed with
  | nil =>
    obtain ⟨fuel, rfl⟩ := Nat.exists_eq_add_of_lt enough
    simp [string?]
  | cons character text ih =>
    obtain ⟨fuel, rfl⟩ := Nat.exists_eq_add_one_of_ne_zero (Nat.ne_zero_of_lt enough)
    rw [List.flatMap_cons, List.append_assoc, string?_escapeChar, ih (by simpa using enough)]
    simp

/-!
## Numbers
-/

/-- What comes after a value does not go on with a number. -/
def Stops (rest : List Char) : Prop :=
  ∀ character ∈ rest.head?,
    character.isDigit = false ∧ character ≠ '.' ∧ character ≠ 'e' ∧ character ≠ 'E'

private theorem isDigit_of_toDigits {value : Nat} {first : Char} {more : List Char}
    (leading : Nat.toDigits 10 value = first :: more) : first.isDigit = true :=
  Nat.isDigit_of_mem_toDigits (by decide) (by decide) (leading ▸ List.mem_cons_self)

private theorem head_toDigits_ne_zero {value : Nat} (positive : 0 < value) {rest : List Char} :
    Nat.toDigits 10 value ≠ '0' :: rest := by
  induction value using Nat.strongRecOn generalizing rest with
  | _ value ih =>
    by_cases small : value < 10
    · rw [Nat.toDigits_of_lt_base small]
      intro same
      have zero := Nat.digitChar_eq_zero.mp (List.cons.inj same).1
      omega
    · rw [Nat.toDigits_of_base_le (by decide) (by omega)]
      have lower := @ih (value / 10) (by omega) (by omega)
      cases leading : Nat.toDigits 10 (value / 10) with
      | nil => exact absurd leading Nat.toDigits_ne_nil
      | cons first more =>
        intro same
        obtain ⟨rfl, -⟩ := List.cons.inj same
        exact lower leading

private theorem digits_append {numeral rest : List Char} (all : ∀ digit ∈ numeral, digit.isDigit = true)
    (stops : Stops rest) : digits (numeral ++ rest) = (numeral, rest) := by
  have none : rest.takeWhile Char.isDigit = [] ∧ rest.dropWhile Char.isDigit = rest := by
    cases rest with
    | nil => exact ⟨rfl, rfl⟩
    | cons first more =>
      have other := (stops first rfl).1
      simp [other]
  rw [digits, List.takeWhile_append_of_pos all, List.dropWhile_append_of_pos all, none.1, none.2,
    List.append_nil]

private theorem wholePart?_toDigits (value : Nat) {rest : List Char} (stops : Stops rest) :
    wholePart? (Nat.toDigits 10 value ++ rest) = some (Nat.toDigits 10 value, rest) := by
  rw [wholePart?, digits_append (fun digit => Nat.isDigit_of_mem_toDigits (by decide) (by decide)) stops]
  split
  · rename_i same
    exact absurd (Prod.mk.inj same).1 Nat.toDigits_ne_nil
  · rename_i next more _ same
    have leading := (Prod.mk.inj same).1
    rcases Nat.eq_zero_or_pos value with rfl | positive
    · rw [Nat.toDigits_zero] at leading
      cases leading
    · exact absurd leading (head_toDigits_ne_zero positive)
  · rfl

private theorem fraction?_of_stops {rest : List Char} (stops : Stops rest) :
    fraction? rest = some ([], rest) := by
  unfold fraction?
  split
  · exact absurd rfl (stops '.' rfl).2.1
  · rfl

private theorem exponent?_of_stops {rest : List Char} (stops : Stops rest) :
    exponent? rest = some ([], rest) := by
  cases rest with
  | nil => rfl
  | cons first more =>
    obtain ⟨-, -, small, capital⟩ := stops first rfl
    unfold exponent?
    exact if_neg (by simp [small, capital])

private theorem number?_toString (value : Int) {rest : List Char} (stops : Stops rest) :
    number? ((toString value).toList ++ rest) = some (.int value, rest) := by
  have parts : ∀ value, wholePart? (Nat.toDigits 10 value ++ rest) = some (Nat.toDigits 10 value, rest) :=
    fun value => wholePart?_toDigits value stops
  cases value with
  | ofNat value =>
    have text : (toString (Int.ofNat value)).toList = Nat.toDigits 10 value := Nat.toList_repr
    have unsigned : ∀ more, Nat.toDigits 10 value ++ rest ≠ '-' :: more := by
      intro more same
      cases leading : Nat.toDigits 10 value with
      | nil => exact Nat.toDigits_ne_nil leading
      | cons first digits =>
        have digit := isDigit_of_toDigits leading
        rw [leading] at same
        obtain ⟨rfl, -⟩ := List.cons.inj same
        cases digit
    rw [text, number?]
    · simp only [parts, fraction?_of_stops stops, exponent?_of_stops stops,
        Numeral.decimal?_toDigits, Option.bind_eq_bind, Option.bind_some]
      simp
    · exact unsigned
  | negSucc value =>
    have text : (toString (Int.negSucc value)).toList = '-' :: Nat.toDigits 10 (value + 1) := by
      change ("-" ++ (value + 1).repr).toList = _
      rw [String.toList_append, Nat.toList_repr]
      rfl
    rw [text, List.cons_append, number?]
    simp only [parts, fraction?_of_stops stops, exponent?_of_stops stops,
      Numeral.decimal?_toDigits, Option.bind_eq_bind, Option.bind_some]
    rfl

/-!
## Lists and objects

Lists and objects are read by the same kind of loop: one entry, and then a comma with further entries or
the closing bracket.
-/

def Blanks (characters : List Char) : Prop :=
  ∀ character ∈ characters, isBlank character = true

private theorem skipBlanks_append {blanks : List Char} (all : Blanks blanks) (input : List Char) :
    skipBlanks (blanks ++ input) = skipBlanks input :=
  List.dropWhile_append_of_pos all

private theorem skipBlanks_cons {character : Char} (visible : isBlank character = false)
    (rest : List Char) :
    skipBlanks (character :: rest) = character :: rest :=
  List.dropWhile_cons_of_neg (by simp [visible])

/-- A loop that reads entries up to a closing bracket. -/
structure Delimited {α : Type} (one : Nat → List Char → Option (α × List Char))
    (list : Nat → List Char → Option (List α × List Char)) (closing : Char) : Prop where
  visible : isBlank closing = false
  last : ∀ {fuel input item rest after}, one fuel input = some (item, rest) →
    skipBlanks rest = closing :: after → list (fuel + 1) input = some ([item], after)
  more : ∀ {fuel input item rest others items after}, one fuel input = some (item, rest) →
    skipBlanks rest = ',' :: others → list fuel others = some (items, after) →
      list (fuel + 1) input = some (item :: items, after)

/-- A text is read as an entry, with blanks before it and anything behind it but the rest of a number. -/
def ReadAs {α : Type} (one : Nat → List Char → Option (α × List Char)) (text : List Char)
    (item : α) : Prop :=
  ∀ (fuel : Nat) (blanks rest : List Char), Blanks blanks → text.length ≤ fuel → Stops rest →
    one fuel (blanks ++ (text ++ rest)) = some (item, rest)

/-- The entries after the first one, each on a line of its own. -/
def furtherLines {α : Type} (margin : List Char) (write : α → List Char) (items : List α) : List Char :=
  items.flatMap fun item => ',' :: '\n' :: (margin ++ write item)

theorem Delimited.read {α : Type} {one : Nat → List Char → Option (α × List Char)}
    {list : Nat → List Char → Option (List α × List Char)} {closing : Char}
    (delimited : Delimited one list closing) {margin outer : List Char} (margins : Blanks margin)
    (outers : Blanks outer) {write : α → List Char} {first : α} {rest : List α}
    (each : ∀ item ∈ first :: rest, ReadAs one (write item) item) {blanks : List Char}
    (before : Blanks blanks) {fuel : Nat}
    (enough : (write first).length + (furtherLines margin write rest).length < fuel)
    (after : List Char) :
    list fuel (blanks ++ (write first ++
        (furtherLines margin write rest ++ '\n' :: (outer ++ closing :: after)))) =
      some (first :: rest, after) := by
  have newline : ∀ {others : List Char}, Blanks others → Blanks ('\n' :: others) := fun all =>
    List.forall_mem_cons.mpr ⟨rfl, all⟩
  induction rest generalizing first blanks fuel with
  | nil =>
    obtain ⟨fuel, rfl⟩ := Nat.exists_eq_add_one_of_ne_zero (Nat.ne_zero_of_lt enough)
    have stops : Stops ('\n' :: (outer ++ closing :: after)) := by
      rintro _ ⟨⟩
      decide
    refine delimited.last (each first List.mem_cons_self _ _ _ before (by omega) stops) ?_
    exact (skipBlanks_append (newline outers) _).trans (skipBlanks_cons delimited.visible after)
  | cons second rest ih =>
    obtain ⟨fuel, rfl⟩ := Nat.exists_eq_add_one_of_ne_zero (Nat.ne_zero_of_lt enough)
    have lines : furtherLines margin write (second :: rest) =
        ',' :: '\n' :: (margin ++ (write second ++ furtherLines margin write rest)) := by
      simp [furtherLines]
    rw [lines] at enough ⊢
    simp only [List.length_cons, List.length_append] at enough
    have stops : ∀ others, Stops (',' :: others) := by
      rintro others _ ⟨⟩
      decide
    simp only [List.cons_append, List.append_assoc]
    refine delimited.more (each first List.mem_cons_self _ _ _ before (by omega) (stops _))
      (skipBlanks_cons (by decide) _) ?_
    exact ih (fun item member => each item (List.mem_cons_of_mem _ member)) (newline margins) (by omega)

private theorem items_delimited : Delimited value? items? ']' where
  visible := rfl
  last read closed := by simp [items?, read, closed]
  more read comma others := by simp [items?, read, comma, others]

/-- Reads a field of an object: its name and its value. -/
def namedValue? (fuel : Nat) (input : List Char) : Option ((String × Json) × List Char) := do
  let (name, start) ← fieldName? input
  let (value, rest) ← value? fuel start
  some ((name, value), rest)

private theorem namedValue?_eq_some {fuel : Nat} {input rest : List Char} {field : String × Json}
    (read : namedValue? fuel input = some (field, rest)) :
    ∃ start, fieldName? input = some (field.1, start) ∧ value? fuel start = some (field.2, rest) := by
  obtain ⟨⟨name, start⟩, named, read⟩ := Option.bind_eq_some_iff.mp read
  obtain ⟨⟨value, after⟩, valued, read⟩ := Option.bind_eq_some_iff.mp read
  cases read
  exact ⟨start, named, valued⟩

private theorem fields_delimited : Delimited namedValue? fields? '\x7d' where
  visible := rfl
  last read closed := by
    obtain ⟨start, named, valued⟩ := namedValue?_eq_some read
    simp [fields?, named, valued, closed]
  more read comma others := by
    obtain ⟨start, named, valued⟩ := namedValue?_eq_some read
    simp [fields?, named, valued, comma, others]

/-!
## Values
-/

private theorem value?_blanks {blanks : List Char} (all : Blanks blanks) (fuel : Nat) (input : List Char) :
    value? fuel (blanks ++ input) = value? fuel input := by
  cases fuel with
  | zero => rfl
  | succ fuel => simp only [value?, skipBlanks_append all]

/-- Neither a list nor an object begins with the character, nor a blank. -/
theorem value?_scalar {first : Char} (visible : isBlank first = false) (list : first ≠ '[')
    (object : first ≠ '\x7b') (fuel : Nat) (rest : List Char) :
    value? (fuel + 1) (first :: rest) = scalar? (first :: rest) := by
  simp [value?, skipBlanks_cons visible, list, object]

private theorem quote_toList (text : String) :
    (quote text).toList = '\x22' :: (text.toList.flatMap escapeChar ++ ['\x22']) := by
  simp [quote]

private theorem string?_quote (text : String) (rest : List Char) :
    string? ((text.toList.flatMap escapeChar ++ '\x22' :: rest).length + 1) (some [])
        (text.toList.flatMap escapeChar ++ '\x22' :: rest) = some (some text, rest) := by
  have shorter := length_le_escaped text.toList
  have enough : text.toList.length <
      (text.toList.flatMap escapeChar ++ '\x22' :: rest).length + 1 := by
    rw [List.length_append, List.length_cons]
    omega
  rw [string?_escaped enough]
  simp

/-- The characters with which numbers begin. -/
def BeginsNumber (first : Char) : Prop :=
  first.isDigit = true ∨ first = '-'

private theorem BeginsNumber.ne {first : Char} (number : BeginsNumber first) {other : Char}
    (noDigit : other.isDigit = false) (noSign : other ≠ '-') : first ≠ other := by
  rintro rfl
  rcases number with digit | sign
  · rw [noDigit] at digit
    cases digit
  · exact noSign sign

theorem BeginsNumber.visible {first : Char} (number : BeginsNumber first) : isBlank first = false := by
  have space : first ≠ ' ' := number.ne (by decide) (by decide)
  have tab : first ≠ '\t' := number.ne (by decide) (by decide)
  have line : first ≠ '\n' := number.ne (by decide) (by decide)
  have carriage : first ≠ '\r' := number.ne (by decide) (by decide)
  simp [isBlank, space, tab, line, carriage]

private theorem scalar?_number {first : Char} (number : BeginsNumber first) (rest : List Char) :
    scalar? (first :: rest) = number? (first :: rest) := by
  have other : ∀ character : Char, character.isDigit = false → character ≠ '-' →
      ∀ more, first :: rest = character :: more → False :=
    fun _ noDigit noSign _ same => number.ne noDigit noSign (List.cons.inj same).1
  rw [scalar?]
  · exact other 'n' (by decide) (by decide)
  · exact other 't' (by decide) (by decide)
  · exact other 'f' (by decide) (by decide)
  · exact other '\x22' (by decide) (by decide)

/-- What begins neither a list nor an object is read by itself. -/
theorem readAs_scalar {first : Char} {more : List Char} {value : Json}
    (visible : isBlank first = false) (list : first ≠ '[') (object : first ≠ '\x7b')
    (read : ∀ rest, Stops rest → scalar? (first :: (more ++ rest)) = some (value, rest)) :
    ReadAs value? (first :: more) value := by
  intro fuel blanks rest before enough stops
  obtain ⟨fuel, rfl⟩ := Nat.exists_eq_add_of_lt enough
  rw [value?_blanks before, List.cons_append]
  exact (value?_scalar visible list object _ _).trans (read rest stops)

private theorem toString_begins (value : Int) :
    ∃ first more, (toString value).toList = first :: more ∧ BeginsNumber first := by
  cases value with
  | ofNat value =>
    have digits : (toString (Int.ofNat value)).toList = Nat.toDigits 10 value := Nat.toList_repr
    cases leading : Nat.toDigits 10 value with
    | nil => exact absurd leading Nat.toDigits_ne_nil
    | cons first more =>
      exact ⟨first, more, digits.trans leading, .inl (isDigit_of_toDigits leading)⟩
  | negSucc value => exact ⟨'-', (value + 1).repr.toList, String.toList_append, .inr rfl⟩

private theorem readAs_int (value : Int) : ReadAs value? (toString value).toList (.int value) := by
  have read : ∀ rest, Stops rest →
      number? ((toString value).toList ++ rest) = some (.int value, rest) :=
    fun rest stops => number?_toString value stops
  obtain ⟨first, more, text, number⟩ := toString_begins value
  rw [text] at read ⊢
  exact readAs_scalar number.visible (number.ne (by decide) (by decide))
    (number.ne (by decide) (by decide))
    fun rest stops => (scalar?_number number _).trans (read rest stops)

private theorem readAs_str (text : String) : ReadAs value? (quote text).toList (.str text) := by
  rw [quote_toList]
  refine readAs_scalar (by decide) (by decide) (by decide) fun rest _ => ?_
  rw [List.append_assoc, List.singleton_append, scalar?]
  simp only [string?_quote, Option.bind_eq_bind, Option.bind_some]

private theorem readAs_field {text : List Char} {value : Json} (read : ReadAs value? text value)
    (name : String) :
    ReadAs namedValue? ((quote name).toList ++ ':' :: ' ' :: text) (name, value) := by
  intro fuel blanks rest before enough stops
  have named : fieldName? (blanks ++ ((quote name).toList ++ ':' :: ' ' :: (text ++ rest))) =
      some (name, ' ' :: (text ++ rest)) := by
    rw [fieldName?, skipBlanks_append before, quote_toList, List.cons_append,
      skipBlanks_cons (by decide), List.append_assoc, List.singleton_append]
    have colon : isBlank ':' = false := by decide
    simp only [string?_quote, Option.bind_eq_bind, Option.bind_some, skipBlanks_cons colon]
  have valued := read fuel [' '] rest (by simp [Blanks]; decide) (by
    simp only [List.length_append, List.length_cons] at enough
    omega) stops
  rw [List.append_assoc, List.cons_append, List.cons_append, namedValue?, named]
  simp only [Option.bind_eq_bind, Option.bind_some]
  rw [List.singleton_append] at valued
  rw [valued]
  rfl

/-!
## Texts over several lines
-/

def blanks (count : Nat) : List Char :=
  List.replicate count ' '

private theorem blanks_blanks (count : Nat) : Blanks (blanks count) := by
  intro character member
  rw [List.eq_of_mem_replicate member]
  rfl

private theorem block_toList (opening closing : String) (indent : Nat) (first : String)
    (rest : List String) :
    (block opening closing indent (first :: rest)).toList =
      opening.toList ++ '\n' :: (blanks (indent + 2) ++ (first.toList ++
        (furtherLines (blanks (indent + 2)) String.toList rest ++
          '\n' :: (blanks indent ++ closing.toList)))) := by
  have lines : ∀ (first : String) (rest : List String),
      (",\n".intercalate ((first :: rest).map (String.ofList (blanks (indent + 2)) ++ ·))).toList =
        blanks (indent + 2) ++ (first.toList ++
          furtherLines (blanks (indent + 2)) String.toList rest) := by
    intro first rest
    rw [String.toList_intercalate]
    induction rest generalizing first with
    | nil => simp [furtherLines]
    | cons second rest ih =>
      rw [List.map_cons, List.map_cons, List.map_cons, List.map_cons, List.intercalate_cons_cons,
        ← List.map_cons, ← List.map_cons, ih]
      simp [furtherLines]
  change (opening ++ "\n" ++
    ",\n".intercalate ((first :: rest).map (String.ofList (blanks (indent + 2)) ++ ·)) ++ "\n" ++
    String.ofList (blanks indent) ++ closing).toList = _
  rw [String.toList_append, String.toList_append, String.toList_append, String.toList_append,
    String.toList_append, lines, String.toList_ofList]
  simp

private theorem prettyItems_eq (indent : Nat) (items : List Json) :
    prettyItems indent items = items.map (prettyAt indent) := by
  induction items with
  | nil => rfl
  | cons item rest ih => rw [prettyItems, ih, List.map_cons]

/-- The text of a field, its value over several lines. -/
def prettyField (indent : Nat) (field : String × Json) : String :=
  quote field.1 ++ ": " ++ prettyAt indent field.2

private theorem prettyFields_eq (indent : Nat) (fields : List (String × Json)) :
    prettyFields indent fields = fields.map (prettyField indent) := by
  induction fields with
  | nil => rfl
  | cons field rest ih => rw [prettyFields, ih, List.map_cons, prettyField]

private theorem furtherLines_map {α : Type} (margin : List Char) (write : α → String) (items : List α) :
    furtherLines margin String.toList (items.map write) =
      furtherLines margin (fun item => (write item).toList) items := by
  simp [furtherLines, List.flatMap_map]

/-- Entries between brackets, each on a line of its own, are read by the loop for that bracket. -/
theorem Delimited.read_block {α : Type} {one : Nat → List Char → Option (α × List Char)}
    {list : Nat → List Char → Option (List α × List Char)} {closing : Char}
    (delimited : Delimited one list closing) {write : α → String} {first : α} {rest : List α}
    (each : ∀ item ∈ first :: rest, ReadAs one (write item).toList item) {indent fuel : Nat}
    {opening bracket : String} (opened : opening.toList.length = 1) (closed : bracket.toList = [closing])
    (enough : (block opening bracket indent ((first :: rest).map write)).toList.length ≤ fuel + 1) :
    ∃ inner, (block opening bracket indent ((first :: rest).map write)).toList =
        opening.toList ++ inner ∧
      ∀ after, list fuel (inner ++ after) = some (first :: rest, after) := by
  rw [List.map_cons, block_toList, furtherLines_map, closed] at enough ⊢
  simp only [List.length_append, List.length_cons, opened] at enough
  refine ⟨_, rfl, fun after => ?_⟩
  have newline : Blanks ('\n' :: blanks (indent + 2)) :=
    List.forall_mem_cons.mpr ⟨rfl, blanks_blanks _⟩
  have enough : (write first).toList.length + (furtherLines (blanks (indent + 2))
      (fun item => (write item).toList) rest).length < fuel := by omega
  have read := delimited.read (blanks_blanks (indent + 2)) (blanks_blanks indent) each newline enough
    after
  simpa using read

/-- No item begins with the bracket that closes a list. -/
theorem skipBlanks_ne_of_items? {fuel : Nat} {input : List Char} {read : List Json × List Char}
    (found : items? fuel input = some read) (after : List Char) : skipBlanks input ≠ ']' :: after := by
  intro closed
  cases fuel with
  | zero => cases found
  | succ fuel =>
    have none : value? fuel input = none := by
      cases fuel with
      | zero => rfl
      | succ fuel => simp [value?, closed, scalar?, number?, wholePart?, digits]
    simp [items?, none] at found

/-- No field begins with the brace that closes an object. -/
theorem skipBlanks_ne_of_fields? {fuel : Nat} {input : List Char}
    {read : List (String × Json) × List Char} (found : fields? fuel input = some read)
    (after : List Char) : skipBlanks input ≠ '\x7d' :: after := by
  intro closed
  cases fuel with
  | zero => cases found
  | succ fuel => simp [fields?, fieldName?, closed] at found

private theorem value?_list {fuel : Nat} {input after : List Char} {items : List Json}
    (read : items? fuel input = some (items, after)) :
    value? (fuel + 1) ('[' :: input) = some (.arr items, after) := by
  have other := skipBlanks_ne_of_items? read
  rw [value?, skipBlanks_cons (by decide)]
  simp only [read, Option.map_some]

private theorem value?_object {fuel : Nat} {input after : List Char} {fields : List (String × Json)}
    (read : fields? fuel input = some (fields, after)) :
    value? (fuel + 1) ('\x7b' :: input) = some (.obj fields, after) := by
  have other := skipBlanks_ne_of_fields? read
  rw [value?, skipBlanks_cons (by decide)]
  simp only [read, Option.map_some]

private theorem readAs_list {indent : Nat} {first : Json} {rest : List Json}
    (each : ∀ item ∈ first :: rest, ReadAs value? (prettyAt (indent + 2) item).toList item) :
    ReadAs value? (prettyAt indent (.arr (first :: rest))).toList (.arr (first :: rest)) := by
  intro fuel blanks after before enough _
  have text : prettyAt indent (.arr (first :: rest)) =
      block "[" "]" indent ((first :: rest).map (prettyAt (indent + 2))) := by
    rw [prettyAt, prettyItems_eq, List.map_cons]
  rw [text] at enough ⊢
  cases fuel with
  | zero => simp [block] at enough
  | succ fuel =>
    obtain ⟨inner, whole, read⟩ := items_delimited.read_block each rfl rfl enough
    rw [value?_blanks before, whole]
    exact value?_list (read after)

private theorem readAs_object {indent : Nat} {first : String × Json} {rest : List (String × Json)}
    (each : ∀ field ∈ first :: rest, ReadAs value? (prettyAt (indent + 2) field.2).toList field.2) :
    ReadAs value? (prettyAt indent (.obj (first :: rest))).toList (.obj (first :: rest)) := by
  intro fuel blanks after before enough _
  have text : prettyAt indent (.obj (first :: rest)) =
      block "\x7b" "\x7d" indent ((first :: rest).map (prettyField (indent + 2))) := by
    rw [prettyAt, prettyFields_eq, List.map_cons, prettyField]
  have fields : ∀ field ∈ first :: rest,
      ReadAs namedValue? (prettyField (indent + 2) field).toList field := by
    intro field member
    have read := readAs_field (each field member) field.1
    simpa [prettyField] using read
  rw [text] at enough ⊢
  cases fuel with
  | zero => simp [block] at enough
  | succ fuel =>
    obtain ⟨inner, whole, read⟩ := fields_delimited.read_block fields rfl rfl enough
    rw [value?_blanks before, whole]
    exact value?_object (read after)

/-- A word is read up to its last letter. -/
theorem word?_append (word rest : List Char) : word? word (word ++ rest) = some rest := by
  induction word with
  | nil => rfl
  | cons letter word ih => rw [List.cons_append, word?, if_pos rfl, ih]

private theorem readAs_word (text : String) {first : Char} {word : List Char} {value : Json}
    (visible : isBlank first = false) (list : first ≠ '[') (object : first ≠ '\x7b')
    (scalar : ∀ rest, scalar? (first :: rest) = (word? word rest).map (value, ·))
    (spelled : text.toList = first :: word) : ReadAs value? text.toList value := by
  rw [spelled]
  refine readAs_scalar visible list object fun rest _ => ?_
  rw [scalar, word?_append, Option.map_some]

/-- A pair of brackets with nothing between them. -/
theorem readAs_empty (text : String) {opening closing : Char} {value : Json}
    (read : ∀ fuel rest, value? (fuel + 1) (opening :: closing :: rest) = some (value, rest))
    (spelled : text.toList = [opening, closing]) : ReadAs value? text.toList value := by
  rw [spelled]
  intro fuel blanks rest before enough _
  obtain ⟨fuel, rfl⟩ := Nat.exists_eq_add_of_lt enough
  rw [value?_blanks before]
  exact read _ rest

private theorem Plain.readAs {value : Json} (plain : Plain value) (indent : Nat) :
    ReadAs value? (prettyAt indent value).toList value := by
  induction plain generalizing indent with
  | null => exact readAs_word "null" rfl (by decide) (by decide) (fun _ => rfl) rfl
  | bool value =>
    cases value with
    | true => exact readAs_word "true" rfl (by decide) (by decide) (fun _ => rfl) rfl
    | false => exact readAs_word "false" rfl (by decide) (by decide) (fun _ => rfl) rfl
  | int value => exact readAs_int value
  | str text => exact readAs_str text
  | @arr items _ ih =>
    cases items with
    | nil => exact readAs_empty "[]" (fun _ _ => rfl) rfl
    | cons first rest => exact readAs_list fun item member => ih item member (indent + 2)
  | @obj fields _ ih =>
    cases fields with
    | nil => exact readAs_empty "\x7b\x7d" (fun _ _ => rfl) rfl
    | cons first rest => exact readAs_object fun field member => ih field member (indent + 2)

/-- The text of a value over several lines is read as that value. -/
theorem Plain.parse?_pretty {value : Json} (plain : Plain value) : parse? value.pretty = some value := by
  have enough : (prettyAt 0 value).toList.length ≤ 2 * (prettyAt 0 value).toList.length + 2 := by omega
  have stops : Stops [] := by simp [Stops]
  have read := plain.readAs 0 _ [] [] (List.forall_mem_nil _) enough stops
  rw [List.nil_append, List.append_nil] at read
  rw [parse?, pretty]
  simp only [read, Option.bind_eq_bind, Option.bind_some]
  rfl

end RecordSchema.Json
